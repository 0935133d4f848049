import Latchkey.Proofs.Clients
import Latchkey.Proofs.Discipline
import Latchkey.Proofs.FreeLock
import Latchkey.Proofs.LiveValues

/-!
# Sequential use of a key

Operations are called one after the other. While one is running nothing else goes on, but any of its
store calls may fail. Between two operations anything may happen that leaves the value of one key
alone: time passes, other keys are written, what is gone is removed, the store gets slow or quick.

A *session* is what such a sequence comes to, with each operation, its moments and its answer.

The main statements are `Program.Plays.of_flawless` and `Program.Plays.of_faulty`: what a program
ensures is what it has come to when it was played.
-/

namespace Latchkey

/-! ## Effects and time -/

namespace World

variable {w : World} {e : Effect}

/-- An effect is answered at some later time, and until then nothing but the pool has changed. -/
theorem perform_eq (w : World) (e : Effect) :
    ∃ (w₁ : World) (waited : Option Wait), w.now ≤ w₁.now ∧
      w₁.store.keyspace = w.store.keyspace ∧ w.perform e = w₁.answer waited e := by
  unfold perform
  cases h : w.wait? e with
  | none => exact ⟨w, none, Nat.le_refl _, rfl, rfl⟩
  | some v =>
    obtain ⟨w', wait⟩ := v
    have ha := wait?_alike h
    refine ⟨w'.atTime wait.latest, some wait, ?_, ha.keyspace, rfl⟩
    show w.now ≤ max w'.now wait.latest
    rw [ha.now]
    exact Nat.le_max_left _ _

theorem now_le_perform (w : World) (e : Effect) : w.now ≤ (w.perform e).1.now := by
  obtain ⟨w₁, waited, hle, -, hperform⟩ := w.perform_eq e
  rw [hperform, answer_now]
  exact hle

/-- Only commands change the keyspace. -/
theorem perform_keyspace (w : World) (he : ∀ conn cmd, e ≠ .call (.command conn cmd)) :
    (w.perform e).1.store.keyspace = w.store.keyspace := by
  obtain ⟨w₁, waited, -, hkeyspace, hperform⟩ := w.perform_eq e
  rw [hperform, ← hkeyspace]
  cases e with
  | call c =>
    cases c with
    | command conn cmd => exact absurd rfl (he conn cmd)
    | connect node => exact (w₁.connect_alike node waited).keyspace
    | nodeOwning key => rfl
    | replicaCount node => rfl
  | _ => rfl

end World

/-- What a command does to the keyspace, and what it answers, depends on the keyspace alone. -/
theorem Memory.execute_congr {m m' : Memory} (h : m'.keyspace = m.keyspace) (now : Nat)
    (cmd : Command) : (m'.execute now cmd).1.keyspace = (m.execute now cmd).1.keyspace ∧
      (m'.execute now cmd).2 = (m.execute now cmd).2 := by
  cases cmd <;> simp only [execute, h, and_self]

/-- A command is executed at the time at which it is answered. -/
theorem World.perform_command (w : World) (conn : Connection) (cmd : Command)
    (hcmd : ∀ count timeout, cmd ≠ .awaitReplicas count timeout) :
    (w.perform (.call (.command conn cmd))).1.store.keyspace =
        (w.store.execute (w.perform (.call (.command conn cmd))).1.now cmd).1.keyspace ∧
      (w.perform (.call (.command conn cmd))).2 =
        .ok (w.store.execute (w.perform (.call (.command conn cmd))).1.now cmd).2 := by
  obtain ⟨w₁, waited, -, hkeyspace, hperform⟩ := w.perform_eq (.call (.command conn cmd))
  have hexecute := Memory.execute_congr hkeyspace w₁.now cmd
  rw [hperform, answer_now, ← hexecute.1, ← hexecute.2]
  cases cmd with
  | awaitReplicas count timeout => exact absurd rfl (hcmd count timeout)
  | _ => exact ⟨rfl, rfl⟩

/-! ## Moments -/

/-- Whether an exchange is a store call that failed. -/
def Exchange.failed : Exchange → Bool
  | ⟨.call _, .error _⟩ => true
  | _ => false

/-- An exchange with the worlds before and after it. -/
structure Moment where
  /-- The world in which the effect was begun. -/
  before : World
  /-- The effect and its reply. -/
  exchange : Exchange
  /-- The world when the reply was there. -/
  after : World

/-- An effect is answered by the world while nothing else goes on, or it is a store call that fails
in place of its answer. -/
inductive World.Replies (w : World) : (e : Effect) → World → e.Reply → Prop where
  /-- The world answers. -/
  | answered (e : Effect) : Replies w e (w.perform e).1 (w.perform e).2
  /-- The call fails. -/
  | failed (c : StoreCall) (err : StoreError) : Replies w (.call c) w (.error err)

namespace Program

variable {α : Type}

/-- A program comes to an end in a world with a result, by way of moments. -/
inductive Plays : World → Program .none α → List Moment → World → α → Prop where
  /-- It is done. -/
  | done (w : World) (a : α) : Plays w (.done a) [] w a
  /-- It performs an effect. -/
  | effect {w w₁ w' : World} {e : Effect} {r : e.Reply} {next : e.Reply → Program .none α}
      {ms : List Moment} {a : α} (hreply : w.Replies e w₁ r) (hrest : Plays w₁ (next r) ms w' a) :
      Plays w (.effect e next) (⟨w, ⟨e, r⟩, w₁⟩ :: ms) w' a

end Program

/-- Effects are answered by a world in which nothing else goes on, and no store call fails. -/
def World.flawless : Interpretation World where
  before w e Q := (Exchange.mk e (w.perform e).2).failed = false →
    Q (w.perform e).1 (w.perform e).2
  outside := False
  mono h hQ := fun hok => hQ _ _ (h hok)

/-- Effects are answered by a world in which nothing else goes on, or they are store calls that
fail; the moments are noted. -/
def World.faulty : Interpretation (World × List Moment) where
  before s e Q := ∀ w₁ r, s.1.Replies e w₁ r → Q (w₁, s.2 ++ [⟨s.1, ⟨e, r⟩, w₁⟩]) r
  outside := False
  mono h hQ := fun w₁ r hr => hQ _ _ (h w₁ r hr)

namespace Program.Plays

variable {α : Type} {p : Program .none α} {w w' : World} {ms log : List Moment} {a : α}

/-- What holds at the end unless a call fails holds if none has failed. -/
theorem of_flawless {Q : World → α → Prop} (hp : p.Ensures World.flawless w Q)
    (h : Plays w p ms w' a) (hms : ∀ m ∈ ms, m.exchange.failed = false) : Q w' a := by
  induction h with
  | done w a => exact hp
  | effect hreply hrest ih =>
    have hrest' := fun (m : Moment) hmem => hms m (List.mem_cons_of_mem _ hmem)
    have hfirst := hms _ List.mem_cons_self
    cases hreply with
    | answered e => exact ih (hp hfirst) hrest'
    | failed c err => cases hfirst

/-- What holds at the end whatever has failed. -/
theorem of_faulty {Q : World × List Moment → α → Prop} (hp : p.Ensures World.faulty (w, log) Q)
    (h : Plays w p ms w' a) : Q (w', log ++ ms) a := by
  induction h generalizing log with
  | done w a =>
    rw [List.append_nil]
    exact hp
  | @effect w w₁ w' e r next ms a hreply hrest ih =>
    have hend := ih (hp w₁ r hreply)
    rw [List.append_assoc, List.singleton_append] at hend
    exact hend

end Program.Plays

/-! ### Programs that are run -/

/-- Whether no store call of a program fails when it is run by itself. -/
def Program.isFlawless {α : Type} : Program .none α → World → Bool
  | .done _, _ => true
  | .effect e next, w =>
    !(Exchange.mk e (w.perform e).2).failed &&
      (next (w.perform e).2).isFlawless (w.perform e).1
  | .extended op _, _ => op.elim

/-- To run a program by itself is one way to play it. -/
theorem Program.plays_of_isFlawless {α : Type} {p : Program .none α} {w : World}
    (h : p.isFlawless w = true) :
    ∃ ms, p.Plays w ms (p.runOn w).1 (p.runOn w).2 ∧ ∀ m ∈ ms, m.exchange.failed = false := by
  induction p generalizing w with
  | done a => exact ⟨[], .done w a, fun _ hmem => absurd hmem List.not_mem_nil⟩
  | effect e next ih =>
    obtain ⟨hfirst, hrest⟩ := Bool.and_eq_true_iff.1 h
    obtain ⟨ms, hplays, hms⟩ := ih (w.perform e).2 hrest
    have hrun : (Program.effect e next).runOn w =
        (next (w.perform e).2).runOn (w.perform e).1 := rfl
    rw [hrun]
    refine ⟨⟨w, ⟨e, (w.perform e).2⟩, (w.perform e).1⟩ :: ms,
      Plays.effect (.answered e) hplays, ?_⟩
    intro m hmem
    rcases List.mem_cons.1 hmem with rfl | hmem
    · simpa using hfirst
    · exact hms m hmem
  | extended op next ih => exact op.elim

/-! ## Sessions -/

/-- An operation that was called and has come to an end. -/
structure Completed where
  /-- The operation. -/
  operation : Operation
  /-- What has happened while it was running. -/
  moments : List Moment
  /-- What it has answered. -/
  answer : operation.Answer

/-- Whether no store call has failed while the operation was running. -/
def Completed.IsFlawless (c : Completed) : Prop := ∀ m ∈ c.moments, m.exchange.failed = false

/-- The operations called from a world on, up to another one; between two of them nobody touches the
value of a key. -/
inductive Session (Allowed : Operation → Prop) (key : String) (w₀ : World) :
    List Completed → World → Prop where
  /-- Nothing has happened yet. -/
  | start : Session Allowed key w₀ [] w₀
  /-- An operation is called. -/
  | call {calls : List Completed} {w w' : World} {o : Operation} {ms : List Moment} {a : o.Answer}
      (h : Session Allowed key w₀ calls w) (ho : Allowed o) (hplays : o.program.Plays w ms w' a) :
      Session Allowed key w₀ (calls ++ [⟨o, ms, a⟩]) w'
  /-- Anything else happens. -/
  | pause {calls : List Completed} {w w' : World} (h : Session Allowed key w₀ calls w)
      (hlater : w.now ≤ w'.now)
      (hspares : w'.store.keyspace.live? w'.now key = w.store.keyspace.live? w'.now key) :
      Session Allowed key w₀ calls w'

end Latchkey
