import Latchkey.Proofs.Bystanders
import Latchkey.Proofs.Renaming

/-!
# Worlds that a lock cannot tell apart

Two worlds are *twins* for a lock if they have the same store but for the keyspace, the same time,
and the same about that lock but for the names of the tokens. All else that registries and keyspaces
have may differ, and so may the number of tokens minted so far. A renaming says which token of the
one world stands for which of the other.

Operations on the lock have the same results on twins and lead to twins. An acquisition may mint a
token on both sides; the renaming has one more pair then.

The main statements are `World.Related.acquire_respects`, `World.Related.acquireWithRetry_respects`
and `World.Related.release_respects`.
-/

namespace Latchkey

/-! ## Renamings -/

namespace Token

variable {ρ ρ' : Token → Token → Prop} {t t' : Token}

/-- The token is one of the first `n`. -/
def MintedBefore (n : Nat) (t : Token) : Prop := ∃ k < n, t = ofSerial k

theorem MintedBefore.mono {n k : Nat} (h : t.MintedBefore n) (hle : n ≤ k) : t.MintedBefore k := by
  obtain ⟨i, hi, rfl⟩ := h
  exact ⟨i, Nat.lt_of_lt_of_le hi hle, rfl⟩

theorem MintedBefore.ne {n : Nat} (h : t.MintedBefore n) : t ≠ ofSerial n := by
  obtain ⟨i, hi, rfl⟩ := h
  exact fun heq => Nat.ne_of_lt hi (ofSerial_inj.1 heq)

theorem mintedBefore_succ (n : Nat) : (ofSerial n).MintedBefore (n + 1) :=
  ⟨n, Nat.lt_succ_self n, rfl⟩

/-- The renaming with one more pair. -/
def extend (ρ : Token → Token → Prop) (t t' : Token) : Token → Token → Prop :=
  fun s s' => ρ s s' ∨ s = t ∧ s' = t'

theorem keeps_extend (ρ : Token → Token → Prop) (t t' : Token) : Keeps ρ (extend ρ t t') :=
  fun _ _ h => .inl h

theorem extend_new (ρ : Token → Token → Prop) (t t' : Token) : extend ρ t t' t t' := .inr ⟨rfl, rfl⟩

/-- A pair of tokens that have no names yet may be added. -/
theorem IsRenaming.extend (h : IsRenaming ρ) (hnew : ∀ s s', ρ s s' → s ≠ t ∧ s' ≠ t') :
    IsRenaming (extend ρ t t') := by
  rintro s s' u u' (hs | ⟨rfl, rfl⟩) (hu | ⟨rfl, rfl⟩)
  · exact h hs hu
  · exact iff_of_false (hnew s s' hs).2 (hnew s s' hs).1
  · exact iff_of_false (hnew u u' hu).2.symm (hnew u u' hu).1.symm
  · exact iff_of_true rfl rfl

end Token

/-! ## Twins -/

namespace World

/-- The world with another ledger, another keyspace and another number of loans so far. -/
def swap (w : World) (l : Ledger) (ks : Keyspace) (loans : Nat) : World :=
  { w with toLedger := l, store := { w.store with keyspace := ks, loans := loans } }

/-- Two worlds that are the same for a lock, but for the names of the tokens. -/
structure Twins (lock : String) (ρ : Token → Token → Prop) (w w' : World) : Prop where
  injective : Token.IsRenaming ρ
  minted : ∀ ⦃t t'⦄, ρ t t' → t.MintedBefore w.nextToken ∧ t'.MintedBefore w'.nextToken
  swapped : ∃ l ks loans, w' = w.swap l ks loans
  held : ∀ p, Option.Rel ρ (w.heldBy p lock) (w'.heldBy p lock)
  stored : Keyspace.TwinsAt ρ (lockKey lock) w.store.keyspace w'.store.keyspace

/-! ### Effects -/

/-- What an effect waits for depends neither on the ledger nor on the keyspace. -/
theorem wait?_swap (w : World) (l : Ledger) (ks : Keyspace) (loans : Nat) (e : Effect) :
    (w.swap l ks loans).wait? e = (w.wait? e).map fun v => (v.1.swap l ks loans, v.2) := by
  cases e with
  | sleep ms =>
    by_cases hpos : 0 < ms
    · have hwait : w.wait? (.sleep ms) = some (w, .timer (w.now + ms)) := if_pos hpos
      rw [hwait]
      exact if_pos hpos
    · have hwait : w.wait? (.sleep ms) = none := if_neg hpos
      rw [hwait]
      exact if_neg hpos
  | call c =>
    cases c with
    | connect node =>
      by_cases hqueue : ((w.store.refusal? node).isNone && w.store.pool.free == 0
          && decide (0 < w.store.poolWait)) = true
      · have hwait : w.wait? (.call (.connect node)) = some
            ({ w with store := { w.store with pool := w.store.pool.enqueue.1 } },
              .permit w.store.pool.enqueue.2 (w.now + w.store.poolWait)) := if_pos hqueue
        rw [hwait]
        exact if_pos hqueue
      · have hwait : w.wait? (.call (.connect node)) = none := if_neg hqueue
        rw [hwait]
        exact if_neg hqueue
    | command conn cmd =>
      show (w.commandWait? cmd).map _ = ((w.commandWait? cmd).map _).map _
      rw [Option.map_map]
      rfl
    | _ => rfl
  | _ => rfl

end World

/-- Whether an effect neither looks at the ledger, at keys or at the number of loans nor changes
them. -/
def Effect.IsNeutral : Effect → Prop
  | .clock => True
  | .sleep _ => True
  | .closing => True
  | .deployment => True
  | .release _ => True
  | .call (.nodeOwning _) => True
  | .call (.replicaCount _) => True
  | _ => False

namespace World

variable {lock : String} {ρ : Token → Token → Prop} {w w' w₁ : World} {l : Ledger} {ks : Keyspace}
  {loans : Nat} {e : Effect}

theorem Twins.of_sameLock (h : w.Twins lock ρ (w.swap l ks loans)) (hsame : w.SameLock lock w₁)
    (loans' : Nat) : w₁.Twins lock ρ (w₁.swap l ks loans') where
  injective := h.injective
  minted := fun t t' ht => ⟨(h.minted ht).1.mono hsame.nextToken, (h.minted ht).2⟩
  swapped := ⟨l, ks, loans', rfl⟩
  held p := by
    rw [hsame.held p]
    exact h.held p
  stored := by
    unfold Keyspace.TwinsAt
    rw [hsame.stored]
    exact h.stored

/-- What relates the answers on a world and on a swapped one relates the results: both wait alike
before they answer. -/
theorem perform_swap_of_answer (e e' : Effect) {R : World × e.Reply → World × e'.Reply → Prop}
    (hwait : ∀ w : World, w.wait? e' = w.wait? e)
    (hanswer : ∀ (w : World) (waited : Option Wait),
      R (w.answer waited e) ((w.swap l ks loans).answer waited e')) (w : World) :
    R (w.perform e) ((w.swap l ks loans).perform e') := by
  unfold perform
  rw [wait?_swap, hwait]
  cases w.wait? e with
  | none => exact hanswer w none
  | some v => exact hanswer (v.1.atTime v.2.latest) (some v.2)

theorem perform_swap (w : World) (he : e.IsNeutral) (l : Ledger) (ks : Keyspace) (loans : Nat) :
    (w.swap l ks loans).perform e = ((w.perform e).1.swap l ks loans, (w.perform e).2) := by
  refine perform_swap_of_answer e e (R := fun r r' => r' = (r.1.swap l ks loans, r.2))
    (fun _ => rfl) (fun w waited => ?_) w
  cases e with
  | call c =>
    cases c with
    | nodeOwning key => rfl
    | replicaCount node => rfl
    | _ => exact he.elim
  | registry m a => exact he.elim
  | mint => exact he.elim
  | arm guard => exact he.elim
  | disarm => exact he.elim
  | count measure => exact he.elim
  | _ => rfl

/-- A wait for replicas depends on the node that the connection leads to. -/
theorem perform_awaitReplicas_swap (w : World) {conn conn' : Connection}
    (hnode : conn'.node = conn.node) (count timeout : Nat) (l : Ledger) (ks : Keyspace)
    (loans : Nat) :
    (w.swap l ks loans).perform (.call (.command conn' (.awaitReplicas count timeout))) =
      ((w.perform (.call (.command conn (.awaitReplicas count timeout)))).1.swap l ks loans,
        (w.perform (.call (.command conn (.awaitReplicas count timeout)))).2) := by
  let e : Effect := .call (.command conn (.awaitReplicas count timeout))
  let e' : Effect := .call (.command conn' (.awaitReplicas count timeout))
  refine perform_swap_of_answer e e' (R := fun r r' => r' = (r.1.swap l ks loans, r.2))
    (fun _ => rfl) (fun w waited => ?_) w
  show (if waited.isSome then (w.swap l ks loans, Except.ok 0)
      else if w.store.failing then (w.swap l ks loans, .error (Memory.lostLink conn'.node))
      else if w.store.stalled then (w.swap l ks loans, .ok 0)
      else (w.swap l ks loans, .ok count)) =
    ((w.command conn waited (.awaitReplicas count timeout)).1.swap l ks loans,
      (w.command conn waited (.awaitReplicas count timeout)).2)
  rw [hnode]
  unfold command
  split
  · rfl
  · split
    · rfl
    · split <;> rfl

/-- A borrower depends neither on the ledger nor on the keyspace; the numbers of loans go on as they
were. -/
theorem connect_swap (w : World) (node : NodeId) (waited : Option Wait) (l : Ledger) (ks : Keyspace)
    (loans : Nat) :
    (∃ err, (w.connect node waited).2 = .error err ∧
      (w.swap l ks loans).connect node waited =
        ((w.connect node waited).1.swap l ks loans, .error err)) ∨
    ∃ conn conn', (w.connect node waited).2 = .ok conn ∧ conn'.node = conn.node ∧
      (w.swap l ks loans).connect node waited =
        ((w.connect node waited).1.swap l ks (loans + 1), .ok conn') := by
  have hfirst : (∃ err, (w.connect node none).2 = .error err ∧
      (w.swap l ks loans).connect node none =
        ((w.connect node none).1.swap l ks loans, .error err)) ∨
    ∃ conn conn', (w.connect node none).2 = .ok conn ∧ conn'.node = conn.node ∧
      (w.swap l ks loans).connect node none =
        ((w.connect node none).1.swap l ks (loans + 1), .ok conn') := by
    unfold connect
    dsimp only
    have hrefusal : (w.swap l ks loans).store.refusal? node = w.store.refusal? node := rfl
    rw [hrefusal]
    cases w.store.refusal? node with
    | some err => exact .inl ⟨err, rfl, rfl⟩
    | none =>
      have htake : (w.swap l ks loans).store.pool.take? = w.store.pool.take? := rfl
      dsimp only
      rw [htake]
      cases w.store.pool.take? with
      | none => exact .inl ⟨_, rfl, rfl⟩
      | some pool => exact .inr ⟨_, ⟨loans, node⟩, rfl, rfl, rfl⟩
  -- a borrower that has queued asks for what is set aside for its ticket, not for what is free
  cases waited with
  | none => exact hfirst
  | some wait =>
    cases wait with
    | timer wake => exact hfirst
    | permit ticket deadline =>
      unfold connect
      dsimp only
      have hgranted : (w.swap l ks loans).store.pool.isGranted ticket =
        w.store.pool.isGranted ticket := rfl
      rw [hgranted]
      split
      · exact .inr ⟨_, ⟨loans, node⟩, rfl, rfl, rfl⟩
      · exact .inl ⟨_, rfl, rfl⟩

end World

/-! ## Two programs on two worlds -/

namespace Program

variable {α β ε : Type} {R : World → World → Prop}

/-- On related worlds two programs have the same result, and they leave related worlds. -/
def Agrees (R : World → World → Prop) (p p' : Program .none α) : Prop :=
  ∀ ⦃w w'⦄, R w w' → (p'.runOn w').2 = (p.runOn w).2 ∧ R (p.runOn w).1 (p'.runOn w').1

theorem Agrees.done (a : α) : (Program.done a : Program .none α).Agrees R (.done a) :=
  Respects.done a

theorem Agrees.bind {p p' : Program .none α} {f f' : α → Program .none β} (hp : p.Agrees R p')
    (hf : ∀ a, (f a).Agrees R (f' a)) : (p >>= f).Agrees R (p' >>= f') := by
  intro w w' h
  obtain ⟨hresult, hworlds⟩ := hp h
  rw [runOn_bind, runOn_bind, hresult]
  exact hf _ hworlds

/-- One action after the other: an error ends both. -/
theorem Agrees.andThen {x x' : Action .none ε α} {f f' : α → Action .none ε β}
    (hx : x.run.Agrees R x'.run) (hf : ∀ a, (f a).run.Agrees R (f' a).run) :
    (x >>= f).run.Agrees R (x' >>= f').run := by
  have hcont : ∀ r : Except ε α, (ExceptT.bindCont f r : Program .none (Except ε β)).Agrees R
      (ExceptT.bindCont f' r) := ?_
  · exact Agrees.bind hx hcont
  intro r
  cases r with
  | error e => exact Agrees.done (Except.error e)
  | ok a => exact hf a

theorem Agrees.lift {p p' : Program .none α} (hp : p.Agrees R p') :
    (ExceptT.lift p : Action .none ε α).run.Agrees R (ExceptT.lift p').run :=
  hp.bind fun a => .done (Except.ok a)

end Program

/-- What follows the attempt to borrow a connection: it is used and given back. -/
def Action.afterBorrow {X : Extension} {α : Type} (use : Connection → Action X StoreError α) :
    Except StoreError Connection → Program X (Except StoreError α)
  | .error e => .done (.error e)
  | .ok conn => (use conn).run >>= fun result =>
    Program.perform (.release conn) >>= fun _ => .done result

theorem Action.run_withConnection {X : Extension} {α : Type}
    (borrow : Action X StoreError Connection) (use : Connection → Action X StoreError α) :
    (withConnection borrow use).run = borrow.run >>= afterBorrow use := by
  refine congrArg (borrow.run >>= ·) (funext fun r => ?_)
  cases r <;> rfl

open Program

namespace World.Twins

variable {lock : String} {ρ : Token → Token → Prop} {w w' : World} {token token' : Token}
  {conn conn' : Connection}

/-! ### Effects -/

theorem neutral_respects {e : Effect} (he : e.IsNeutral) :
    (Program.perform e).Respects (Twins lock ρ) := by
  intro w w' h
  obtain ⟨l, ks, loans, rfl⟩ := h.swapped
  have hspares : e.Spares lock := by
    cases e with
    | registry m a => exact he.elim
    | call c =>
      cases c with
      | command conn cmd => exact he.elim
      | _ => trivial
    | _ => trivial
  have hperform := perform_swap w he l ks loans
  have htwins := h.of_sameLock (SameLock.perform w hspares) loans
  show ((w.swap l ks loans).perform e).2 = (w.perform e).2 ∧
    Twins lock ρ (w.perform e).1 ((w.swap l ks loans).perform e).1
  rw [hperform]
  exact ⟨rfl, htwins⟩

/-- On both worlds a connection is lent, or it is not for the same reason. -/
theorem connect (h : w.Twins lock ρ w') (node : NodeId) :
    let r := w.perform (.call (.connect node))
    let r' := w'.perform (.call (.connect node))
    r.1.Twins lock ρ r'.1 ∧ ((∃ err, r.2 = .error err ∧ r'.2 = .error err) ∨
      ∃ conn conn', r.2 = .ok conn ∧ r'.2 = .ok conn' ∧ conn'.node = conn.node) := by
  intro r r'
  obtain ⟨l, ks, loans, rfl⟩ := h.swapped
  have hsame : w.SameLock lock r.1 :=
    SameLock.perform (e := .call (.connect node)) w (show Effect.Spares lock _ from trivial)
  have hanswers : (∃ err, r.2 = .error err ∧ r' = (r.1.swap l ks loans, .error err)) ∨
      ∃ conn conn', r.2 = .ok conn ∧ conn'.node = conn.node ∧
        r' = (r.1.swap l ks (loans + 1), .ok conn') := by
    let e : Effect := .call (.connect node)
    exact perform_swap_of_answer e e (R := fun r r' : World × Except StoreError Connection =>
        (∃ err, r.2 = .error err ∧ r' = (r.1.swap l ks loans, .error err)) ∨
          ∃ conn conn' : Connection, r.2 = .ok conn ∧ conn'.node = conn.node ∧
            r' = (r.1.swap l ks (loans + 1), .ok conn'))
      (fun _ => rfl) (fun w waited => connect_swap w node waited l ks loans) w
  rcases hanswers with ⟨err, herr, heq⟩ | ⟨conn, conn', hconn, hnode, heq⟩
  · rw [heq]
    exact ⟨h.of_sameLock hsame _, .inl ⟨err, herr, rfl⟩⟩
  · rw [heq]
    exact ⟨h.of_sameLock hsame _, .inr ⟨conn, conn', hconn, rfl, hnode⟩⟩

theorem send_awaitReplicas_agrees (hnode : conn'.node = conn.node) (count timeout : Nat) :
    (Action.send conn (.awaitReplicas count timeout)).run.Agrees (Twins lock ρ)
      (Action.send conn' (.awaitReplicas count timeout)).run := by
  intro w w' h
  obtain ⟨l, ks, loans, rfl⟩ := h.swapped
  let e : Effect := .call (.command conn (.awaitReplicas count timeout))
  have hperform := perform_awaitReplicas_swap w hnode count timeout l ks loans
  have hspares : e.Spares lock := nofun
  have htwins := h.of_sameLock (SameLock.perform w hspares) loans
  show ((w.swap l ks loans).perform (.call (.command conn' (.awaitReplicas count timeout)))).2 =
      (w.perform e).2 ∧ Twins lock ρ (w.perform e).1
        ((w.swap l ks loans).perform (.call (.command conn' (.awaitReplicas count timeout)))).1
  rw [hperform]
  exact ⟨rfl, htwins⟩

/-! ### Commands on the key of the lock -/

theorem later (h : w.Twins lock ρ w') (ms : Nat) : (w.later ms).Twins lock ρ (w'.later ms) := by
  obtain ⟨l, ks, loans, rfl⟩ := h.swapped
  exact ⟨h.injective, h.minted, ⟨l, ks, loans, rfl⟩, h.held, h.stored⟩

theorem now (h : w.Twins lock ρ w') : w'.now = w.now := by
  obtain ⟨l, ks, loans, rfl⟩ := h.swapped
  rfl

theorem latency (h : w.Twins lock ρ w') : w'.store.latency = w.store.latency := by
  obtain ⟨l, ks, loans, rfl⟩ := h.swapped
  rfl

/-- After a command on the key of the lock, which had the same answer. -/
theorem executed (h : w.Twins lock ρ w') {r r' : Keyspace × Bool}
    (hr : Keyspace.Answers (Keyspace.TwinsAt ρ (lockKey lock)) r r') :
    (Except.ok r'.2 : Except StoreError Bool) = .ok r.2 ∧
      (w.withKeyspace r.1).Twins lock ρ (w'.withKeyspace r'.1) := by
  obtain ⟨l, _, loans, rfl⟩ := h.swapped
  exact ⟨congrArg Except.ok hr.1, h.injective, h.minted, ⟨l, r'.1, loans, rfl⟩, h.held, hr.2⟩

theorem set_agrees (ht : ρ token token') (ttl : Nat) :
    (Action.send conn (.set (lockKey lock) token ttl true)).run.Agrees (Twins lock ρ)
      (Action.send conn' (.set (lockKey lock) token' ttl true)).run := by
  intro w w' h
  show (w'.perform (.call (.command conn' (.set (lockKey lock) token' ttl true)))).2 =
      (w.perform (.call (.command conn (.set (lockKey lock) token ttl true)))).2 ∧
    Twins lock ρ (w.perform (.call (.command conn (.set (lockKey lock) token ttl true)))).1
      (w'.perform (.call (.command conn' (.set (lockKey lock) token' ttl true)))).1
  rw [perform_set, perform_set, h.now, h.latency]
  exact (h.later _).executed (h.stored.set ht _ ttl)

theorem compareAndDelete_agrees (ht : ρ token token') :
    (Action.send conn (.compareAndDelete (lockKey lock) token)).run.Agrees (Twins lock ρ)
      (Action.send conn' (.compareAndDelete (lockKey lock) token')).run := by
  intro w w' h
  obtain ⟨l, ks, loans, rfl⟩ := h.swapped
  exact h.executed (h.stored.compareAndDelete h.injective ht w.now)

theorem compareAndExpire_agrees (ht : ρ token token') (ttl : Nat) :
    (Action.send conn (.compareAndExpire (lockKey lock) token ttl)).run.Agrees (Twins lock ρ)
      (Action.send conn' (.compareAndExpire (lockKey lock) token' ttl)).run := by
  intro w w' h
  obtain ⟨l, ks, loans, rfl⟩ := h.swapped
  exact h.executed (h.stored.compareAndExpire h.injective ht w.now ttl)

theorem present_agrees :
    (Action.send conn (.present (lockKey lock))).run.Agrees (Twins lock ρ)
      (Action.send conn' (.present (lockKey lock))).run := by
  intro w w' h
  have hpresent := h.stored.present w.now
  obtain ⟨l, ks, loans, rfl⟩ := h.swapped
  exact ⟨congrArg Except.ok hpresent, h⟩

/-! ### Registries and tokens -/

/-- Both ledgers may change, as long as owners have the same for the lock after that. -/
theorem withLedger (h : w.Twins lock ρ w') {l l' : Ledger} (hnext : l.nextToken = w.nextToken)
    (hnext' : l'.nextToken = w'.nextToken)
    (hheld : ∀ p, Option.Rel ρ (l.heldBy p lock) (l'.heldBy p lock)) :
    (w.withLedger l).Twins lock ρ (w'.withLedger l') := by
  obtain ⟨_, ks, loans, rfl⟩ := h.swapped
  refine ⟨h.injective, fun t t' ht => ?_, ⟨l', ks, loans, rfl⟩, hheld, h.stored⟩
  have hminted := h.minted ht
  rw [← hnext, ← hnext'] at hminted
  exact hminted

theorem record (h : w.Twins lock ρ w') (p : Owner) (ht : ρ token token') :
    (w.withLedger (w.recordFor p lock token)).Twins lock ρ
      (w'.withLedger (w'.recordFor p lock token')) := by
  refine h.withLedger rfl rfl fun p' => ?_
  rw [Ledger.heldBy_recordFor, Ledger.heldBy_recordFor]
  by_cases hp : p' = p ∧ lock = lock
  · rw [if_pos hp, if_pos hp]
    exact .some ht
  · rw [if_neg hp, if_neg hp]
    exact h.held p'

theorem forget (h : w.Twins lock ρ w') (p : Owner) :
    (w.withLedger (w.forgetFor p lock)).Twins lock ρ (w'.withLedger (w'.forgetFor p lock)) := by
  refine h.withLedger rfl rfl fun p' => ?_
  rw [Ledger.heldBy_forgetFor, Ledger.heldBy_forgetFor]
  by_cases hp : p' = p ∧ lock = lock
  · rw [if_pos hp, if_pos hp]
    exact .none
  · rw [if_neg hp, if_neg hp]
    exact h.held p'

theorem dispose (h : w.Twins lock ρ w') (p : Owner) :
    (w.withLedger (w.disposeFor p)).Twins lock ρ (w'.withLedger (w'.disposeFor p)) := by
  refine h.withLedger rfl rfl fun p' => ?_
  rw [Ledger.heldBy_disposeFor, Ledger.heldBy_disposeFor]
  by_cases hp : p' = p
  · rw [if_pos hp, if_pos hp]
    exact .none
  · rw [if_neg hp, if_neg hp]
    exact h.held p'

theorem count_respects (measure : Measure) :
    (Program.perform (.count measure)).Respects (Twins lock ρ) :=
  fun _ _ h => ⟨rfl, h.withLedger rfl rfl h.held⟩

/-- The token minted in the one world gets that minted in the other as its name. -/
theorem mint (h : w.Twins lock ρ w') :
    (w.withLedger w.toLedger.mint.1).Twins lock
      (Token.extend ρ (.ofSerial w.nextToken) (.ofSerial w'.nextToken))
      (w'.withLedger w'.toLedger.mint.1) := by
  have hle : Token.Keeps ρ (Token.extend ρ (.ofSerial w.nextToken) (.ofSerial w'.nextToken)) :=
    Token.keeps_extend ..
  have hnew : ∀ s s', ρ s s' → s ≠ .ofSerial w.nextToken ∧ s' ≠ .ofSerial w'.nextToken :=
    fun s s' hs => ⟨(h.minted hs).1.ne, (h.minted hs).2.ne⟩
  obtain ⟨l, ks, loans, heq⟩ := h.swapped
  refine ⟨h.injective.extend hnew, ?_, ⟨w'.toLedger.mint.1, ks, loans, ?_⟩, ?_, ?_⟩
  · rintro t t' (ht | ⟨rfl, rfl⟩)
    · exact ⟨(h.minted ht).1.mono (Nat.le_succ _), (h.minted ht).2.mono (Nat.le_succ _)⟩
    · exact ⟨Token.mintedBefore_succ _, Token.mintedBefore_succ _⟩
  · rw [heq]
    rfl
  · exact fun p => rel_mono (h.held p) hle
  · exact rel_mono h.stored fun _ _ he => he.mono hle

/-! ### Connections -/

/-- A connection is used and given back. -/
theorem withConnection_agrees {α : Type} {use use' : Connection → Action .none StoreError α}
    (huse : ∀ ⦃conn conn'⦄, conn'.node = conn.node →
      (use conn).run.Agrees (Twins lock ρ) (use' conn').run) (node : NodeId) :
    (Action.withConnection (Action.call (.connect node)) use).run.Agrees (Twins lock ρ)
      (Action.withConnection (Action.call (.connect node)) use').run := by
  have hafter : ∀ ⦃conn conn'⦄, conn'.node = conn.node →
      (Action.afterBorrow use (.ok conn)).Agrees (Twins lock ρ)
        (Action.afterBorrow use' (.ok conn')) := by
    intro conn conn' hnode
    have hback : (Program.perform (.release conn)).Agrees (Twins lock ρ)
        (.perform (.release conn')) :=
      fun _ _ h => neutral_respects (e := .release conn) trivial h
    exact (huse hnode).bind fun result => hback.bind fun _ => .done result
  intro w w' h
  obtain ⟨htwins, hreply⟩ := h.connect node
  have hrest : (Action.afterBorrow use (w.perform (.call (.connect node))).2).Agrees (Twins lock ρ)
      (Action.afterBorrow use' (w'.perform (.call (.connect node))).2) := by
    rcases hreply with ⟨err, herr, herr'⟩ | ⟨conn, conn', hconn, hconn', hnode⟩
    · rw [herr, herr']
      exact .done (Except.error err)
    · rw [hconn, hconn']
      exact hafter hnode
  rw [Action.run_withConnection, Action.run_withConnection, runOn_bind, runOn_bind]
  exact hrest htwins

theorem withConnectionFor_agrees {α : Type} {use use' : Connection → Action .none StoreError α}
    (huse : ∀ ⦃conn conn'⦄, conn'.node = conn.node →
      (use conn).run.Agrees (Twins lock ρ) (use' conn').run) (key : String) :
    (Action.withConnection (Action.connectionFor key) use).run.Agrees (Twins lock ρ)
      (Action.withConnection (Action.connectionFor key) use').run := by
  intro w w' h
  have hnode : w'.store.nodeOwning key = w.store.nodeOwning key := by
    obtain ⟨l, ks, loans, rfl⟩ := h.swapped
    rfl
  have hrun : ∀ use (w : World),
      (Action.withConnection (Action.connectionFor key) use).run.runOn w =
        (Action.withConnection (Action.call (.connect (w.store.nodeOwning key))) use).run.runOn w :=
    fun (_ : Connection → Action .none StoreError α) _ => rfl
  rw [hrun, hrun, hnode]
  exact withConnection_agrees huse _ h

end World.Twins

/-! ## Operations on the lock -/

namespace World.Twins

variable {lock : String} {ρ : Token → Token → Prop} {token token' : Token}

open Manager

theorem refresh_agrees (ht : ρ token token') (ttl : Nat) :
    (refresh (lockKey lock) token ttl).run.Agrees (Twins lock ρ)
      (refresh (lockKey lock) token' ttl).run := by
  refine withConnectionFor_agrees (fun conn conn' _ => ?_) _
  refine (compareAndExpire_agrees ht ttl).andThen fun refreshed => ?_
  cases refreshed <;> exact .done _

theorem clock_agrees {ε : Type} :
    (Action.perform .clock : Action .none ε Nat).run.Agrees (Twins lock ρ)
      (Action.perform .clock : Action .none ε Nat).run :=
  Agrees.lift (neutral_respects (e := .clock) trivial)

theorem acquireSingle_agrees (ht : ρ token token') (ttl started : Nat) :
    (acquireSingle (lockKey lock) token ttl started).run.Agrees (Twins lock ρ)
      (acquireSingle (lockKey lock) token' ttl started).run := by
  refine withConnectionFor_agrees (fun conn conn' _ => ?_) _
  refine (set_agrees ht ttl).andThen fun written => ?_
  cases written with
  | false => exact .done _
  | true =>
    refine clock_agrees.andThen fun now => ?_
    by_cases hlate : now - started ≥ ttl
    · rw [if_pos hlate]
      exact .done _
    · rw [if_neg hlate]
      exact .done _

theorem awaitReplicas_agrees {conn conn' : Connection} (hnode : conn'.node = conn.node)
    (node : NodeId) (wait : Nat) :
    (awaitReplicas conn node wait).run.Agrees (Twins lock ρ)
      (awaitReplicas conn' node wait).run := by
  have hcount : (Action.call (.replicaCount node)).run.Agrees (Twins lock ρ)
      (Action.call (.replicaCount node)).run := fun _ _ h =>
    neutral_respects (e := .call (.replicaCount node)) trivial h
  refine hcount.andThen fun count => ?_
  show Program.Agrees _ (ExceptT.run (if min count maxReplicaQuorum = 0 then _ else _))
    (ExceptT.run (if min count maxReplicaQuorum = 0 then _ else _))
  by_cases hnone : min count maxReplicaQuorum = 0
  · rw [if_pos hnone, if_pos hnone]
    exact .done _
  · rw [if_neg hnone, if_neg hnone]
    exact (send_awaitReplicas_agrees hnode _ wait).andThen fun _ => .done _

theorem rollback_agrees (conn conn' : Connection) (ht : ρ token token') :
    (rollback conn (lockKey lock) token).run.Agrees (Twins lock ρ)
      (rollback conn' (lockKey lock) token').run :=
  (compareAndDelete_agrees ht).bind fun _ => .done _

theorem acquireSharded_agrees (ht : ρ token token') (ttl wait : Nat) :
    (acquireSharded (lockKey lock) token ttl wait).run.Agrees (Twins lock ρ)
      (acquireSharded (lockKey lock) token' ttl wait).run := by
  have howner : (Action.call (.nodeOwning (lockKey lock))).run.Agrees (Twins lock ρ)
      (Action.call (.nodeOwning (lockKey lock))).run := fun _ _ h =>
    neutral_respects (e := .call (.nodeOwning (lockKey lock))) trivial h
  refine howner.andThen fun node => withConnection_agrees (fun conn conn' hnode => ?_) node
  refine clock_agrees.andThen fun since => (set_agrees ht ttl).andThen fun written => ?_
  cases written with
  | false => exact .done _
  | true =>
    refine (awaitReplicas_agrees hnode node wait).lift.andThen fun waited => ?_
    rcases waited with e | _
    · exact (rollback_agrees conn conn' ht).andThen fun _ => .done _
    · refine clock_agrees.andThen fun now => ?_
      by_cases hin : now - since < ttl
      · rw [if_pos hin, if_pos hin]
        exact .done _
      · rw [if_neg hin, if_neg hin]
        exact (rollback_agrees conn conn' ht).andThen fun _ =>
          .done (Except.ok AcquireOutcome.timedOut)

theorem deployment_agrees {ε : Type} :
    (Action.perform .deployment : Action .none ε Deployment).run.Agrees (Twins lock ρ)
      (Action.perform .deployment : Action .none ε Deployment).run :=
  Agrees.lift (neutral_respects (e := .deployment) trivial)

end World.Twins

/-- What is left of an attempt when its token is minted. -/
def Manager.attemptWith {X : Extension} (m : Manager) (ctx : Context) (lock : String)
    (ttl wait started : Nat) (token : Token) : Action X StoreError AcquireOutcome := do
  let outcome ←
    if (← Action.perform .deployment).isSharded then acquireSharded (lockKey lock) token ttl wait
    else acquireSingle (lockKey lock) token ttl started
  if outcome = .acquired then
    Action.registry m.id (.record ctx lock token)
  return outcome

/-- What is left of an attempt when it is known what the registry has. -/
def Manager.attemptOf {X : Extension} (m : Manager) (ctx : Context) (lock : String)
    (ttl wait started : Nat) : Option Token → Action X StoreError AcquireOutcome
  | some token => refresh (lockKey lock) token ttl
  | none => do m.attemptWith ctx lock ttl wait started (← Action.perform .mint)

/-- What is left of a release when it is known what the registry has. -/
def Manager.releaseOf {X : Extension} (m : Manager) (ctx : Context) (lock : String) :
    Option Token → Action X Failure Bool
  | none => do
    Action.perform (.count (.release .notHeld))
    return false
  | some token => Action.orFail (m.releaseHeld ctx lock token)

namespace Manager

variable (m : Manager) (ctx : Context) (lock : String)

theorem release_runOn_of (w : World) : (m.release ctx lock).run.runOn w =
    (m.releaseOf ctx lock (w.heldBy ⟨m.id, ctx⟩ lock)).run.runOn w := by
  have hrun : (m.release (X := .none) ctx lock).run =
      Program.perform (.registry m.id (.held ctx lock)) >>= fun token? =>
        (m.releaseOf ctx lock token?).run := by
    refine congrArg (Program.effect (.registry m.id (.held ctx lock))) (funext fun token? => ?_)
    cases token? <;> rfl
  rw [hrun, runOn_bind]
  rfl

theorem attempt_runOn_of (ttl wait started : Nat) (w : World) :
    (m.attempt ctx lock ttl wait started).run.runOn w =
      (m.attemptOf ctx lock ttl wait started (w.heldBy ⟨m.id, ctx⟩ lock)).run.runOn w := by
  have hrun : (m.attempt (X := .none) ctx lock ttl wait started).run =
      Program.perform (.registry m.id (.held ctx lock)) >>= fun token? =>
        (m.attemptOf ctx lock ttl wait started token?).run := by
    refine congrArg (Program.effect (.registry m.id (.held ctx lock))) (funext fun token? => ?_)
    cases token? <;> rfl
  rw [hrun, runOn_bind]
  rfl

end Manager

namespace World.Twins

variable {lock : String} {ρ : Token → Token → Prop} {token token' : Token} {w w' : World}

theorem record_agrees (m : Manager) (ctx : Context) (ht : ρ token token') :
    (Action.registry m.id (.record ctx lock token) : Action .none StoreError Unit).run.Agrees
      (Twins lock ρ)
      (Action.registry m.id (.record ctx lock token') : Action .none StoreError Unit).run :=
  fun _ _ h => ⟨rfl, h.record ⟨m.id, ctx⟩ ht⟩

theorem attemptWith_agrees (m : Manager) (ctx : Context) (ht : ρ token token')
    (ttl wait started : Nat) :
    (m.attemptWith ctx lock ttl wait started token).run.Agrees (Twins lock ρ)
      (m.attemptWith ctx lock ttl wait started token').run := by
  unfold Manager.attemptWith
  refine deployment_agrees.andThen fun d => ?_
  have hend : ∀ outcome : AcquireOutcome,
      (if outcome = .acquired then
          (Action.registry m.id (.record ctx lock token) >>= fun _ => pure outcome)
        else pure outcome : Action .none StoreError AcquireOutcome).run.Agrees (Twins lock ρ)
      (if outcome = .acquired then
          (Action.registry m.id (.record ctx lock token') >>= fun _ => pure outcome)
        else pure outcome : Action .none StoreError AcquireOutcome).run := by
    intro outcome
    by_cases hacquired : outcome = .acquired
    · rw [if_pos hacquired, if_pos hacquired]
      exact (record_agrees m ctx ht).andThen fun _ => .done (Except.ok outcome)
    · rw [if_neg hacquired, if_neg hacquired]
      exact .done (Except.ok outcome)
  show Program.Agrees _ (ExceptT.run (if d.isSharded then _ else _))
    (ExceptT.run (if d.isSharded then _ else _))
  by_cases hd : d.isSharded
  · rw [if_pos hd, if_pos hd]
    exact (acquireSharded_agrees ht ttl wait).andThen hend
  · rw [if_neg hd, if_neg hd]
    exact (acquireSingle_agrees ht ttl started).andThen hend

theorem giveUp_agrees (conn conn' : Connection) (ht : ρ token token') :
    (Manager.giveUp conn (lockKey lock) token).run.Agrees (Twins lock ρ)
      (Manager.giveUp conn' (lockKey lock) token').run := by
  refine (compareAndDelete_agrees ht).andThen fun deleted => ?_
  cases deleted with
  | true => exact .done _
  | false =>
    refine present_agrees.andThen fun present => ?_
    cases present <;> exact .done _

theorem forget_agrees (m : Manager) (ctx : Context) {p p' : Program .none (Except StoreError Bool)}
    (hp : p.Agrees (Twins lock ρ) p') :
    (Program.perform (.registry m.id (.forget ctx lock)) >>= fun _ => p).Agrees (Twins lock ρ)
      (Program.perform (.registry m.id (.forget ctx lock)) >>= fun _ => p') :=
  fun _ _ h => hp (h.forget ⟨m.id, ctx⟩)

theorem releaseHeld_agrees (m : Manager) (ctx : Context) (ht : ρ token token') :
    (m.releaseHeld ctx lock token).run.Agrees (Twins lock ρ)
      (m.releaseHeld ctx lock token').run := by
  refine withConnectionFor_agrees (fun conn conn' _ => ?_) _
  refine (giveUp_agrees conn conn' ht).andThen fun outcome => ?_
  exact forget_agrees m ctx ((count_respects _).bind fun _ => .done (Except.ok _))

/-- On both worlds a release has the same result. -/
theorem release_respects (m : Manager) (ctx : Context) (lock : String) :
    (m.release ctx lock).run.Respects (Twins lock ρ) := by
  intro w w' h
  have hheld := h.held ⟨m.id, ctx⟩
  rw [m.release_runOn_of, m.release_runOn_of]
  generalize w.heldBy ⟨m.id, ctx⟩ lock = token?, w'.heldBy ⟨m.id, ctx⟩ lock = token'? at hheld
  have hagrees : (m.releaseOf ctx lock token?).run.Agrees (Twins lock ρ)
      (m.releaseOf ctx lock token'?).run := by
    cases hheld with
    | none => exact (count_respects _).bind fun _ => .done (Except.ok false)
    | some ht =>
      exact (releaseHeld_agrees m ctx ht).bind fun r => .done (r.mapError Failure.ofStore)
  exact hagrees h

end World.Twins

/-! ## Renamings that grow -/

namespace World

variable {lock : String} {ρ : Token → Token → Prop} {w w' : World}

/-- Two worlds that are twins by some renaming that gives all names of another one. -/
def Related (lock : String) (ρ : Token → Token → Prop) (w w' : World) : Prop :=
  ∃ ρ', Token.Keeps ρ ρ' ∧ w.Twins lock ρ' w'

namespace Related

/-- What respects twins by any renaming respects them by one that grows. -/
theorem of_twins {α : Type} {p : Program .none α}
    (hp : ∀ ρ : Token → Token → Prop, p.Respects (Twins lock ρ)) : p.Respects (Related lock ρ) := by
  rintro w w' ⟨ρ', hle, h⟩
  obtain ⟨hresult, hworlds⟩ := hp ρ' h
  exact ⟨hresult, ρ', hle, hworlds⟩

theorem neutral_respects {e : Effect} (he : e.IsNeutral) :
    (Program.perform e).Respects (Related lock ρ) :=
  of_twins fun _ => Twins.neutral_respects he

theorem count_respects (measure : Measure) :
    (Program.perform (.count measure)).Respects (Related lock ρ) :=
  of_twins fun _ => Twins.count_respects measure

/-- An attempt that finds no token in the registry adds a pair to the renaming. -/
theorem attempt_respects (m : Manager) (ctx : Context) (lock : String) (ttl wait started : Nat) :
    (m.attempt ctx lock ttl wait started).run.Respects (Related lock ρ) := by
  rintro w w' ⟨ρ', hle, h⟩
  have hheld := h.held ⟨m.id, ctx⟩
  rw [m.attempt_runOn_of, m.attempt_runOn_of]
  generalize w.heldBy ⟨m.id, ctx⟩ lock = token?, w'.heldBy ⟨m.id, ctx⟩ lock = token'? at hheld
  cases hheld with
  | some ht =>
    obtain ⟨hresult, hworlds⟩ := Twins.refresh_agrees ht ttl h
    exact ⟨hresult, ρ', hle, hworlds⟩
  | none =>
    have ht := Token.extend_new ρ' (.ofSerial w.nextToken) (.ofSerial w'.nextToken)
    obtain ⟨hresult, hworlds⟩ := Twins.attemptWith_agrees m ctx ht ttl wait started h.mint
    exact ⟨hresult, _, fun _ _ hs => Token.keeps_extend _ _ _ (hle hs), hworlds⟩

theorem acquire_respects (m : Manager) (ctx : Context) (lock : String) (ttl wait : Nat) :
    (m.acquire ctx lock ttl wait).run.Respects (Related lock ρ) := by
  unfold Manager.acquire
  split
  · exact .done (Except.ok false)
  refine (neutral_respects (e := .clock) trivial).lift.andThen fun started => ?_
  refine (neutral_respects (e := .closing) trivial).lift.andThen fun closing => ?_
  split
  · exact (count_respects _).lift.andThen fun _ => .done (Except.ok false)
  refine (attempt_respects m ctx lock ttl (min wait ttl) started).lift.andThen fun result => ?_
  refine (neutral_respects (e := .clock) trivial).lift.andThen fun ended => ?_
  refine (count_respects _).lift.andThen fun _ => ?_
  cases result with
  | ok outcome => exact .done (Except.ok outcome.isHeld)
  | error e => exact .done (Except.error (Failure.ofStore e))

theorem acquireWithRetry_respects (m : Manager) (ctx : Context) (lock : String)
    (ttl wait budget : Nat) :
    (m.acquireWithRetry ctx lock ttl wait budget).run.Respects (Related lock ρ) :=
  Manager.retry_respects (acquire_respects m ctx lock ttl wait)
    (neutral_respects (e := .closing) trivial) (neutral_respects (e := .clock) trivial)
    (neutral_respects (e := .sleep m.settings.pollInterval) trivial) budget

theorem release_respects (m : Manager) (ctx : Context) (lock : String) :
    (m.release ctx lock).run.Respects (Related lock ρ) :=
  of_twins fun _ => Twins.release_respects m ctx lock

end Related

end World

end Latchkey
