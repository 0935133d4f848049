import Latchkey.Proofs.AcquireCalls
import Latchkey.Proofs.Entries
import Latchkey.Proofs.Environments

/-!
# Tokens that are noted

An acquisition changes the registries in one way only: it notes the token that it has written. It
does so if and only if it succeeds for a context that has no entry for the lock. Whatever the store
replies, and whatever happens to other entries meanwhile, all else stays as it is.

The main statement is `acquire_notes_its_token`.
-/

namespace Latchkey

variable {X : Extension} {τ : Type}

/-! ## Ledgers -/

namespace Ledger

variable (l : Ledger) (p : Owner) (lock : String)

/-- The ledger after an owner has noted a token for a lock, or nothing. -/
def noting : Option Token → Ledger
  | some token => l.recordFor p lock token
  | none => l

/-- What can be seen of the registries: it depends on them alone, and so does what a note of an
owner for a lock makes of it. -/
structure Shows (f : Ledger → τ) : Prop where
  congr : ∀ {l l' : Ledger}, l'.registries = l.registries → f l' = f l
  record : ∀ {l l' : Ledger} (token : Token), f l' = f l →
    f (l'.recordFor p lock token) = f (l.recordFor p lock token)

theorem shows_registries : Shows p lock registries where
  congr h := h
  record token h := by
    simp only [recordFor, setRegistry, registry, h]

theorem shows_heldBy (q : Owner) (k : String) : Shows p lock (heldBy · q k) where
  congr h := by
    simp only [heldBy, registry, h]
  record token h := by
    simp only [heldBy_recordFor, h]

end Ledger

/-! ## Registries in an environment -/

/-- The registries answer as a ledger does, and whatever else is asked may reply anything. -/
def registering (others : Ledger → Ledger → Prop) : Environment Ledger where
  answers
    | l, .registry m a, l', r => (l', r) = l.access m a
    | l, _, l', _ => l'.registries = l.registries
  others := others

/-- Of two ledgers the second shows what the first does, wherever others leave it alone. -/
structure Environment.SameNotes (E : Environment Ledger) (p : Owner) (lock : String)
    (l l' : Ledger) : Prop where
  eq : ∀ {τ : Type} {f : Ledger → τ}, Ledger.Shows p lock f → E.Spares f → f l' = f l

namespace Environment

variable {E : Environment Ledger} {others : Ledger → Ledger → Prop} {p : Owner} {lock : String}
  {l l₁ l' : Ledger} {log : List Exchange}

theorem SameNotes.trans (h : E.SameNotes p lock l l₁) (h' : E.SameNotes p lock l₁ l') :
    E.SameNotes p lock l l' :=
  ⟨fun hshows hspares => (h'.eq hshows hspares).trans (h.eq hshows hspares)⟩

theorem SameNotes.recordFor (h : E.SameNotes p lock l l') (token : Token) :
    E.SameNotes p lock (l.recordFor p lock token) (l'.recordFor p lock token) :=
  ⟨fun hshows hspares => hshows.record token (h.eq hshows hspares)⟩

theorem registering_registries {e : Effect} {r : e.Reply}
    (h : (registering others).answers l e l' r) (he : ¬ e.IsRegistry) :
    l'.registries = l.registries := by
  cases e with
  | registry m a => exact absurd trivial he
  | _ => exact h

theorem SameNotes.noting (h : E.SameNotes p lock l l') (noted : Option Token) :
    E.SameNotes p lock (l.noting p lock noted) (l'.noting p lock noted) := by
  cases noted with
  | none => exact h
  | some token => exact h.recordFor token

/-- Exchanges that are no matter of registries change nothing there. -/
theorem Leads.sameNotes (h : (registering others).Leads l log l')
    (hlog : ∀ x ∈ log, ¬ x.effect.IsRegistry) : (registering others).SameNotes p lock l l' :=
  ⟨fun hshows hspares => h.eq_of_spares hspares fun x hx _ _ ha =>
    hshows.congr (registering_registries ha (hlog x hx))⟩

/-- A look tells what the registry has. -/
theorem Leads.of_look {found : Option Token}
    (hquiet : (registering others).Spares (Ledger.heldBy · p lock))
    (h : (registering others).Leads l
      (⟨.registry p.manager (.held p.ctx lock), found⟩ :: log) l') :
    l.heldBy p lock = found ∧ ∃ l₁, (registering others).SameNotes p lock l l₁ ∧
      (registering others).Leads l₁ log l' := by
  obtain ⟨l₁, l₂, hidle, ha, hrest⟩ := h.of_cons
  obtain ⟨rfl, rfl⟩ := Prod.mk.inj ha
  exact ⟨(hidle.eq_of_nil hquiet).symm, _, hidle.sameNotes (List.forall_mem_nil _), hrest⟩

/-- A note is taken. -/
theorem Leads.of_record {token : Token}
    (h : (registering others).Leads l
      (⟨.registry p.manager (.record p.ctx lock token), ()⟩ :: log) l') :
    ∃ l₁, (registering others).SameNotes p lock (l.recordFor p lock token) l₁ ∧
      (registering others).Leads l₁ log l' := by
  obtain ⟨l₁, l₂, hidle, ha, hrest⟩ := h.of_cons
  obtain ⟨rfl, -⟩ := Prod.mk.inj ha
  have hsame : (registering others).SameNotes p lock l l₁ :=
    hidle.sameNotes (List.forall_mem_nil _)
  exact ⟨_, hsame.recordFor token, hrest⟩

end Environment

/-! ## Tokens of an acquisition -/

/-- Whether an effect asks the store to write a token, or to give it a new lifetime. -/
def Effect.IsOffer : Effect → Prop
  | .call (.command _ (.set ..)) => True
  | .call (.command _ (.compareAndExpire ..)) => True
  | _ => False

/-- How an acquisition uses tokens: given the one that the registry had and whether the acquisition
has succeeded, which token it notes. -/
structure TokenUse (lock : String) (ttl : Nat) (held : Option Token) (log : List Exchange)
    (success : Prop) (noted : Option Token) : Prop where
  /-- A token is noted if and only if the acquisition succeeds where there was none. -/
  isSome_iff : noted.isSome ↔ success ∧ held = none
  /-- It was minted and written by this acquisition. -/
  written : ∀ token, noted = some token → (⟨.mint, token⟩ : Exchange) ∈ log ∧ ∃ conn,
    (⟨.call (.command conn (.set (lockKey lock) token ttl true)), .ok true⟩ : Exchange) ∈ log
  /-- No other token was written. -/
  sole : ∀ {conn : Connection} {key : String} {token : Token} {ttl' : Nat} {nx : Bool}
    {b : Except StoreError Bool},
    (⟨.call (.command conn (.set key token ttl' nx)), b⟩ : Exchange) ∈ log →
      held = none ∧ ∀ token', noted = some token' → token = token'
  /-- Only the token that the registry had is refreshed. -/
  refreshes : ∀ {conn : Connection} {key : String} {token : Token} {ttl' : Nat}
    {b : Except StoreError Bool},
    (⟨.call (.command conn (.compareAndExpire key token ttl')), b⟩ : Exchange) ∈ log →
      held = some token ∧ key = lockKey lock
  /-- It was refreshed if the acquisition has succeeded. -/
  refreshed : ∀ token, held = some token → success → ∃ conn,
    (⟨.call (.command conn (.compareAndExpire (lockKey lock) token ttl)), .ok true⟩ : Exchange) ∈
      log

namespace TokenUse

variable {lock : String} {ttl : Nat} {held noted : Option Token} {log log' : List Exchange}
  {success : Prop}

/-- Exchanges in which no token is offered make no difference. -/
theorem extend (h : TokenUse lock ttl held log success noted) (hmem : ∀ x ∈ log, x ∈ log')
    (hoffer : ∀ x ∈ log', x.effect.IsOffer → x ∈ log) :
    TokenUse lock ttl held log' success noted where
  isSome_iff := h.isSome_iff
  written token ht := by
    obtain ⟨hmint, conn, hset⟩ := h.written token ht
    exact ⟨hmem _ hmint, conn, hmem _ hset⟩
  sole hx := h.sole (hoffer _ hx trivial)
  refreshes hx := h.refreshes (hoffer _ hx trivial)
  refreshed token ht hs := by
    obtain ⟨conn, hx⟩ := h.refreshed token ht hs
    exact ⟨conn, hmem _ hx⟩

/-- Where no token is offered none is noted. -/
theorem none_of_failed (hoffer : ∀ x ∈ log, ¬ x.effect.IsOffer) (hfail : ¬ success) :
    TokenUse lock ttl held log success none where
  isSome_iff := ⟨fun h => (nomatch h), fun h => absurd h.1 hfail⟩
  written _ ht := nomatch ht
  sole hx := absurd trivial (hoffer _ hx)
  refreshes hx := absurd trivial (hoffer _ hx)
  refreshed _ _ hs := absurd hs hfail

theorem of_refresh {token : Token} {r : Except StoreError AcquireOutcome}
    (h : RefreshCall (lockKey lock) token ttl log r) :
    TokenUse lock ttl (some token) log (AcquireOutcome.told r = .ok true) none where
  isSome_iff := ⟨fun h => (nomatch h), fun h => (nomatch h.2)⟩
  written _ ht := nomatch ht
  sole hx := by
    rcases h.effect_cases hx with hplain | ⟨conn, heq⟩
    · exact hplain.elim
    · cases heq
  refreshes hx := by
    rcases h.effect_cases hx with hplain | ⟨conn, heq⟩
    · exact hplain.elim
    · cases heq
      exact ⟨rfl, rfl⟩
  refreshed _ ht hs := by
    obtain rfl := Option.some.inj ht
    exact h.exists_asked hs

/-- A token that is written first may be noted if the lock is acquired. -/
theorem of_firstWrite {token : Token} {d : Deployment} {wait started : Nat}
    {r : Except StoreError AcquireOutcome}
    (h : FirstWrite (lockKey lock) token ttl wait started d log r)
    (hnoted : noted.isSome ↔ r = .ok .acquired) (htoken : ∀ t, noted = some t → t = token) :
    TokenUse lock ttl none (⟨.mint, token⟩ :: log) (AcquireOutcome.told r = .ok true) noted where
  isSome_iff := by
    rw [hnoted, h.told_iff]
    exact (and_iff_left rfl).symm
  written t ht := by
    obtain rfl := htoken t ht
    obtain ⟨conn, hx⟩ := h.exists_written (hnoted.1 (by rw [ht]; rfl))
    exact ⟨List.mem_cons_self, conn, List.mem_cons_of_mem _ hx⟩
  sole hx := by
    rcases List.mem_cons.1 hx with heq | hx
    · cases heq
    · rcases h.effect_cases hx with hplain | ⟨conn, heq | heq⟩
      · exact hplain.elim
      · cases heq
        exact ⟨rfl, fun t ht => (htoken t ht).symm⟩
      · cases heq
  refreshes hx := by
    rcases List.mem_cons.1 hx with heq | hx
    · cases heq
    · rcases h.effect_cases hx with hplain | ⟨conn, heq | heq⟩
      · exact hplain.elim
      · cases heq
      · cases heq
  refreshed _ ht := nomatch ht

end TokenUse

/-! ## Acquisitions -/

section Acquisitions

variable {m : Manager} {ctx : Context} {lock : String} {ttl wait started : Nat}
  {others : Ledger → Ledger → Prop} {l l' : Ledger} {part log : List Exchange}

theorem RefreshCall.not_isRegistry {key : String} {token : Token}
    {r : Except StoreError AcquireOutcome} (h : RefreshCall key token ttl part r) :
    ∀ x ∈ part, ¬ x.effect.IsRegistry := by
  intro x hx
  rcases h.effect_cases hx with hplain | ⟨conn, heq⟩
  · exact hplain.not_isRegistry
  · rw [heq]
    exact id

theorem FirstWrite.not_isRegistry {key : String} {token : Token} {d : Deployment}
    {r : Except StoreError AcquireOutcome} (h : FirstWrite key token ttl wait started d part r) :
    ∀ x ∈ part, ¬ x.effect.IsRegistry := by
  intro x hx
  rcases h.effect_cases hx with hplain | ⟨conn, heq | heq⟩
  · exact hplain.not_isRegistry
  · rw [heq]
    exact id
  · rw [heq]
    exact id

/-- Before a first write an attempt finds no entry, and changes none. -/
theorem Environment.Leads.of_first {token : Token} {d : Deployment}
    (hquiet : (registering others).Spares (Ledger.heldBy · ⟨m.id, ctx⟩ lock))
    (h : (registering others).Leads l
      ([⟨.registry m.id (.held ctx lock), none⟩, ⟨.mint, token⟩, ⟨.deployment, d⟩] ++ part) l') :
    l.heldBy ⟨m.id, ctx⟩ lock = none ∧ ∃ l₁,
      (registering others).SameNotes ⟨m.id, ctx⟩ lock l l₁ ∧
        (registering others).Leads l₁ part l' := by
  obtain ⟨hnone, l₁, hsame, hrest⟩ := h.of_look (p := ⟨m.id, ctx⟩) hquiet
  have hminting : (registering others).Leads l₁ ([⟨.mint, token⟩, ⟨.deployment, d⟩] ++ part) l' :=
    hrest
  obtain ⟨l₂, hminted, hpart⟩ := hminting.split
  exact ⟨hnone, l₂, hsame.trans (hminted.sameNotes (by simp [Effect.IsRegistry])), hpart⟩

/-- What an attempt makes of the registries. -/
theorem AttemptCall.notes {r : Except StoreError AcquireOutcome}
    (h : AttemptCall m ctx lock ttl wait started part r)
    (hquiet : (registering others).Spares (Ledger.heldBy · ⟨m.id, ctx⟩ lock))
    (hl : (registering others).Leads l part l') :
    ∃ noted, TokenUse lock ttl (l.heldBy ⟨m.id, ctx⟩ lock) part (AcquireOutcome.told r = .ok true)
        noted ∧
      (registering others).SameNotes ⟨m.id, ctx⟩ lock (l.noting ⟨m.id, ctx⟩ lock noted) l' := by
  cases h with
  | @refresh token part r h =>
    obtain ⟨hheld, l₁, hsame, hrest⟩ := hl.of_look (p := ⟨m.id, ctx⟩) hquiet
    refine ⟨none, ?_, hsame.trans (hrest.sameNotes h.not_isRegistry)⟩
    rw [hheld]
    refine (TokenUse.of_refresh h).extend (fun x hx => List.mem_cons_of_mem _ hx) ?_
    simp +contextual [Effect.IsOffer]
  | @granted token d part h =>
    obtain ⟨hnone, l₁, hsame, hrest⟩ := hl.of_first hquiet
    obtain ⟨l₂, hwrite, hnote⟩ := hrest.split
    obtain ⟨l₃, hrecord, hend⟩ := hnote.of_record (p := ⟨m.id, ctx⟩)
    refine ⟨some token, ?_, ?_⟩
    · rw [hnone]
      refine (TokenUse.of_firstWrite h (by simp) (by simp)).extend ?_ ?_
      · simp +contextual
      · simp +contextual [Effect.IsOffer, or_imp]
    · have hbefore := (hsame.trans (hwrite.sameNotes h.not_isRegistry)).recordFor token
      exact (hbefore.trans hrecord).trans (hend.sameNotes (List.forall_mem_nil _))
  | @denied token d part r h hr =>
    obtain ⟨hnone, l₁, hsame, hrest⟩ := hl.of_first hquiet
    refine ⟨none, ?_, hsame.trans (hrest.sameNotes h.not_isRegistry)⟩
    rw [hnone]
    refine (TokenUse.of_firstWrite h (by simp [hr]) (by simp)).extend ?_ ?_
    · simp +contextual
    · simp +contextual [Effect.IsOffer, or_imp]

/-- What an acquisition makes of the registries. -/
theorem AcquireCall.notes {r : Except Failure Bool} (h : AcquireCall m ctx lock ttl wait log r)
    (hquiet : (registering others).Spares (Ledger.heldBy · ⟨m.id, ctx⟩ lock))
    (hl : (registering others).Leads l log l') :
    ∃ noted, TokenUse lock ttl (l.heldBy ⟨m.id, ctx⟩ lock) log (r = .ok true) noted ∧
      (registering others).SameNotes ⟨m.id, ctx⟩ lock (l.noting ⟨m.id, ctx⟩ lock noted) l' := by
  cases h with
  | vain httl =>
    exact ⟨none, .none_of_failed (List.forall_mem_nil _) nofun,
      hl.sameNotes (List.forall_mem_nil _)⟩
  | closing httl started =>
    exact ⟨none, .none_of_failed (by simp [Effect.IsOffer]) nofun,
      hl.sameNotes (by simp [Effect.IsRegistry])⟩
  | @attempted httl started part r hpart ended =>
    obtain ⟨l₁, hbefore, hrest⟩ := hl.split
    obtain ⟨l₂, hattempt, hafter⟩ := hrest.split
    have hsame : (registering others).SameNotes ⟨m.id, ctx⟩ lock l l₁ :=
      hbefore.sameNotes (by simp [Effect.IsRegistry])
    obtain ⟨noted, huse, hnotes⟩ := hpart.notes hquiet hattempt
    have hheld : l₁.heldBy ⟨m.id, ctx⟩ lock = l.heldBy ⟨m.id, ctx⟩ lock :=
      hsame.eq (Ledger.shows_heldBy ..) hquiet
    rw [hheld] at huse
    refine ⟨noted, huse.extend ?_ ?_, ?_⟩
    · simp +contextual
    · simp +contextual [Effect.IsOffer, or_imp]
    · exact ((hsame.noting noted).trans hnotes).trans
        (hafter.sameNotes (by simp [Effect.IsRegistry]))

end Acquisitions

/-- An acquisition notes the token that it has written, and changes nothing else in the registries.

Take any store, with any replies to its calls and to the clock, and any registries, which others may
change meanwhile except for the entry of the context for the lock. An acquisition that has ended has
noted a token if and only if it succeeded and the context had no entry; that is the token that was
minted and written by this acquisition, and it has written no other. If the context had an entry,
its token is the one that the store was asked to refresh, and was refreshed if the acquisition
succeeded. All that others leave alone is as it was before, but for that note: each entry of each
context, and all registries if there are no others. -/
theorem acquire_notes_its_token (m : Manager) (ctx : Context) (lock : String) (ttl wait : Nat)
    {others : Ledger → Ledger → Prop}
    (hquiet : (registering others).Spares (Ledger.heldBy · ⟨m.id, ctx⟩ lock))
    {log : List Exchange} {r : Except Failure Bool} {l l' : Ledger}
    (h : (m.acquire (X := X) ctx lock ttl wait).run.After log (.done r))
    (hl : (registering others).Leads l log l') :
    ∃ noted, TokenUse lock ttl (l.heldBy ⟨m.id, ctx⟩ lock) log (r = .ok true) noted ∧
      (∀ q k, (registering others).Spares (Ledger.heldBy · q k) →
        l'.heldBy q k = (l.noting ⟨m.id, ctx⟩ lock noted).heldBy q k) ∧
      ((registering others).Idle →
        l'.registries = (l.noting ⟨m.id, ctx⟩ lock noted).registries) := by
  obtain ⟨noted, huse, hsame⟩ := (m.acquire_after ctx lock ttl wait h).notes hquiet hl
  refine ⟨noted, huse, fun q k hspares => ?_, fun hidle => ?_⟩
  · exact hsame.eq (Ledger.shows_heldBy ..) hspares
  · exact hsame.eq (Ledger.shows_registries ..) (hidle.spares _)

theorem World.perform_registries (w : World) {e : Effect} (he : ¬ e.IsRegistry) :
    (w.perform e).1.registries = w.registries := by
  unfold perform
  cases hwait : w.wait? e with
  | none => exact w.answer_registries none he
  | some v =>
    obtain ⟨w₁, wait⟩ := v
    exact ((w₁.atTime wait.latest).answer_registries (some wait) he).trans
      (wait?_alike hwait).registries

/-- A world answers as its registries do. -/
theorem registering_perform (others : Ledger → Ledger → Prop) (w : World) (e : Effect) :
    (registering others).Leads w.toLedger [⟨e, (w.perform e).2⟩] (w.perform e).1.toLedger := by
  refine .exchange ?_ (.done _)
  cases e with
  | registry m a => rfl
  | _ => exact w.perform_registries id

/-- Another context notes a token for another lock. -/
def noteBeside (l l' : Ledger) : Prop := l' = l.recordFor ⟨0, "b"⟩ "M" "u"

/-- A context acquires a lock on a fresh store, once another context has noted a token beside it.
What is noted was minted, and the other note stays. -/
theorem acquire_notes_its_token_beside :
    ∃ log l' token, (registering noteBeside).Leads World.fresh.toLedger log l' ∧
      (⟨.mint, token⟩ : Exchange) ∈ log ∧ l'.heldBy ⟨0, "a"⟩ "L" = some token := by
  have hquiet : (registering noteBeside).Spares (Ledger.heldBy · ⟨0, "a"⟩ "L") := by
    rintro l l' rfl
    exact (Ledger.heldBy_recordFor ..).trans (if_neg (by decide))
  let w := World.fresh.withLedger (World.fresh.recordFor ⟨0, "b"⟩ "M" "u")
  let p := (({} : Manager).acquire (X := .none) "a" "L" 20 0).run
  have hsolo : (registering noteBeside).Leads w.toLedger _ _ :=
    Environment.leads_solo (registering_perform noteBeside) p w
  have hleads := Environment.Leads.others (E := registering noteBeside)
    (s := World.fresh.toLedger) rfl hsolo
  obtain ⟨noted, huse, hentry, -⟩ :=
    acquire_notes_its_token {} "a" "L" 20 0 hquiet (p.after_solo w) hleads
  have hnone : World.fresh.heldBy ⟨0, "a"⟩ "L" = none := rfl
  have hsuccess : (p.runOn w).2 = .ok true := eq_ok_of_toOption (by decide +kernel)
  obtain ⟨token, rfl⟩ := Option.isSome_iff_exists.1 (huse.isSome_iff.2 ⟨hsuccess, hnone⟩)
  refine ⟨_, _, token, hleads, (huse.written token rfl).1, ?_⟩
  rw [hentry _ _ hquiet]
  exact (Ledger.heldBy_recordFor ..).trans (if_pos ⟨rfl, rfl⟩)

end Latchkey
