import Latchkey.Proofs.FilterProtocol
import Latchkey.Proofs.Holdings

/-!
# Tending a lock

A client that runs guarded sections under a lock is calm, or it acquires the lock, or it releases
it. In each stage something is known about the entry of the owner and about the tokens under which
it has held the lock. As long as the lock was acquired in a section that still stands, or was never
held before, the only token that may be under the key is that of the entry, and an entry is covered
by a section.

The main statements are `Stage.Known.acquire_deed`, `Stage.Known.record_deed` and
`Stage.Known.release_deed`: this knowledge is kept by whatever the client does itself.
-/

namespace Latchkey

variable {X : Extension}

/-- How far a client has come that uses a lock. -/
inductive Stage where
  /-- It is in no call for the lock. -/
  | calm (turn : Turn)
  /-- It acquires the lock. -/
  | acquiring (s : Phase)
  /-- It releases the lock. -/
  | releasing (s : Surrender)

namespace Stage

/-- The lock is acquired, and the section that it is acquired for has not begun. -/
def Covers : Stage → Prop
  | .calm .due => True
  | .acquiring (.held _) => True
  | _ => False

/-- What the client knows about its entry, and about the tokens it has held the lock under. -/
def Fits (tr : List Event) (w : World) (p : Owner) (lock : String) : Stage → Prop
  | .calm .cleared => w.heldBy p lock = none
  | .acquiring (.owning token) => w.heldBy p lock = some token
  | .acquiring (.written ..) =>
    ∀ token, WasHeld tr p lock token → ¬ w.Carries (lockKey lock) token
  | .acquiring (.granted _) =>
    ∀ token, WasHeld tr p lock token → ¬ w.Carries (lockKey lock) token
  | .releasing (.found token) => w.heldBy p lock = some token
  | .releasing (.deleted token) => w.heldBy p lock = some token ∧ WasHeld tr p lock token ∧
      ¬ w.Carries (lockKey lock) token
  | .releasing .settled => w.heldBy p lock = none
  | _ => True

/-- What is known of a lock whose owner uses it only in this client. `F` says that nothing was left
from before, and `D` which tokens were given up since with a section that was dropped. -/
structure Known (F : Prop) (D : Token → Prop) (tr : List Event) (w : World) (p : Owner)
    (lock : String) (guards : List Guard) (st : Stage) : Prop where
  fits : st.Fits tr w p lock
  /-- A token under the key is that of the entry, or it was given up. -/
  tidy : F ∨ st.Covers → ∀ token, WasHeld tr p lock token → w.Carries (lockKey lock) token →
    w.heldBy p lock = some token ∨ D token
  /-- An entry is covered by a section. -/
  armed : F → (w.heldBy p lock).isSome → p.guard lock ∈ guards ∨ st.Covers

namespace Known

variable {F F' : Prop} {D D' : Token → Prop} {tr : List Event} {w w' : World} {ev : Event}
  {p : Owner} {lock : String} {guards guards' : List Guard} {st st' : Stage} {o : Operation}
  {s s' : Phase} {x : Exchange}

theorem mono (h : st.Known F D tr w p lock guards) (hF : F' → F)
    (hD : ∀ token, D token → D' token) : st.Known F' D' tr w p lock guards where
  fits := h.fits
  tidy := fun hor token hheld hc =>
    (h.tidy (hor.imp_left hF) token hheld hc).imp_right (hD token)
  armed := fun hf => h.armed (hF hf)

/-- Another stage that knows what is true will do, unless the lock is just acquired in either. -/
theorem move (h : st.Known F D tr w p lock guards) (hfits : st'.Fits tr w p lock)
    (hst : ¬ st.Covers) (hst' : ¬ st'.Covers) : st'.Known F D tr w p lock guards where
  fits := hfits
  tidy := fun hor => h.tidy (.inl (hor.resolve_right hst'))
  armed := fun hf hsome => .inl ((h.armed hf hsome).resolve_right hst)

/-- What is known stays true while something else goes on. -/
theorem frame (h : st.Known F D tr w p lock guards) (hu : Untouched tr w ev w' p lock) :
    st.Known F D (tr ++ [ev]) w' p lock guards where
  fits := by
    obtain ⟨hentry, hheld, hkeys⟩ := hu
    have hswept : (∀ token, WasHeld tr p lock token → ¬ w.Carries (lockKey lock) token) →
        ∀ token, WasHeld (tr ++ [ev]) p lock token → ¬ w'.Carries (lockKey lock) token :=
      fun hno token ht hc => hno token (hheld token ht) (hkeys token (hheld token ht) hc)
    have hfits := h.fits
    cases st with
    | calm turn =>
      cases turn with
      | cleared => exact hentry.trans hfits
      | _ => trivial
    | acquiring s =>
      cases s with
      | owning token => exact hentry.trans hfits
      | written token since sharded => exact hswept hfits
      | granted token => exact hswept hfits
      | _ => trivial
    | releasing s =>
      cases s with
      | found token => exact hentry.trans hfits
      | deleted token =>
        obtain ⟨hheldBy, ht, hlost⟩ := hfits
        exact ⟨hentry.trans hheldBy, ht.append _, fun hc => hlost (hkeys token ht hc)⟩
      | settled => exact hentry.trans hfits
      | unknown => trivial
  tidy := by
    intro hor token ht hc
    rw [hu.entry]
    have ht := hu.held token ht
    exact h.tidy hor token ht (hu.keys token ht hc)
  armed := by
    rw [hu.entry]
    exact h.armed

/-- An entry that is gone need not be covered. -/
theorem reguard (h : st.Known F D tr w p lock guards)
    (hg : (w.heldBy p lock).isSome → p.guard lock ∈ guards → p.guard lock ∈ guards') :
    st.Known F D tr w p lock guards' where
  fits := h.fits
  tidy := h.tidy
  armed := fun hf hsome => (h.armed hf hsome).imp_left (hg hsome)

/-- Sections begin and end in order. -/
theorem perform {turn : Turn} {e : Effect} (h : (calm turn).Known F D tr w p lock guards)
    (he : turn.Admits (p.guard lock) guards e) :
    (calm .free).Known F D tr w p lock (Task.guardsAfter guards e) := by
  cases turn with
  | due =>
    obtain rfl : e = .arm (p.guard lock) := he
    exact ⟨trivial, fun hor => h.tidy (.inl (hor.resolve_right id)),
      fun _ _ => .inl List.mem_cons_self⟩
  | cleared =>
    have h' : (calm .free).Known F D tr w p lock guards := h.move trivial id id
    refine h'.reguard fun hsome => ?_
    rw [h.fits] at hsome
    cases hsome
  | free =>
    refine h.reguard fun _ hmem => ?_
    cases e with
    | arm guard => exact List.mem_cons_of_mem _ hmem
    | disarm =>
      cases guards with
      | nil => cases hmem
      | cons g rest =>
        rcases List.mem_cons.1 hmem with rfl | hmem
        · exact he rfl
        · exact hmem
    | _ => exact hmem

/-- A section that is dropped gives the token of the entry up. -/
theorem drop (h : st.Known F D tr w p lock guards) (hst : ¬ st.Covers)
    (hentry : w'.heldBy p lock = if p.guard lock ∈ guards then none else w.heldBy p lock)
    (hheld : ∀ token, WasHeld (tr ++ [ev]) p lock token → WasHeld tr p lock token)
    (hkeys : ∀ token, WasHeld tr p lock token → w'.Carries (lockKey lock) token →
      w.Carries (lockKey lock) token) (hD : ∀ token, D token → D' token)
    (hgiven : ∀ token, w.heldBy p lock = some token → p.guard lock ∈ guards → D' token) :
    (calm .free).Known F D' (tr ++ [ev]) w' p lock [] where
  fits := trivial
  tidy := by
    intro hor token ht hc
    have hF : F := hor.resolve_right id
    have ht : WasHeld tr p lock token := hheld token ht
    rcases h.tidy (.inl hF) token ht (hkeys token ht hc) with hheldBy | hgone
    · have hg := h.armed hF (Option.isSome_iff_exists.2 ⟨token, hheldBy⟩)
      exact .inr (hgiven token hheldBy (hg.resolve_right hst))
    · exact .inr (hD token hgone)
  armed := by
    intro hF hsome
    rw [hentry] at hsome
    by_cases hg : p.guard lock ∈ guards
    · rw [if_pos hg] at hsome
      cases hsome
    · rw [if_neg hg] at hsome
      exact absurd ((h.armed hF hsome).resolve_right hst) hg

/-! ## Acquisitions -/

/-- What an acquisition does that does not write to the registry. -/
theorem acquire_plain_deed (h : (acquiring s).Known F D tr w p lock guards)
    (hd : Deed w o s x w' s') (ho : ¬ o.IsRelease) (hact : o.ActsFor p lock)
    (hwrite : ¬ x.effect.Writes p lock) (hu : Untouched tr w (.did o x) w' p lock) :
    (acquiring s').Known F D (tr ++ [.did o x]) w' p lock guards := by
  have h' := h.frame hu
  cases hd with
  | clock s =>
    cases s with
    | written token since sharded =>
      by_cases hin : w.now - since < o.ttl
      · rw [Phase.afterClock_inTime token sharded hin]
        exact h'.move h'.fits id id
      · rw [Phase.afterClock_late token sharded hin]
        exact h'.move trivial id id
    | seeking clock => exact h'.move trivial id id
    | fresh token clock => exact h'.move trivial id id
    | minted token clock sharded => exact h'.move trivial id id
    | _ => exact h'
  | deployment s =>
    cases s with
    | fresh token clock => exact h'.move trivial id id
    | _ => exact h'
  | mint hact' clock => exact h'.move trivial id id
  | @look q lock' hact' clock =>
    obtain ⟨rfl, rfl⟩ := hact'.unique hact
    cases hentry : w.heldBy q lock' with
    | none =>
      rw [hentry] at h'
      exact h'
    | some token =>
      rw [hentry] at h'
      exact h'.move hentry id id
  | record hact' token =>
    obtain ⟨rfl, rfl⟩ := hact'.unique hact
    exact absurd ⟨rfl, rfl⟩ hwrite
  | forget hact' s =>
    obtain ⟨rfl, rfl⟩ := hact'.unique hact
    exact absurd ⟨rfl, rfl⟩ hwrite
  | dispose howner s =>
    obtain rfl := Option.some.inj (howner.symm.trans hact.1)
    exact absurd rfl hwrite
  | @write lock' token hlock conn clock sharded ks b hks =>
    obtain rfl := Option.some.inj (hlock.symm.trans hact.2)
    cases b with
    | false => exact h'.move trivial id id
    | true =>
      -- where the token could be written there was no other one
      have hgone := Keyspace.set_snd.1 (congrArg Prod.snd hks)
      refine h'.move (fun token' ht hc => ?_) id id
      exact World.not_carries_of_live? hgone token' (hu.keys token' (hu.held token' ht) hc)
  | @delete lock' token s hlock conn hs ks b hks =>
    rcases hs with ⟨-, hrelease⟩ | ⟨since, sharded, rfl⟩ | ⟨sharded, rfl⟩
    · exact absurd hrelease ho
    · exact h'.move trivial id id
    · exact h'.move trivial id id
  | @expire lock' token ttl hlock conn hpos ks b hks =>
    obtain rfl := Option.some.inj (hlock.symm.trans hact.2)
    cases b with
    | false => exact h'
    | true =>
      have hlive : w.Carries (lockKey lock') token :=
        Keyspace.compareAndExpire_snd.1 (congrArg Prod.snd hks)
      refine ⟨trivial, fun _ token' ht hc => .inl ?_, fun _ _ => .inr trivial⟩
      obtain rfl := hlive.unique (hu.keys token' (hu.held token' ht) hc)
      exact hu.entry.trans h.fits
  | other ha hplain => exact h'

/-- The recorded token is the only one that may be under the key. -/
theorem record_deed {token : Token} (h : (acquiring (.granted token)).Known F D tr w p lock guards)
    (hheld : ∀ token', WasHeld (tr ++ [ev]) p lock token' →
      WasHeld tr p lock token' ∨ token' = token) :
    (acquiring (.held token)).Known F D (tr ++ [ev]) (w.withLedger (w.recordFor p lock token)) p
      lock guards where
  fits := trivial
  tidy := by
    intro _ token' ht hc
    rcases hheld token' ht with ht | rfl
    · exact absurd hc (h.fits token' ht)
    · exact .inl ((Ledger.heldBy_recordFor ..).trans (if_pos ⟨rfl, rfl⟩))
  armed := fun _ _ => .inr trivial

/-- What an acquisition does. -/
theorem acquire_deed {sur : Surrender} (h : (acquiring s).Known F D tr w p lock guards)
    (hd : Deed w o s x w' s') (ho : o.IsAcquire) (hact : o.ActsFor p lock)
    (hp : o.mayPerform sur x.effect)
    (hheld : ∀ token, WasHeld (tr ++ [.did o x]) p lock token → WasHeld tr p lock token ∨
      x.effect = .registry p.manager (.record p.ctx lock token))
    (hu : ¬ x.effect.Writes p lock → Untouched tr w (.did o x) w' p lock) :
    (acquiring s').Known F D (tr ++ [.did o x]) w' p lock guards := by
  have hrelease : ¬ o.IsRelease := by
    cases o with
    | acquire m ctx lock ttl wait => exact id
    | _ => exact ho.elim
  by_cases hwrite : x.effect.Writes p lock
  · cases hd with
    | @record q lock' hact' token =>
      obtain ⟨rfl, rfl⟩ := hact'.unique hact
      refine h.record_deed fun token' ht => (hheld token' ht).imp_right fun heq => ?_
      cases heq
      rfl
    | forget hact' s =>
      obtain ⟨⟨m, rfl, -⟩, -⟩ := hp
      exact ho.elim
    | dispose howner s =>
      obtain ⟨m, rfl, -⟩ := hp
      exact ho.elim
    | other ha hplain =>
      cases hx : x.effect with
      | registry m a =>
        rw [hx] at hplain
        exact hplain.elim
      | _ =>
        rw [hx] at hwrite
        exact hwrite.elim
    | _ => exact hwrite.elim
  · exact h.acquire_plain_deed hd hrelease hact hwrite (hu hwrite)

/-- After an acquisition has succeeded nothing else is left. -/
theorem acquired {token : Token} (h : (acquiring (.held token)).Known F D tr w p lock guards)
    (hcover : p.guard lock ∈ guards ∨ st = .calm .due) (hfits : st.Fits tr w p lock) :
    st.Known True D tr w p lock guards where
  fits := hfits
  tidy := fun _ => h.tidy (.inr trivial)
  armed := by
    rintro - -
    rcases hcover with hg | rfl
    · exact .inl hg
    · exact .inr trivial

/-! ## Releases -/

/-- An effect that concerns neither tokens nor values leaves a release where it is. -/
theorem comesTo_of_isPlain {sur : Surrender} (hx : x.effect.IsPlain) :
    Operation.comesTo sur x = sur := by
  obtain ⟨e, r⟩ := x
  cases e with
  | registry m a => exact hx.elim
  | call c =>
    cases c with
    | command conn cmd =>
      cases cmd with
      | compareAndDelete key token => exact hx.elim
      | _ => rfl
    | _ => rfl
  | _ => rfl

/-- What a release does. -/
theorem release_deed {sur : Surrender} {m : Manager} {ctx : Context}
    (h : (releasing sur).Known F D tr w ⟨m.id, ctx⟩ lock guards)
    (hd : Deed w (.release m ctx lock) s x w' s')
    (hp : (Operation.release m ctx lock).mayPerform sur x.effect) (hw : w.Lawful tr)
    (hheld : ∀ token, WasHeld (tr ++ [.did (.release m ctx lock) x]) ⟨m.id, ctx⟩ lock token →
      WasHeld tr ⟨m.id, ctx⟩ lock token)
    (hu : ¬ x.effect.Writes ⟨m.id, ctx⟩ lock →
      Untouched tr w (.did (.release m ctx lock) x) w' ⟨m.id, ctx⟩ lock) :
    (releasing (Operation.comesTo sur x)).Known F D (tr ++ [.did (.release m ctx lock) x]) w'
      ⟨m.id, ctx⟩ lock guards := by
  have hact : (Operation.release m ctx lock).ActsFor ⟨m.id, ctx⟩ lock := ⟨rfl, rfl⟩
  cases hd with
  | clock s => exact h.frame (hu id)
  | deployment s => exact h.frame (hu id)
  | mint hact' clock => exact hp.elim
  | @look q lock' hact' clock =>
    have h' := h.frame (hu id)
    obtain ⟨rfl, rfl⟩ := hact'.unique hact
    cases hentry : w.heldBy ⟨m.id, ctx⟩ lock' with
    | none =>
      rw [hentry] at h'
      exact h'.move hentry id id
    | some token =>
      rw [hentry] at h'
      exact h'.move hentry id id
  | record hact' token => exact hp.1.elim
  | @forget q lock' hact' s =>
    obtain ⟨rfl, rfl⟩ := hact'.unique hact
    obtain ⟨-, token, rfl⟩ := hp
    obtain ⟨hentry, -, hlost⟩ := h.fits
    have hnone : (w.withLedger (w.forgetFor ⟨m.id, ctx⟩ lock')).heldBy ⟨m.id, ctx⟩ lock' = none :=
      (Ledger.heldBy_forgetFor ..).trans (if_pos ⟨rfl, rfl⟩)
    refine ⟨hnone, fun hor token' ht hc => .inr ?_, fun _ hsome => ?_⟩
    · rcases h.tidy (.inl (hor.resolve_right id)) token' (hheld token' ht) hc with heq | hgiven
      · -- the token of the entry is the one that was deleted
        cases hentry.symm.trans heq
        exact absurd hc hlost
      · exact hgiven
    · rw [hnone] at hsome
      cases hsome
  | @dispose q howner s =>
    obtain ⟨m', hrelease, -⟩ := hp
    cases hrelease
  | write hlock conn clock sharded hks => exact hp.elim
  | @delete lock' token s hlock conn hs ks b hks =>
    obtain ⟨-, rfl⟩ := hp trivial
    have h' := h.frame (hu id)
    obtain rfl := Option.some.inj (hlock.symm.trans hact.2)
    have hlost := w.not_carries_of_compareAndDelete (lockKey lock') token
    rw [hks] at hlost
    have hwas : WasHeld tr ⟨m.id, ctx⟩ lock' token := hw.registry _ _ _ h.fits
    exact h'.move ⟨h'.fits, hwas.append _, hlost⟩ id id
  | expire hlock conn hpos hks => exact hp.elim
  | other ha hplain =>
    rw [comesTo_of_isPlain hplain]
    refine h.frame (hu fun hwrite => ?_)
    cases hx : x.effect with
    | registry m a =>
      rw [hx] at hplain
      exact hplain
    | _ =>
      rw [hx] at hwrite
      exact hwrite

end Known

end Stage

end Latchkey
