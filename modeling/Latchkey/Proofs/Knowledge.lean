import Latchkey.Proofs.Ownership

/-!
# What operations know is true

Each phase of an operation says something about its token: that it is recorded, that it is nowhere
in the store, that it is stored for as long as its lifetime lasts, or that it is in force. All but
the first hold because no other operation knows the token before it is recorded.

The main statements are `Deed.fits` and `Phase.Fits.frame`: what an operation knows stays true when
it does a deed itself, and when another one does.
-/

namespace Latchkey

/-! ## Operations on their way -/

namespace Operation

/-- The token was minted for the owner and the lock of an operation. -/
def Owns (o : Operation) (tr : List Event) (token : Token) : Prop :=
  ∃ p lock, o.ActsFor p lock ∧ MintedFor tr p lock token

theorem Owns.mintedFor {o : Operation} {tr : List Event} {token : Token} {lock : String}
    (h : o.Owns tr token) (ho : o.lock? = some lock) :
    ∃ p, o.ActsFor p lock ∧ MintedFor tr p lock token := by
  obtain ⟨p, lock', hact, hm⟩ := h
  obtain rfl : lock' = lock := Option.some.inj (hact.2.symm.trans ho)
  exact ⟨p, hact, hm⟩

theorem Owns.append {o : Operation} {tr : List Event} {token : Token} (h : o.Owns tr token)
    (tr' : List Event) : o.Owns (tr ++ tr') token := by
  obtain ⟨p, lock, ho, hm⟩ := h
  exact ⟨p, lock, ho, hm.append _⟩

/-- The lock of an operation is held under a token; side by side with others, it may have been given
up since by its own owner. -/
def InForce (o : Operation) (mode : Scheduling) (tr : List Event) (w : World) (token : Token) :
    Prop :=
  ∃ p lock, o.ActsFor p lock ∧
    (w.Carries (lockKey lock) token ∨ mode = .parallel ∧ DeletedBy tr p lock token)

end Operation

namespace Phase

/-- The token that no other operation knows. -/
def secret? : Phase → Option Token
  | .fresh token _ => some token
  | .minted token _ _ => some token
  | .written token _ _ => some token
  | .late token _ => some token
  | .void token => some token
  | .granted token => some token
  | _ => none

/-- What an operation knows is true. -/
def Fits (mode : Scheduling) (tr : List Event) (w : World) (o : Operation) (wait : Option Wait) :
    Phase → Prop
  | .seeking clock => clock ≤ w.now
  | .owning token => o.Owns tr token ∧ Recorded tr token
  | .fresh token clock => clock ≤ w.now ∧ o.Owns tr token ∧ ∀ key, ¬ w.Carries key token
  | .minted token clock sharded =>
    clock ≤ w.now ∧ o.Owns tr token ∧ (∀ key, ¬ w.Carries key token) ∧
      sharded = w.store.deployment.isSharded
  | .written token since sharded =>
    o.Owns tr token ∧ sharded = w.store.deployment.isSharded ∧
      (w.now < since + o.ttl → ∃ lock deadline, o.lock? = some lock ∧
        w.Stores (lockKey lock) token deadline ∧ since + o.ttl ≤ deadline)
  | .late token sharded => o.Owns tr token ∧ sharded = w.store.deployment.isSharded
  | .void token => o.Owns tr token ∧ ∀ key, ¬ w.Carries key token
  | .granted token => wait = none ∧ o.Owns tr token ∧ o.InForce mode tr w token
  | .held token =>
    wait = none ∧ o.Owns tr token ∧ Recorded tr token ∧ o.InForce mode tr w token

variable {mode : Scheduling} {tr : List Event} {own : Option Token} {w w' : World} {ev : Event}
  {o : Operation} {wait : Option Wait} {s : Phase}

/-- What an operation knows stays true if its secret token is not moved and its lock is kept. -/
theorem Fits.keep (h : s.Fits mode tr w o wait) (hnow : w.now ≤ w'.now)
    (hdeployment : w'.store.deployment = w.store.deployment)
    (hcarries : ∀ token key, s.secret? = some token → o.Owns tr token →
      w'.Carries key token → w.Carries key token)
    (hstores : ∀ token lock deadline, s.secret? = some token → w.now < deadline →
      w.Stores (lockKey lock) token deadline → w'.Stores (lockKey lock) token deadline)
    (hforce : ∀ token, s.IsFirm → wait = none → o.Owns tr token → o.InForce mode tr w token →
      o.InForce mode (tr ++ [ev]) w' token) :
    s.Fits mode (tr ++ [ev]) w' o wait := by
  have howns : ∀ {token}, o.Owns tr token → o.Owns (tr ++ [ev]) token := fun h => h.append _
  cases s with
  | seeking clock => exact Nat.le_trans h hnow
  | owning token => exact ⟨howns h.1, h.2.append _⟩
  | fresh token clock =>
    obtain ⟨hclock, hm, hno⟩ := h
    exact ⟨Nat.le_trans hclock hnow, howns hm, fun key hc => hno key (hcarries token key rfl hm hc)⟩
  | minted token clock sharded =>
    obtain ⟨hclock, hm, hno, hsharded⟩ := h
    exact ⟨Nat.le_trans hclock hnow, howns hm,
      fun key hc => hno key (hcarries token key rfl hm hc), hdeployment ▸ hsharded⟩
  | written token since sharded =>
    obtain ⟨hm, hsharded, hs⟩ := h
    refine ⟨howns hm, hdeployment ▸ hsharded, fun hlt => ?_⟩
    obtain ⟨lock, deadline, ho, hs, hle⟩ := hs (by omega)
    exact ⟨lock, deadline, ho, hstores token lock deadline rfl (by omega) hs, hle⟩
  | late token sharded => exact ⟨howns h.1, hdeployment ▸ h.2⟩
  | void token =>
    obtain ⟨hm, hno⟩ := h
    exact ⟨howns hm, fun key hc => hno key (hcarries token key rfl hm hc)⟩
  | granted token =>
    obtain ⟨hwait, hm, hc⟩ := h
    exact ⟨hwait, howns hm, hforce token trivial hwait hm hc⟩
  | held token =>
    obtain ⟨hwait, hm, hrec, hc⟩ := h
    exact ⟨hwait, howns hm, hrec.append _, hforce token trivial hwait hm hc⟩

/-- A secret token is one that was minted for the operation. -/
theorem Fits.owns (h : s.Fits mode tr w o wait) {token : Token} (hs : s.secret? = some token) :
    o.Owns tr token := by
  cases s with
  | fresh => exact Option.some.inj hs ▸ h.2.1
  | minted => exact Option.some.inj hs ▸ h.2.1
  | written => exact Option.some.inj hs ▸ h.1
  | late => exact Option.some.inj hs ▸ h.1
  | void => exact Option.some.inj hs ▸ h.1
  | granted => exact Option.some.inj hs ▸ h.2.1
  | _ => cases hs

/-- What an operation waits for matters only when it knows that the lock is held. -/
theorem Fits.rewait (h : s.Fits mode tr w o wait) {wait' : Option Wait}
    (hwait : s.IsFirm → wait' = none) : s.Fits mode tr w o wait' := by
  cases s with
  | granted token => exact ⟨hwait trivial, h.2⟩
  | held token => exact ⟨hwait trivial, h.2⟩
  | _ => exact h

/-- What an operation knows stays true if the keyspace, the clock and the deployment stay. -/
theorem Fits.alike (h : s.Fits mode tr w o wait) (ev : Event) (hnow : w'.now = w.now)
    (hkeyspace : w'.store.keyspace = w.store.keyspace)
    (hdeployment : w'.store.deployment = w.store.deployment) :
    s.Fits mode (tr ++ [ev]) w' o wait := by
  have hcarries : ∀ key token, w'.Carries key token ↔ w.Carries key token := by
    intro key token
    simp only [World.Carries, hnow, hkeyspace]
  refine h.keep (Nat.le_of_eq hnow.symm) hdeployment (fun token key _ _ => (hcarries key token).1)
    ?_ ?_
  · intro token lock deadline _ _ hs
    rw [World.Stores, hkeyspace]
    exact hs
  · rintro token - - - ⟨p, lock, ho, hc | ⟨hmode, hd⟩⟩
    · exact ⟨p, lock, ho, .inl ((hcarries _ _).2 hc)⟩
    · exact ⟨p, lock, ho, .inr ⟨hmode, hd.append _⟩⟩

/-- What an operation knows stays true while another one takes a step. -/
theorem Fits.frame (h : s.Fits mode tr w o wait) (hkey : ∀ key, KeyChange tr own w ev w' key)
    (hnow : w.now ≤ w'.now) (hdeployment : w'.store.deployment = w.store.deployment)
    (hserial : ∀ p lock token, MintedFor tr p lock token → ∃ n, token = Token.ofSerial n)
    (hunique : ∀ p p' lock lock' token, MintedFor tr p lock token → MintedFor tr p' lock' token →
      p = p' ∧ lock = lock')
    (hsecret : ∀ token, s.secret? = some token → own ≠ some token ∧ ¬ Recorded tr token)
    (hfirm : s.IsFirm → wait = none →
      w'.now = w.now ∧ ((∃ o x, ev = .did o x) → mode = .parallel)) :
    s.Fits mode (tr ++ [ev]) w' o wait := by
  refine h.keep hnow hdeployment ?_ ?_ ?_
  · rintro token key hs ⟨p, lock, -, hm⟩ hc
    obtain ⟨n, rfl⟩ := hserial p lock token hm
    rcases (hkey key).carries_before hnow hc with hc | hown
    · exact hc
    · exact absurd hown (hsecret _ hs).1
  · intro token lock deadline hs hlt hst
    obtain ⟨hown, hrec⟩ := hsecret token hs
    exact (hkey _).stores_after hrec hown hst hlt
  · rintro token hs hw ⟨p', lock', ho', hm⟩ ⟨p, lock, ho, hc | ⟨hmode, hd⟩⟩
    · obtain ⟨hnow', hmode⟩ := hfirm hs hw
      -- only another operation of the same owner can have deleted the key
      rcases (hkey _).carries_after hnow' hc with hc | ⟨o', p'', conn, hact, hm', -, rfl⟩
      · exact ⟨p, lock, ho, .inl hc⟩
      · obtain ⟨rfl, rfl⟩ := ho.unique ho'
        obtain ⟨rfl, -⟩ := hunique _ _ _ _ _ hm hm'
        refine ⟨p, lock, ho, .inr ⟨hmode ⟨_, _, rfl⟩, o', conn, hact, ?_⟩⟩
        exact List.mem_append_right _ (List.mem_singleton.2 rfl)
    · exact ⟨p, lock, ho, .inr ⟨hmode, hd.append _⟩⟩

end Phase

/-! ## Deeds -/

namespace Deed

variable {mode : Scheduling} {tr : List Event} {w w' : World} {o : Operation} {wait : Option Wait}
  {s s' : Phase} {x : Exchange}

theorem now_eq (h : Deed w o s x w' s') : w'.now = w.now := by
  cases h with
  | other ha hx => exact ha.now
  | _ => rfl

theorem deployment_eq (h : Deed w o s x w' s') :
    w'.store.deployment = w.store.deployment := by
  cases h with
  | other ha hx => exact ha.deployment
  | _ => rfl

theorem nextToken_le (h : Deed w o s x w' s') : w.nextToken ≤ w'.nextToken := by
  cases h with
  | mint ho clock => exact Nat.le_succ _
  | other ha hx => exact Nat.le_of_eq ha.nextToken.symm
  | _ => exact Nat.le_refl _

theorem keyChange (h : Deed w o s x w' s') (hf : s.Fits mode tr w o wait) (key : String) :
    KeyChange tr s.secret? w (.did o x) w' key := by
  cases h with
  | other ha hx => exact .same (by rw [ha.keyspace])
  | @write lock token ho conn clock sharded ks b hks =>
    obtain ⟨p, hact, hm⟩ := hf.2.1.mintedFor ho
    have hfind := Keyspace.find?_of_set hks key
    by_cases hb : key = lockKey lock ∧ b = true
    · obtain ⟨rfl, rfl⟩ := hb
      have hgone := Keyspace.set_snd.1 (congrArg Prod.snd hks)
      exact .wrote hact rfl rfl hm rfl hgone (hfind.trans (if_pos ⟨rfl, rfl⟩))
    · exact .same (hfind.trans (if_neg hb))
  | @delete lock token s ho conn hs ks b hks =>
    have hfind := Keyspace.find?_of_compareAndDelete hks key
    by_cases hb : key = lockKey lock ∧ b = true
    · obtain ⟨rfl, rfl⟩ := hb
      have hlive := Keyspace.compareAndDelete_snd.1 (congrArg Prod.snd hks)
      have hgone := hfind.trans (if_pos ⟨rfl, rfl⟩)
      rcases hs with ⟨rfl, hr⟩ | ⟨since, sharded, rfl⟩ | ⟨sharded, rfl⟩
      · obtain ⟨p, hact, hm⟩ := hf.1.mintedFor ho
        exact .deleted hact rfl rfl hm (.inl ⟨hf.2, hr⟩) hlive hgone
      · obtain ⟨p, hact, hm⟩ := hf.1.mintedFor ho
        exact .deleted hact rfl rfl hm (.inr rfl) hlive hgone
      · obtain ⟨p, hact, hm⟩ := hf.1.mintedFor ho
        exact .deleted hact rfl rfl hm (.inr rfl) hlive hgone
    · exact .same (hfind.trans (if_neg hb))
  | @expire lock token ttl ho conn hpos ks b hks =>
    have hfind := Keyspace.find?_of_compareAndExpire hks key
    by_cases hb : key = lockKey lock ∧ b = true
    · obtain ⟨rfl, rfl⟩ := hb
      have hlive := Keyspace.compareAndExpire_snd.1 (congrArg Prod.snd hks)
      obtain ⟨p, hact, hm⟩ := hf.1.mintedFor ho
      exact .extended hact rfl rfl hm hf.2 hpos hlive (hfind.trans (if_pos ⟨rfl, rfl⟩))
    · exact .same (hfind.trans (if_neg hb))
  | _ => exact .same rfl

/-- Only a secret token is recorded, and it is a secret no longer. -/
theorem recorded (h : Deed w o s x w' s') {token : Token}
    (hrec : Recorded (tr ++ [.did o x]) token) :
    Recorded tr token ∨ s.secret? = some token ∧ s'.secret? = none := by
  rcases recorded_concat.1 hrec with hrec | ⟨o', p, lock, ho', hev⟩
  · exact .inl hrec
  · obtain ⟨-, hx⟩ := Event.did.inj hev
    have heffect : x.effect = .registry p.manager (.record p.ctx lock token) := hx ▸ rfl
    cases h with
    | record ho token' =>
      obtain ⟨-, -, -, rfl⟩ : _ ∧ _ ∧ _ ∧ token' = token := by simpa using heffect
      exact .inr ⟨rfl, rfl⟩
    | other ha hplain => exact (heffect ▸ hplain).elim
    | _ => simp at heffect

theorem lawful (h : Deed w o s x w' s') (hw : w.Lawful tr) (hf : s.Fits mode tr w o wait) :
    w'.Lawful (tr ++ [.did o x]) := by
  have hkey := h.keyChange hf
  have hrec : ∀ token, Recorded (tr ++ [.did o x]) token →
      Recorded tr token ∨ ∃ p lock, MintedFor tr p lock token := by
    intro token htoken
    rcases h.recorded htoken with htoken | ⟨hs, -⟩
    · exact .inl htoken
    · obtain ⟨p, lock, -, hm⟩ := hf.owns hs
      exact .inr ⟨p, lock, hm⟩
  cases h with
  | mint ho clock =>
    refine hw.step hkey (Nat.le_succ _) ?_ hrec fun _ _ _ hheld => .inl hheld
    rintro o' p' lock' token ho' hev
    cases hev
    exact ⟨rfl, Nat.lt_succ_self _⟩
  | @record p lock ho token =>
    refine hw.step hkey (Nat.le_refl _) (fun _ _ _ _ _ hev => by cases hev) hrec ?_
    intro p' lock' token' hheld
    rw [World.withLedger, Ledger.heldBy_recordFor] at hheld
    split at hheld
    · next heq =>
      obtain ⟨rfl, rfl⟩ := heq
      cases hheld
      obtain ⟨p₀, hact, hm⟩ := hf.2.1.mintedFor ho.2
      obtain ⟨rfl, -⟩ := ho.unique hact
      exact .inr ⟨hm.append _, recorded_concat.2 (.inr ⟨o, _, _, ho, rfl⟩)⟩
    · exact .inl hheld
  | @forget p lock ho s =>
    refine hw.step hkey (Nat.le_refl _) (fun _ _ _ _ _ hev => by cases hev) hrec ?_
    intro p' lock' token' hheld
    rw [World.withLedger, Ledger.heldBy_forgetFor] at hheld
    split at hheld
    · cases hheld
    · exact .inl hheld
  | @dispose p ho s =>
    refine hw.step hkey (Nat.le_refl _) (fun _ _ _ _ _ hev => by cases hev) hrec ?_
    intro p' lock' token' hheld
    rw [World.withLedger, Ledger.heldBy_disposeFor] at hheld
    split at hheld
    · cases hheld
    · exact .inl hheld
  | other ha hx =>
    refine hw.step hkey (Nat.le_of_eq ha.nextToken.symm) ?_ hrec fun p lock token hheld => .inl ?_
    · rintro o' p' lock' token ho' hev
      cases hev
      exact hx.elim
    · rw [Ledger.heldBy, Ledger.registry, ha.registries] at hheld
      exact hheld
  | _ =>
    exact hw.step hkey (Nat.le_refl _) (fun _ _ _ _ _ hev => by cases hev) hrec
      fun _ _ _ hheld => .inl hheld

/-- A token that was written is stored for the whole lifetime, and one that was not is nowhere. -/
theorem fits_write {lock : String} {token : Token} {clock : Nat} {sharded b : Bool} {ks : Keyspace}
    (ho : o.lock? = some lock)
    (hks : w.store.keyspace.set w.now (lockKey lock) token o.ttl true = (ks, b))
    (hf : (Phase.minted token clock sharded).Fits mode tr w o wait) :
    ((Phase.minted token clock sharded).afterWrite (.ok b)).Fits mode (tr ++ [ev])
      (w.withKeyspace ks) o none := by
  obtain ⟨hclock, hm, hno, hsharded⟩ := hf
  cases b with
  | true =>
    have hfind := Keyspace.find?_of_set hks (lockKey lock)
    rw [if_pos ⟨rfl, rfl⟩] at hfind
    exact ⟨hm.append _, hsharded, fun _ => ⟨lock, _, ho, hfind, Nat.add_le_add_right hclock _⟩⟩
  | false =>
    obtain rfl := Keyspace.eq_of_set_false hks
    exact ⟨hm.append _, hno⟩

/-- A token that was to be deleted is nowhere, whatever the answer. -/
theorem fits_delete {lock : String} {token : Token} {b : Bool} {ks : Keyspace}
    (ho : o.lock? = some lock)
    (hks : w.store.keyspace.compareAndDelete w.now (lockKey lock) token = (ks, b))
    (hw : w.Lawful tr) (hm : o.Owns tr token) :
    (Phase.void token).Fits mode (tr ++ [ev]) (w.withKeyspace ks) o none := by
  refine ⟨hm.append _, fun key hc => ?_⟩
  obtain ⟨p, -, hminted⟩ := hm.mintedFor ho
  cases b with
  | true =>
    have hfind := Keyspace.find?_of_compareAndDelete hks key
    by_cases hk : key = lockKey lock
    · exact World.not_carries_of_find? (hfind.trans (if_pos ⟨hk, rfl⟩)) token hc
    · have hc' : w.Carries key token :=
        hc.earlier (hfind.trans (if_neg fun h => hk h.1)) (Nat.le_refl _)
      exact hk (hw.key_of_carries hminted hc')
  | false =>
    obtain rfl := Keyspace.eq_of_compareAndDelete_false hks
    have hc' : w.Carries key token := hc
    obtain rfl := hw.key_of_carries hminted hc'
    have htrue := Keyspace.compareAndDelete_snd.2 hc'
    rw [hks] at htrue
    cases htrue

/-- A token that was refreshed is in force. -/
theorem fits_expire {lock : String} {token : Token} {ttl : Nat} {b : Bool} {ks : Keyspace}
    (ho : o.lock? = some lock) (hpos : 0 < ttl)
    (hks : w.store.keyspace.compareAndExpire w.now (lockKey lock) token ttl = (ks, b))
    (hf : (Phase.owning token).Fits mode tr w o wait) :
    ((Phase.owning token).afterExpire (.ok b)).Fits mode (tr ++ [ev]) (w.withKeyspace ks) o
      none := by
  obtain ⟨hm, hrec⟩ := hf
  cases b with
  | true =>
    obtain ⟨p, hact, -⟩ := hm.mintedFor ho
    have hfind := Keyspace.find?_of_compareAndExpire hks (lockKey lock)
    rw [if_pos ⟨rfl, rfl⟩] at hfind
    have hst : (w.withKeyspace ks).Stores (lockKey lock) token (w.now + ttl) := hfind
    have hlive : (w.withKeyspace ks).now < w.now + ttl := Nat.lt_add_of_pos_right hpos
    exact ⟨rfl, hm.append _, hrec.append _, p, lock, hact, .inl (hst.carries hlive)⟩
  | false => exact ⟨hm.append _, hrec.append _⟩

/-- The clock shows whether the lifetime of a token that was written is over. -/
theorem fits_clock (hf : s.Fits mode tr w o wait) :
    (s.afterClock o.ttl w.now).Fits mode (tr ++ [ev]) w o none := by
  have hs : s.Fits mode (tr ++ [ev]) w o none := (hf.alike ev rfl rfl rfl).rewait fun _ => rfl
  cases s with
  | seeking clock => exact Nat.le_refl _
  | fresh token clock => exact ⟨Nat.le_refl _, hs.2⟩
  | minted token clock sharded => exact ⟨Nat.le_refl _, hs.2⟩
  | written token since sharded =>
    obtain ⟨hm, hsharded, hstores⟩ := hs
    by_cases hlt : w.now - since < o.ttl
    · obtain ⟨lock, deadline, ho, hst, hle⟩ := hstores (by omega)
      obtain ⟨p, hact, -⟩ := hm.mintedFor ho
      rw [Phase.afterClock_inTime token sharded hlt]
      exact ⟨rfl, hm, p, lock, hact, .inl (hst.carries (by omega))⟩
    · rw [Phase.afterClock_late token sharded hlt]
      exact ⟨hm, hsharded⟩
  | _ => exact hs

theorem fits (h : Deed w o s x w' s') (hw : w.Lawful tr) (hf : s.Fits mode tr w o wait) :
    s'.Fits mode (tr ++ [.did o x]) w' o none := by
  have hstay : ∀ w' : World, w'.now = w.now → w'.store.keyspace = w.store.keyspace →
      w'.store.deployment = w.store.deployment → s.Fits mode (tr ++ [.did o x]) w' o none :=
    fun w' hnow hks hd => (hf.alike _ hnow hks hd).rewait fun _ => rfl
  cases h with
  | clock s => exact fits_clock hf
  | deployment s =>
    have hs := hstay w rfl rfl rfl
    cases s with
    | fresh token clock => exact ⟨hs.1, hs.2.1, hs.2.2, rfl⟩
    | _ => exact hs
  | @mint p lock ho clock =>
    refine ⟨hf, ⟨p, lock, ho, mintedFor_concat.2 (.inr ⟨o, ho, rfl⟩)⟩, fun key hc => ?_⟩
    exact hw.not_carries_next key hc
  | @look p lock ho clock =>
    cases hheld : w.heldBy p lock with
    | none => exact hf
    | some token =>
      obtain ⟨hm, hrec⟩ := hw.registry p lock token hheld
      exact ⟨⟨p, lock, ho, hm.append _⟩, hrec.append _⟩
  | record ho token =>
    obtain ⟨-, hm, hc⟩ := hstay w rfl rfl rfl
    exact ⟨rfl, hm, recorded_concat.2 (.inr ⟨o, _, _, ho, rfl⟩), hc⟩
  | forget ho s => exact hstay _ rfl rfl rfl
  | dispose ho s => exact hstay _ rfl rfl rfl
  | write ho conn clock sharded hks => exact fits_write ho hks hf
  | @delete lock token s ho conn hs ks b hks =>
    rcases hs with ⟨rfl, -⟩ | ⟨since, sharded, rfl⟩ | ⟨sharded, rfl⟩
    · exact ⟨hf.1.append _, hf.2.append _⟩
    · exact fits_delete ho hks hw hf.1
    · exact fits_delete ho hks hw hf.1
  | expire ho conn hpos hks => exact fits_expire ho hpos hks hf
  | other ha hx => exact hstay _ ha.now ha.keyspace ha.deployment

/-- A secret token stays secret until it is recorded, and a new one is the next token. -/
theorem secret?_eq (h : Deed w o s x w' s') :
    s'.secret? = s.secret? ∨ s'.secret? = none ∨
      s'.secret? = some (Token.ofSerial w.nextToken) := by
  cases h with
  | clock s =>
    cases s with
    | written token since sharded =>
      by_cases hlt : w.now - since < o.ttl
      · rw [Phase.afterClock_inTime token sharded hlt]
        exact .inl rfl
      · rw [Phase.afterClock_late token sharded hlt]
        exact .inl rfl
    | _ => exact .inl rfl
  | deployment s => cases s <;> exact .inl rfl
  | mint ho clock => exact .inr (.inr rfl)
  | @look p lock ho clock => cases w.heldBy p lock <;> exact .inl rfl
  | record ho token => exact .inr (.inl rfl)
  | @write lock token ho conn clock sharded ks b hks => cases b <;> exact .inl rfl
  | delete ho conn hs hks =>
    rcases hs with ⟨rfl, -⟩ | ⟨since, sharded, rfl⟩ | ⟨sharded, rfl⟩ <;> exact .inl rfl
  | @expire lock token ttl ho conn hpos ks b hks => cases b <;> exact .inl rfl
  | _ => exact .inl rfl

end Deed

end Latchkey
