import Latchkey.Proofs.Tokens
import Latchkey.System.Task

/-!
# What an effect changes

No time passes while an effect is answered, and a command changes nothing but the keyspace.
Waiting, giving connections back and dropping tasks change nothing but the pool and, for guarded
sections, the registries.
-/

namespace Latchkey

/-! ## Effects -/

namespace World

variable {w w' : World}

/-- Two worlds that differ at most in their pools and in what was counted. -/
structure Alike (w w' : World) : Prop where
  now : w'.now = w.now
  registries : w'.registries = w.registries
  nextToken : w'.nextToken = w.nextToken
  keyspace : w'.store.keyspace = w.store.keyspace
  deployment : w'.store.deployment = w.store.deployment

theorem Alike.refl (w : World) : w.Alike w := ⟨rfl, rfl, rfl, rfl, rfl⟩

theorem Alike.trans {w'' : World} (h : w.Alike w') (h' : w'.Alike w'') : w.Alike w'' where
  now := h'.now.trans h.now
  registries := h'.registries.trans h.registries
  nextToken := h'.nextToken.trans h.nextToken
  keyspace := h'.keyspace.trans h.keyspace
  deployment := h'.deployment.trans h.deployment

theorem giveBack_alike (w : World) : w.Alike w.giveBack := ⟨rfl, rfl, rfl, rfl, rfl⟩

theorem giveBacks_alike {α : Type} (w : World) (conns : List α) :
    w.Alike (conns.foldl (fun w _ => w.giveBack) w) := by
  induction conns generalizing w with
  | nil => exact .refl w
  | cons conn conns ih => exact w.giveBack_alike.trans (ih _)

theorem abandonWait_alike (w : World) (wait : Wait) : w.Alike (w.abandonWait wait) := by
  cases wait <;> exact ⟨rfl, rfl, rfl, rfl, rfl⟩

/-- Beginning to wait changes nothing but the pool. -/
theorem wait?_alike {e : Effect} {wait : Wait} (h : w.wait? e = some (w', wait)) : w.Alike w' := by
  unfold wait? at h
  split at h
  · split at h <;> cases h
    exact .refl w
  · split at h <;> cases h
    exact ⟨rfl, rfl, rfl, rfl, rfl⟩
  · obtain ⟨_, _, h⟩ := Option.map_eq_some_iff.1 h
    cases h
    exact .refl w
  · cases h

theorem connect_alike (w : World) (node : NodeId) (waited : Option Wait) :
    w.Alike (w.connect node waited).1 := by
  unfold connect
  split
  · split <;> exact ⟨rfl, rfl, rfl, rfl, rfl⟩
  · split
    · exact .refl w
    · split <;> exact ⟨rfl, rfl, rfl, rfl, rfl⟩

theorem command_keyspace (w : World) (conn : Connection) (waited : Option Wait) (cmd : Command) :
    (w.command conn waited cmd).1.store.keyspace = (w.store.execute w.now cmd).1.keyspace := by
  cases cmd <;> try rfl
  unfold command
  split
  · rfl
  · split
    · rfl
    · split <;> rfl

/-- A command changes nothing but the keyspace. -/
theorem command_frame (w : World) (conn : Connection) (waited : Option Wait) (cmd : Command) :
    (w.command conn waited cmd).1.toLedger = w.toLedger ∧
      (w.command conn waited cmd).1.now = w.now ∧
      (w.command conn waited cmd).1.store.deployment = w.store.deployment := by
  cases cmd <;> try exact ⟨rfl, rfl, rfl⟩
  unfold command
  split
  · exact ⟨rfl, rfl, rfl⟩
  · split
    · exact ⟨rfl, rfl, rfl⟩
    · split <;> exact ⟨rfl, rfl, rfl⟩

theorem answer_now (w : World) (waited : Option Wait) (e : Effect) :
    (w.answer waited e).1.now = w.now := by
  cases e with
  | call c =>
    cases c with
    | connect node => exact (w.connect_alike node waited).now
    | command conn cmd => exact (w.command_frame conn waited cmd).2.1
    | nodeOwning key => rfl
    | replicaCount node => rfl
  | _ => rfl

theorem answer_deployment (w : World) (waited : Option Wait) (e : Effect) :
    (w.answer waited e).1.store.deployment = w.store.deployment := by
  cases e with
  | call c =>
    cases c with
    | connect node => exact (w.connect_alike node waited).deployment
    | command conn cmd => exact (w.command_frame conn waited cmd).2.2
    | nodeOwning key => rfl
    | replicaCount node => rfl
  | _ => rfl

/-- Serial numbers are used up and never given back. -/
theorem answer_nextToken_le (w : World) (waited : Option Wait) (e : Effect) :
    w.nextToken ≤ (w.answer waited e).1.nextToken := by
  cases e with
  | call c =>
    cases c with
    | connect node => exact Nat.le_of_eq (w.connect_alike node waited).nextToken.symm
    | command conn cmd =>
      have hledger := (w.command_frame conn waited cmd).1
      exact Nat.le_of_eq (congrArg Ledger.nextToken hledger).symm
    | nodeOwning key => exact Nat.le_refl _
    | replicaCount node => exact Nat.le_refl _
  | registry m a => cases a <;> exact Nat.le_refl _
  | mint => exact Nat.le_succ _
  | _ => exact Nat.le_refl _

end World

/-- A dropped task changes the pool, and then forgets the locks of its guarded sections. -/
theorem Task.drop_eq {X : Extension} {α : Type} (w : World) (t : Task X α) :
    ∃ w', w.Alike w' ∧ t.drop w = Task.forgetGuards w' t.guards := by
  unfold Task.drop
  cases t.wait with
  | none => exact ⟨_, w.giveBacks_alike _, rfl⟩
  | some wait => exact ⟨_, (w.abandonWait_alike wait).trans (World.giveBacks_alike _ _), rfl⟩

/-! ## Tables -/

/-- The look-up after a filter: no key stands twice, so its only value decides. -/
theorem Table.find?_filter {κ ν : Type} [DecidableEq κ] (t : Table κ ν) (p : κ → ν → Bool)
    (k : κ) : (t.filter p).find? k = (t.find? k).filter fun v => p k v := by
  obtain ⟨es, hnd⟩ := t
  simp only [filter, find?]
  induction es with
  | nil => rfl
  | cons b es ih =>
    obtain ⟨k', v⟩ := b
    have hnd' : (es.map (·.1)).Nodup := (List.nodup_cons.1 hnd).2
    by_cases hk : k' = k
    · subst hk
      -- the rest of the table has no other value for the key
      have hnone : es.find? (fun e => decide (e.1 = k')) = none := by
        refine List.find?_eq_none.2 fun e he => ?_
        have hmem : e.1 ∈ es.map (·.1) := List.mem_map_of_mem he
        simp only [decide_eq_true_eq]
        exact fun h => (List.nodup_cons.1 hnd).1 (h ▸ hmem)
      by_cases hp : p k' v
      · simp [hp, Option.filter_some]
      · simpa [hp, hnone, Option.filter_some] using ih hnd'
    · by_cases hp : p k' v
      · simpa [hp, hk] using ih hnd'
      · simpa [hp, hk] using ih hnd'

/-! ## Registries -/

namespace Registry

variable (r : Registry) (ctx ctx' : Context) (lock lock' : String)

theorem held_record (token : Token) :
    (r.record ctx lock token).held ctx' lock' =
      if ctx' = ctx ∧ lock' = lock then some token else r.held ctx' lock' := by
  by_cases hc : ctx' = ctx
  · subst hc
    by_cases hl : lock' = lock
    · simp [held, record, hl]
    · cases h : r.find? ctx' with
      | none => simp [held, record, locksOf, hl, h, EmptyCollection.emptyCollection]
      | some locks => simp [held, record, locksOf, hl, h]
  · simp [held, record, hc]

theorem held_forget :
    (r.forget ctx lock).held ctx' lock' =
      if ctx' = ctx ∧ lock' = lock then none else r.held ctx' lock' := by
  by_cases hc : ctx' = ctx
  · subst hc
    cases h : r.find? ctx' with
    | none => simp [held, forget, h]
    | some locks =>
      have hfind : (((some locks).map fun locks => locks.erase lock).filter fun locks =>
          !locks.entries.isEmpty).bind (fun locks => locks.find? lock') =
          (locks.erase lock).find? lock' := by
        cases hempty : (locks.erase lock).entries with
        | nil => simp [hempty, Table.find?]
        | cons b rest =>
          rw [Option.map_some, Option.filter_some, if_pos (by simp [hempty])]
          rfl
      simp only [held, forget, Table.find?_alter, h, if_true, hfind, Table.find?_erase, true_and,
        Option.bind_some]
  · simp [held, forget, hc]

theorem held_dispose :
    (r.dispose ctx).held ctx' lock' = if ctx' = ctx then none else r.held ctx' lock' := by
  by_cases hc : ctx' = ctx <;> simp [held, dispose, hc]

end Registry

namespace Ledger

/-- The registry of a manager after the registry of another or the same one was replaced. -/
theorem registry_setRegistry (l : Ledger) (m m' : ManagerId) (r : Registry) :
    (l.setRegistry m r).registry m' = if m' = m then r else l.registry m' := by
  by_cases h : m' = m <;> simp [registry, setRegistry, h]

end Ledger

/-! ## Keyspaces -/

namespace Keyspace

variable {ks : Keyspace} {now : Nat} {key : String}

theorem live?_eq_some {e : Entry} :
    ks.live? now key = some e ↔ ks.find? key = some e ∧ e.isLive now = true := by
  simp [live?, Option.filter_eq_some_iff]

theorem find?_of_set {ks' : Keyspace} {value : String} {ttl : Nat} {nx b : Bool}
    (h : ks.set now key value ttl nx = (ks', b)) (k : String) :
    ks'.find? k =
      if k = key ∧ b = true then some ⟨Entry.ofText value, some (now + ttl)⟩ else ks.find? k := by
  unfold set at h
  split at h
  · cases h
    simp
  · cases h
    simp

/-- A value is written where there is none, and only there. -/
theorem set_snd {value : String} {ttl : Nat} :
    (ks.set now key value ttl true).2 = true ↔ ks.live? now key = none := by
  unfold set present
  cases ks.live? now key <;> simp

/-- A write that is not made changes nothing. -/
theorem eq_of_set_false {ks' : Keyspace} {value : String} {ttl : Nat} {nx : Bool}
    (h : ks.set now key value ttl nx = (ks', false)) : ks' = ks := by
  unfold set at h
  split at h
  · cases h
    rfl
  · cases h

theorem eq_of_compareAndDelete_false {ks' : Keyspace} {expected : String}
    (h : ks.compareAndDelete now key expected = (ks', false)) : ks' = ks := by
  unfold compareAndDelete at h
  split at h
  · split at h
    · cases h
    · cases h
      rfl
  · cases h
    rfl

theorem find?_of_compareAndDelete {ks' : Keyspace} {expected : String} {b : Bool}
    (h : ks.compareAndDelete now key expected = (ks', b)) (k : String) :
    ks'.find? k = if k = key ∧ b = true then none else ks.find? k := by
  unfold compareAndDelete at h
  split at h
  · split at h
    · cases h
      simp
    · cases h
      simp
  · cases h
    simp

theorem compareAndDelete_snd {expected : String} :
    (ks.compareAndDelete now key expected).2 = true ↔
      ∃ e, ks.live? now key = some e ∧ e.holds expected = true := by
  unfold compareAndDelete
  split
  · next e he =>
    by_cases h : e.holds expected <;> simp [he, h]
  · next he => simp [he]

theorem compareAndExpire_snd {expected : String} {ttl : Nat} :
    (ks.compareAndExpire now key expected ttl).2 = true ↔
      ∃ e, ks.live? now key = some e ∧ e.holds expected = true := by
  unfold compareAndExpire
  split
  · next e he =>
    by_cases h : e.holds expected <;> simp [he, h]
  · next he => simp [he]

theorem find?_of_compareAndExpire {ks' : Keyspace} {expected : String} {ttl : Nat} {b : Bool}
    (h : ks.compareAndExpire now key expected ttl = (ks', b)) (k : String) :
    ks'.find? k =
      if k = key ∧ b = true then some ⟨Entry.ofText expected, some (now + ttl)⟩
      else ks.find? k := by
  unfold compareAndExpire at h
  split at h
  · next e he =>
    split at h
    · next ht =>
      have hb : e.bytes = Entry.ofText expected := Entry.holds_iff.1 ht
      cases h
      simp [hb]
    · cases h
      simp
  · cases h
    simp

/-- A value is removed only if it is gone. -/
theorem find?_purge (ks : Keyspace) (now : Nat) (k : String) :
    (ks.purge now).1.find? k = ks.live? now k :=
  Table.find?_filter ks _ k

end Keyspace

end Latchkey
