import Latchkey.Proofs.HeldKeys

/-!
# Lost tokens

A token is written once: by the operation that has minted it, before that operation has written
anything. Afterwards it is spent. What is under a lock key is spent, and no operation puts a spent
token under a key, whatever it has read from a registry and however late it reaches the store.

Others may do with other keys as they like, and with registries too. The main statement is
`lost_tokens_stay_lost`.
-/

namespace Latchkey

variable {X : Extension}

/-! ## Tokens to be written -/

/-- The token that an operation has minted and has not tried to write. -/
def Phase.pending? : Phase → Option Token
  | .fresh token _ => some token
  | .minted token _ _ => some token
  | _ => none

/-- The token that a lock operation on its way may write. -/
def Thread.pending? : Thread X → Option Token
  | .between _ => none
  | .inside o log _ _ => o.owner?.bind fun _ => (o.phase log).pending?

theorem Thread.pending?_inside {o : Operation} {log : List Exchange} {t : Task X o.Answer}
    {next : o.Answer → Client X Unit} (ho : o.IsLock) :
    (Thread.inside o log t next).pending? = (o.phase log).pending? := by
  obtain ⟨p, hp⟩ := Option.isSome_iff_exists.1 ho
  simp [Thread.pending?, hp]

/-- The entry of a key has a token as its value, whether or not its lifetime is over. -/
def World.Bears (w : World) (key : String) (token : Token) : Prop :=
  ∃ e, w.store.keyspace.find? key = some e ∧ e.holds token = true

theorem World.Carries.bears {w : World} {key : String} {token : Token} (h : w.Carries key token) :
    w.Bears key token := by
  obtain ⟨e, he, ht⟩ := h
  exact ⟨e, (Keyspace.live?_eq_some.1 he).1, ht⟩

theorem World.Stores.eq_of_bears {w : World} {key : String} {token token' : Token} {deadline : Nat}
    (h : w.Stores key token deadline) (hb : w.Bears key token') : token' = token := by
  obtain ⟨e, he, ht⟩ := hb
  have heq : e = _ := Option.some.inj (he.symm.trans h)
  rw [heq, Entry.holds_iff] at ht
  exact (Entry.ofText_inj.1 ht).symm

/-- What becomes of a key that is not written: its value gets no life that it has not got. -/
inductive Fades (w w' : World) (key : String) : Prop where
  /-- Nothing. -/
  | same (h : w'.store.keyspace.find? key = w.store.keyspace.find? key)
  /-- The key is removed. -/
  | gone (h : w'.store.keyspace.find? key = none)
  /-- The value is in force and gets a new deadline. -/
  | kept {token : Token} {deadline : Nat} (hc : w.Carries key token)
      (h : w'.Stores key token deadline)

/-- What a step does to some keys, given the tokens that it may write. -/
inductive Rewrites (keys : String → Prop) (written : Token → Prop) (w w' : World) : Prop where
  /-- It writes nothing. -/
  | fade (h : ∀ key, keys key → Fades w w' key)
  /-- It writes one token under one key. -/
  | write {key : String} {token : Token} {deadline : Nat} (hw : written token)
      (h : w'.Stores key token deadline)
      (hothers : ∀ key', key' ≠ key →
        w'.store.keyspace.find? key' = w.store.keyspace.find? key')

namespace Rewrites

variable {keys keys' : String → Prop} {written written' : Token → Prop} {w w' : World}
  {key key' : String} {token : Token}

theorem mono (h : Rewrites keys written w w') (hkeys : ∀ key, keys' key → keys key)
    (hwritten : ∀ token, written token → written' token) : Rewrites keys' written' w w' := by
  cases h with
  | fade h => exact .fade fun key hkey => h key (hkeys key hkey)
  | write hw h hothers => exact .write (hwritten _ hw) h hothers

theorem bears_before (h : Rewrites keys written w w') (hkey : keys key)
    (hb : w'.Bears key token) : w.Bears key token ∨ written token := by
  obtain ⟨e, he, ht⟩ := id hb
  cases h with
  | fade h =>
    left
    cases h key hkey with
    | same h =>
      rw [h] at he
      exact ⟨e, he, ht⟩
    | gone h =>
      rw [h] at he
      cases he
    | kept hc h =>
      rw [h.eq_of_bears hb]
      exact hc.bears
  | @write key' token' deadline hw h hothers =>
    by_cases heq : key = key'
    · subst heq
      rw [h.eq_of_bears hb]
      exact .inr hw
    · rw [hothers key heq] at he
      exact .inl ⟨e, he, ht⟩

/-- A value that is over does not come back to life. -/
theorem carries_before (h : Rewrites keys written w w') (hkey : keys key) (hnow : w.now ≤ w'.now)
    (hc : w'.Carries key token) : w.Carries key token ∨ written token := by
  cases h with
  | fade h =>
    left
    cases h key hkey with
    | same h => exact hc.earlier h hnow
    | gone h => exact absurd hc (World.not_carries_of_find? h token)
    | kept hc' h =>
      rw [h.eq_of_carries hc]
      exact hc'
  | @write key' token' deadline hw h hothers =>
    by_cases heq : key = key'
    · subst heq
      rw [h.eq_of_carries hc]
      exact .inr hw
    · exact .inl (hc.earlier (hothers key heq) hnow)

/-- A token that comes under two keys was under one of them before. -/
theorem bears_one (h : Rewrites keys written w w') (hkey : keys key) (hne : key ≠ key')
    (hb : w'.Bears key token) (hb' : w'.Bears key' token) :
    w.Bears key token ∨ w.Bears key' token := by
  obtain ⟨e, he, ht⟩ := id hb
  obtain ⟨e', he', ht'⟩ := id hb'
  cases h with
  | fade h =>
    have hnone : Rewrites keys (fun _ => False) w w' := .fade h
    left
    exact (hnone.bears_before hkey hb).resolve_right id
  | @write key₀ token' deadline hw h hothers =>
    by_cases heq : key = key₀
    · have hne' : key' ≠ key₀ := by
        rw [← heq]
        exact hne.symm
      rw [hothers key' hne'] at he'
      exact .inr ⟨e', he', ht'⟩
    · rw [hothers key heq] at he
      exact .inl ⟨e, he, ht⟩

end Rewrites

/-! ## Deeds -/

namespace Deed

variable {w w' : World} {o : Operation} {s s' : Phase} {x : Exchange}

/-- A lock operation writes the token that it has minted, and nothing else. -/
theorem rewrites (h : Deed w o s x w' s') (keys : String → Prop) :
    Rewrites keys (fun token => s.pending? = some token ∧ s'.pending? = none) w w' := by
  cases h with
  | other ha hx =>
    refine .fade fun key _ => .same ?_
    rw [ha.keyspace]
  | @write lock token ho conn clock sharded ks b hks =>
    have hfind := Keyspace.find?_of_set hks
    cases b with
    | true =>
      have hst : (w.withKeyspace ks).Stores (lockKey lock) token (w.now + o.ttl) :=
        (hfind (lockKey lock)).trans (if_pos ⟨rfl, rfl⟩)
      refine .write ⟨rfl, rfl⟩ hst ?_
      intro key hne
      exact (hfind key).trans (if_neg fun heq => hne heq.1)
    | false =>
      refine .fade fun key _ => .same ?_
      exact (hfind key).trans (if_neg fun heq => nomatch heq.2)
  | @delete lock token s ho conn hs ks b hks =>
    refine .fade fun key _ => ?_
    have hfind := Keyspace.find?_of_compareAndDelete hks key
    by_cases hb : key = lockKey lock ∧ b = true
    · rw [if_pos hb] at hfind
      exact .gone hfind
    · rw [if_neg hb] at hfind
      exact .same hfind
  | @expire lock token ttl ho conn hpos ks b hks =>
    refine .fade fun key _ => ?_
    have hfind := Keyspace.find?_of_compareAndExpire hks key
    by_cases hb : key = lockKey lock ∧ b = true
    · rw [if_pos hb] at hfind
      obtain ⟨rfl, rfl⟩ := hb
      have hc : w.Carries (lockKey lock) token :=
        Keyspace.compareAndExpire_snd.1 (congrArg Prod.snd hks)
      exact .kept hc hfind
    · rw [if_neg hb] at hfind
      exact .same hfind
  | _ => exact .fade fun _ _ => .same rfl

/-- A token becomes pending when it is minted. -/
theorem pending?_eq (h : Deed w o s x w' s') :
    s'.pending? = s.pending? ∨ s'.pending? = none ∨
      s'.pending? = some (Token.ofSerial w.nextToken) ∧ w.nextToken < w'.nextToken := by
  cases h with
  | clock s =>
    cases s with
    | written token since sharded =>
      left
      by_cases hlt : w.now - since < o.ttl
      · rw [Phase.afterClock_inTime token sharded hlt]
        rfl
      · rw [Phase.afterClock_late token sharded hlt]
        rfl
    | _ => exact .inl rfl
  | deployment s => cases s <;> exact .inl rfl
  | mint ho clock => exact .inr (.inr ⟨rfl, Nat.lt_succ_self _⟩)
  | @look p lock ho clock => cases w.heldBy p lock <;> exact .inl rfl
  | @write lock token ho conn clock sharded ks b hks => cases b <;> exact .inr (.inl rfl)
  | delete ho conn hs hks =>
    rcases hs with ⟨rfl, -⟩ | ⟨since, sharded, rfl⟩ | ⟨sharded, rfl⟩ <;> exact .inl rfl
  | @expire lock token ttl ho conn hpos ks b hks => cases b <;> exact .inl rfl
  | _ => exact .inl rfl

end Deed

/-! ## Steps of threads -/

/-- What a step of a thread comes to, as far as tokens to be written are concerned. -/
structure Thread.Passes (w : World) (th : Thread X) (ev : Event) (w' : World)
    (th' : Option (Thread X)) : Prop where
  now : w.now ≤ w'.now
  nextToken : w.nextToken ≤ w'.nextToken
  /-- Only the next token becomes pending. -/
  pending : ∀ t ∈ th', ∀ token, t.pending? = some token → th.pending? = some token ∨
    token = Token.ofSerial w.nextToken ∧ w.nextToken < w'.nextToken
  /-- Only a pending token is written, and it is pending no longer. -/
  keys : Rewrites (fun key => ev.IsForeign → ∃ lock, key = lockKey lock)
    (fun token => th.pending? = some token ∧ ∀ t ∈ th', t.pending? = none) w w'

namespace Thread

variable {w w' : World} {ev : Event} {th : Thread X} {th' : Option (Thread X)}

/-- A step that writes no token under a lock key and leaves no token pending. -/
theorem Passes.idle (hnow : w.now ≤ w'.now) (hnext : w.nextToken ≤ w'.nextToken)
    (hpending : ∀ t ∈ th', t.pending? = none)
    (hkeys : ∀ key, (ev.IsForeign → ∃ lock, key = lockKey lock) →
      w'.store.keyspace.find? key = w.store.keyspace.find? key) :
    Passes w th ev w' th' where
  now := hnow
  nextToken := hnext
  pending := by
    intro t ht token hp
    rw [hpending t ht] at hp
    cases hp
  keys := .fade fun key hkey => .same (hkeys key hkey)

theorem Passes.work {o : Operation} {log : List Exchange} {t t' : Task X o.Answer}
    {next : o.Answer → Client X Unit} {x : Exchange} (hs : t.step w = .moved w' t')
    (hx : t.exchange? w = some x) (hafter : o.program.After log t.program)
    (hforeign : ¬ o.IsLock → ∀ lock, w'.store.keyspace.find? (lockKey lock) =
      w.store.keyspace.find? (lockKey lock)) :
    Passes w (inside o log t next) (.did o x) w' (some (inside o (log ++ [x]) t' next)) := by
  obtain ⟨k, hp, -, hanswer, rfl⟩ := Task.step_eq_moved hs hx
  have hw' : w' = (w.answer t.wait x.effect).1 := congrArg Prod.fst hanswer
  have hnow : w.now ≤ w'.now := by
    rw [hw']
    exact Nat.le_of_eq (w.answer_now ..).symm
  have hnext : w.nextToken ≤ w'.nextToken := by
    rw [hw']
    exact w.answer_nextToken_le ..
  by_cases ho : o.IsLock
  · rw [hp] at hafter
    have hd : Deed w o (o.phase log) x w' (o.phase (log ++ [x])) := by
      rw [Operation.phase_concat]
      exact .of_answer ((o.obeys ho).permits hafter) hanswer
    refine ⟨hnow, hnext, ?_, ?_⟩
    · rintro _ ⟨⟩ token htoken
      rw [pending?_inside ho] at htoken ⊢
      rcases hd.pending?_eq with heq | heq | ⟨heq, hlt⟩
      · rw [heq] at htoken
        exact .inl htoken
      · rw [heq] at htoken
        cases htoken
      · rw [heq] at htoken
        exact .inr ⟨(Option.some.inj htoken).symm, hlt⟩
    · refine (hd.rewrites fun _ => True).mono (fun _ _ => trivial) ?_
      rintro token ⟨hpending, hnone⟩
      refine ⟨?_, ?_⟩
      · rw [pending?_inside ho]
        exact hpending
      · rintro _ ⟨⟩
        rw [pending?_inside ho]
        exact hnone
  · have howner : o.owner? = none := Option.not_isSome_iff_eq_none.1 ho
    refine .idle hnow hnext ?_ ?_
    · rintro _ ⟨⟩
      simp [pending?, howner]
    · intro key hkey
      obtain ⟨lock, rfl⟩ := hkey ho
      exact hforeign ho lock

/-- Where nobody else writes lock keys, steps come to what they may. -/
theorem Step.passes (h : th.Step w ev w' th')
    (hafter : ∀ o log (t : Task X o.Answer) next, th = .inside o log t next →
      o.program.After log t.program)
    (hkeys : ev.IsForeign → ∀ lock, w'.store.keyspace.find? (lockKey lock) =
      w.store.keyspace.find? (lockKey lock)) : Passes w th ev w' th' := by
  have hbetween : ∀ t : Task (client X) Unit, ∀ t' ∈ some (between t), t'.pending? = none := by
    rintro t _ ⟨⟩
    rfl
  cases h with
  | perform hs hx =>
    obtain ⟨k, -, -, hanswer, -⟩ := Task.step_eq_moved hs hx
    have hw' := congrArg Prod.fst hanswer
    subst hw'
    refine .idle (Nat.le_of_eq (w.answer_now ..).symm) (w.answer_nextToken_le ..) (hbetween _) ?_
    intro key hkey
    obtain ⟨lock, rfl⟩ := hkey trivial
    exact hkeys trivial lock
  | rest hs =>
    have ha := Task.alike_of_waits hs
    refine .idle (Nat.le_of_eq ha.now.symm) (Nat.le_of_eq ha.nextToken.symm) (hbetween _) ?_
    intro key _
    rw [ha.keyspace]
  | hear hs r => exact .idle (Nat.le_refl _) (Nat.le_refl _) (hbetween _) fun _ _ => rfl
  | finish hs => exact .idle (Nat.le_refl _) (Nat.le_refl _) (fun _ ht => nomatch ht) fun _ _ => rfl
  | @call t o next hs ho =>
    refine .idle (Nat.le_refl _) (Nat.le_refl _) ?_ fun _ _ => rfl
    rintro _ ⟨⟩
    -- an operation that is called has not minted anything
    have hstart : (o.phase []).pending? = none := by
      cases o <;> rfl
    simp only [pending?, hstart]
    cases o.owner? <;> rfl
  | work hs hx => exact .work hs hx (hafter _ _ _ _ rfl) hkeys
  | @await o log t t' next w' hs =>
    have ha := Task.alike_of_waits hs
    refine ⟨Nat.le_of_eq ha.now.symm, Nat.le_of_eq ha.nextToken.symm, ?_, ?_⟩
    · rintro _ ⟨⟩ token htoken
      exact .inl htoken
    · refine .fade fun key _ => .same ?_
      rw [ha.keyspace]
  | «return» hs => exact .idle (Nat.le_refl _) (Nat.le_refl _) (hbetween _) fun _ _ => rfl

end Thread

/-! ## Machines -/

namespace Machine

variable {mode : Scheduling} {tr tr' : List Event} {s s' : Machine X} {ev : Event} {lock : String}
  {token : Token}

/-- A step of a machine in which nobody but lock operations writes lock keys. -/
structure KeyStep (mode : Scheduling) (s : Machine X) (ev : Event) (s' : Machine X) : Prop where
  step : Step mode s ev s'
  keys : ev.IsForeign → ∀ lock, s'.world.store.keyspace.find? (lockKey lock) =
    s.world.store.keyspace.find? (lockKey lock)

/-- A step in which nobody else touches locks is one in which nobody else writes lock keys. -/
theorem LockStep.keyStep (h : s.LockStep mode ev s') : s.KeyStep mode ev s' where
  step := h.step
  keys := by
    intro hev lock
    rcases (h.spares hev).keys (lockKey lock) with hsame | ⟨hno, -⟩
    · exact hsame
    · exact absurd rfl (hno lock)

/-- The tokens that lock operations on their way may write. -/
def pending (s : Machine X) : List Token := s.threads.filterMap Thread.pending?

/-- A token that was used up, and that no operation is about to write. -/
def Spent (s : Machine X) (token : Token) : Prop :=
  (∀ n, token = Token.ofSerial n → n < s.world.nextToken) ∧ token ∉ s.pending

/-- Tokens are minted one after the other and written once. -/
structure Minting (s : Machine X) : Prop where
  serial : ∀ token ∈ s.pending, ∃ n < s.world.nextToken, token = Token.ofSerial n
  distinct : s.pending.Nodup
  spent : ∀ lock token, s.world.Bears (lockKey lock) token → s.Spent token
  /-- Two lock keys do not have the same token. -/
  unique : ∀ lock lock' token, s.world.Bears (lockKey lock) token →
    s.world.Bears (lockKey lock') token → lock = lock'

/-- What a step of a machine comes to, as far as tokens to be written are concerned. -/
structure Passes (s : Machine X) (ev : Event) (s' : Machine X) : Prop where
  now : s.world.now ≤ s'.world.now
  nextToken : s.world.nextToken ≤ s'.world.nextToken
  pending : ∀ token ∈ s'.pending, token ∈ s.pending ∨
    token = Token.ofSerial s.world.nextToken ∧ s.world.nextToken < s'.world.nextToken
  distinct : s'.pending.Nodup
  keys : Rewrites (fun key => ev.IsForeign → ∃ lock, key = lockKey lock)
    (fun token => token ∈ s.pending ∧ token ∉ s'.pending) s.world s'.world

theorem Passes.idle (hdistinct : s.pending.Nodup) (hnow : s.world.now ≤ s'.world.now)
    (hnext : s'.world.nextToken = s.world.nextToken) (hpending : s'.pending.Sublist s.pending)
    (hkeys : ∀ key, Fades s.world s'.world key) : Passes s ev s' where
  now := hnow
  nextToken := Nat.le_of_eq hnext.symm
  pending := by
    intro token htoken
    exact .inl (hpending.subset htoken)
  distinct := hdistinct.sublist hpending
  keys := .fade fun key _ => hkeys key

/-- The tokens pending in all threads but one, and in that one. -/
theorem mem_pending_middle {w : World} {pre post : List (Thread X)} {th? : Option (Thread X)}
    {token : Token} :
    token ∈ (⟨w, pre ++ th?.toList ++ post⟩ : Machine X).pending ↔
      (∃ t ∈ th?, t.pending? = some token) ∨ token ∈ (pre ++ post).filterMap Thread.pending? := by
  cases th? with
  | none => simp [Machine.pending]
  | some th =>
    simp only [Machine.pending, Option.toList_some, List.append_assoc, List.singleton_append,
      List.filterMap_append, List.filterMap_cons, List.mem_append, Option.mem_some_iff]
    cases hp : th.pending? with
    | none => simp [hp]
    | some token' =>
      simp only [List.mem_cons, exists_eq_left', hp, Option.some.injEq]
      grind

theorem Minting.thread {w w' : World} {pre post : List (Thread X)} {th : Thread X}
    {th' : Option (Thread X)} (h : Minting ⟨w, pre ++ th :: post⟩)
    (hth : th.Passes w ev w' th') :
    Passes ⟨w, pre ++ th :: post⟩ ev ⟨w', pre ++ th'.toList ++ post⟩ := by
  have hbefore : ∀ token, token ∈ (⟨w, pre ++ th :: post⟩ : Machine X).pending ↔
      th.pending? = some token ∨ token ∈ (pre ++ post).filterMap Thread.pending? := by
    intro token
    have hmem : token ∈ (⟨w, pre ++ (some th).toList ++ post⟩ : Machine X).pending ↔
        (∃ t ∈ some th, t.pending? = some token) ∨
          token ∈ (pre ++ post).filterMap Thread.pending? := mem_pending_middle
    simpa using hmem
  obtain ⟨hnodup, hown⟩ := nodup_filterMap_middle.1 h.distinct
  -- the next token is not pending anywhere
  have hfresh : Token.ofSerial w.nextToken ∉ (pre ++ post).filterMap Thread.pending? := by
    intro hmem
    obtain ⟨n, hlt, hn⟩ := h.serial _ ((hbefore _).2 (.inr hmem))
    have heq := Token.ofSerial_inj.1 hn
    exact absurd hlt (by rw [heq]; exact Nat.lt_irrefl n)
  refine ⟨hth.now, hth.nextToken, ?_, ?_, ?_⟩
  · intro token htoken
    rw [hbefore]
    rcases mem_pending_middle.1 htoken with ⟨t, ht, hp⟩ | hrest
    · rcases hth.pending t ht token hp with hp | hnew
      · exact .inl (.inl hp)
      · exact .inr hnew
    · exact .inl (.inr hrest)
  · cases th' with
    | none =>
      have heq : pre ++ (none : Option (Thread X)).toList ++ post = pre ++ post := by simp
      unfold Machine.pending
      rw [heq]
      exact hnodup
    | some t =>
      have heq : pre ++ (some t).toList ++ post = pre ++ t :: post := by simp
      unfold Machine.pending
      rw [heq, nodup_filterMap_middle]
      refine ⟨hnodup, ?_⟩
      intro token hp hmem
      rcases hth.pending t rfl token hp with hp | ⟨rfl, -⟩
      · exact hown token hp hmem
      · exact hfresh hmem
  · refine hth.keys.mono (fun _ hkey => hkey) ?_
    rintro token ⟨hp, hnone⟩
    refine ⟨(hbefore token).2 (.inl hp), ?_⟩
    intro hmem
    rcases mem_pending_middle.1 hmem with ⟨t, ht, hp'⟩ | hrest
    · rw [hnone t ht] at hp'
      cases hp'
    · exact hown token hp hrest

theorem Minting.passes (h : s.Minting) (hlog : s.Logged tr) (hs : s.KeyStep mode ev s') :
    Passes s ev s' := by
  obtain ⟨hstep, hkeys⟩ := hs
  cases hstep with
  | @thread w w' pre post th th' ev hm hth =>
    have hmem : th ∈ pre ++ th :: post := List.mem_append_right _ List.mem_cons_self
    refine h.thread (hth.passes ?_ hkeys)
    rintro o log t next rfl
    exact (hlog o log t next hmem).1
  | start c =>
    refine .idle h.distinct (Nat.le_refl _) rfl ?_ fun _ => .same rfl
    simp [pending, Thread.pending?]
  | @drop w pre post th runtime hsuspended =>
    have hforgets := th.drop_forgets w
    refine .idle h.distinct (Nat.le_of_eq hforgets.now.symm) hforgets.nextToken ?_ ?_
    · have hnone : (if runtime then (Task.forsaken w th.guards).map (Thread.deletion (X := X))
          else []).filterMap Thread.pending? = [] := by
        cases runtime with
        | true =>
          simp [Thread.pending?, Thread.deletion, Operation.start, Phase.pending?]
        | false => rfl
      unfold pending
      rw [List.filterMap_append, hnone, List.append_nil]
      exact ((List.Sublist.refl pre).append (List.sublist_cons_self th post)).filterMap _
    · intro key
      exact .same (by rw [hforgets.keyspace])
  | purge =>
    refine .idle h.distinct (Nat.le_refl _) rfl (List.Sublist.refl _) ?_
    intro key
    have hfind := Keyspace.find?_purge s.world.store.keyspace s.world.now key
    cases hlive : s.world.store.keyspace.live? s.world.now key with
    | none => exact .gone (hfind.trans hlive)
    | some e =>
      rw [hlive] at hfind
      exact .same (hfind.trans (Keyspace.live?_eq_some.1 hlive).1.symm)
  | elapse ms hs =>
    exact .idle h.distinct (Nat.le_add_right _ _) rfl (List.Sublist.refl _) fun _ => .same rfl
  | configure d hd =>
    exact .idle h.distinct (Nat.le_refl _) rfl (List.Sublist.refl _) fun _ => .same rfl

/-- A token that is spent stays so. -/
theorem Spent.step (h : s.Spent token) (hp : Passes s ev s') : s'.Spent token := by
  obtain ⟨hused, hnot⟩ := h
  refine ⟨?_, ?_⟩
  · intro n hn
    exact Nat.lt_of_lt_of_le (hused n hn) hp.nextToken
  · intro hmem
    rcases hp.pending token hmem with hmem | ⟨hn, -⟩
    · exact hnot hmem
    · exact absurd (hused _ hn) (Nat.lt_irrefl _)

theorem Minting.step (h : s.Minting) (hp : Passes s ev s') : s'.Minting := by
  have hbears : ∀ lock token, s'.world.Bears (lockKey lock) token →
      s.world.Bears (lockKey lock) token ∨ token ∈ s.pending ∧ token ∉ s'.pending := by
    intro lock token hb
    exact hp.keys.bears_before (fun _ => ⟨lock, rfl⟩) hb
  refine ⟨?_, hp.distinct, ?_, ?_⟩
  · intro token htoken
    rcases hp.pending token htoken with hmem | ⟨rfl, hlt⟩
    · obtain ⟨n, hlt, hn⟩ := h.serial token hmem
      exact ⟨n, Nat.lt_of_lt_of_le hlt hp.nextToken, hn⟩
    · exact ⟨_, hlt, rfl⟩
  · intro lock token hb
    rcases hbears lock token hb with hb | ⟨hmem, hnot⟩
    · exact (h.spent lock token hb).step hp
    · refine ⟨?_, hnot⟩
      intro n hn
      obtain ⟨n', hlt, hn'⟩ := h.serial token hmem
      have heq : n = n' := Token.ofSerial_inj.1 (hn.symm.trans hn')
      rw [heq]
      exact Nat.lt_of_lt_of_le hlt hp.nextToken
  · intro lock lock' token hb hb'
    -- the token was under one of the keys, so it is not written under the other one
    refine Decidable.byContradiction fun hdiffer => ?_
    have hne : lockKey lock ≠ lockKey lock' := fun heq => hdiffer (lockKey_inj.1 heq)
    have hspent : s.Spent token := by
      rcases hp.keys.bears_one (fun _ => ⟨lock, rfl⟩) hne hb hb' with
        hb | hb
      · exact h.spent lock token hb
      · exact h.spent lock' token hb
    have hb := (hbears lock token hb).resolve_right fun hmem => hspent.2 hmem.1
    have hb' := (hbears lock' token hb').resolve_right fun hmem => hspent.2 hmem.1
    exact hdiffer (h.unique lock lock' token hb hb')

/-- Before anything has happened no token is pending. -/
theorem minting_of_vacant (hthreads : s.threads = [])
    (hkeys : ∀ lock, s.world.store.keyspace.find? (lockKey lock) = none) : s.Minting := by
  have hnone : s.pending = [] := by
    unfold pending
    rw [hthreads]
    rfl
  have hno : ∀ lock token, ¬ s.world.Bears (lockKey lock) token := by
    rintro lock token ⟨e, he, -⟩
    rw [hkeys] at he
    cases he
  refine ⟨?_, ?_, ?_, ?_⟩
  · rw [hnone]
    exact fun _ hmem => nomatch hmem
  · rw [hnone]
    exact List.nodup_nil
  · exact fun lock token hb => absurd hb (hno lock token)
  · exact fun lock _ token hb => absurd hb (hno lock token)

theorem Minting.run (h : s.Minting) (hlog : s.Logged tr) (hr : Run (KeyStep mode) s tr' s') :
    s'.Minting := by
  induction hr with
  | nil => exact h
  | snoc hr hs ih => exact ih.step (ih.passes (hlog.run (hr.mono KeyStep.step)) hs)

theorem minting_of_run {s₀ : Machine X} (hthreads : s₀.threads = [])
    (hvacant : ∀ lock, s₀.world.store.keyspace.find? (lockKey lock) = none)
    (h : Run (KeyStep mode) s₀ tr s) : s.Logged tr ∧ s.Minting := by
  have hlogged : ∀ {tr s}, Run (KeyStep mode) s₀ tr s → s.Logged tr :=
    fun h => logged_of_run hthreads (h.mono KeyStep.step)
  exact ⟨hlogged h, (minting_of_vacant hthreads hvacant).run (hlogged .nil) h⟩

/-- A token that is spent stays so, and comes under no lock key where it was not. -/
theorem Spent.run (hspent : s.Spent token) (h : s.Minting) (hlog : s.Logged tr)
    (hr : Run (KeyStep mode) s tr' s') : s'.Spent token ∧ s.world.now ≤ s'.world.now ∧
      ∀ lock, (s'.world.Bears (lockKey lock) token → s.world.Bears (lockKey lock) token) ∧
        (s'.world.Carries (lockKey lock) token → s.world.Carries (lockKey lock) token) := by
  induction hr with
  | nil => exact ⟨hspent, Nat.le_refl _, fun _ => ⟨id, id⟩⟩
  | @snoc tr' s₁ s₂ ev hr hs ih =>
    obtain ⟨hspent₁, hnow, hkeys⟩ := ih
    have hp := (h.run hlog hr).passes (hlog.run (hr.mono KeyStep.step)) hs
    refine ⟨hspent₁.step hp, Nat.le_trans hnow hp.now, ?_⟩
    intro lock
    have hlock : ev.IsForeign → ∃ lock', lockKey lock = lockKey lock' := fun _ => ⟨lock, rfl⟩
    constructor
    · intro hb
      rcases hp.keys.bears_before hlock hb with hb | ⟨hmem, -⟩
      · exact (hkeys lock).1 hb
      · exact absurd hmem hspent₁.2
    · intro hc
      rcases hp.keys.carries_before hlock hp.now hc with hc | ⟨hmem, -⟩
      · exact (hkeys lock).2 hc
      · exact absurd hmem hspent₁.2

/-- A lost token never comes back, in every run of any clients in which nobody but lock operations
writes lock keys.

Once the key of a lock has had a token as its value and has it no longer, neither this nor another
lock key has it ever again, and no step but one of somebody else makes it the value of any key. -/
theorem lost_tokens_stay_lost {s₀ s₁ s₂ s₃ : Machine X} {tr₁ tr₂ tr₃ : List Event}
    (hthreads : s₀.threads = [])
    (hvacant : ∀ lock, s₀.world.store.keyspace.find? (lockKey lock) = none)
    (h₁ : Run (KeyStep mode) s₀ tr₁ s₁) (hc : s₁.world.Carries (lockKey lock) token)
    (h₂ : Run (KeyStep mode) s₁ tr₂ s₂) (hlost : ¬ s₂.world.Carries (lockKey lock) token)
    (h₃ : Run (KeyStep mode) s₂ tr₃ s₃) :
    (∀ lock', ¬ s₃.world.Carries (lockKey lock') token) ∧
      ∀ {ev : Event} {s₄ : Machine X} {key : String}, s₃.KeyStep mode ev s₄ → ¬ ev.IsForeign →
        s₄.world.Carries key token → s₃.world.Carries key token := by
  obtain ⟨hlog₁, hm₁⟩ := minting_of_run hthreads hvacant h₁
  obtain ⟨hlog₂, hm₂⟩ := minting_of_run hthreads hvacant (h₁.append h₂)
  obtain ⟨hlog₃, hm₃⟩ := minting_of_run hthreads hvacant ((h₁.append h₂).append h₃)
  have hspent₁ : s₁.Spent token := hm₁.spent lock token hc.bears
  obtain ⟨hspent₂, -, hkeys₂⟩ := hspent₁.run hm₁ hlog₁ h₂
  obtain ⟨hspent₃, -, hkeys₃⟩ := hspent₂.run hm₂ hlog₂ h₃
  constructor
  · intro lock' hc'
    have hc₂ := (hkeys₃ lock').2 hc'
    -- no other lock key had the token when this one had it
    obtain rfl : lock' = lock :=
      hm₁.unique lock' lock token ((hkeys₂ lock').1 hc₂.bears) hc.bears
    exact hlost hc₂
  · intro ev s₄ key hs hev hc'
    have hp := hm₃.passes hlog₃ hs
    have hkey : ev.IsForeign → ∃ lock', key = lockKey lock' := fun hforeign => absurd hforeign hev
    rcases hp.keys.carries_before hkey hp.now hc' with hc' | ⟨hmem, -⟩
    · exact hc'
    · exact absurd hmem hspent₃.2

/-- A context has acquired a lock for 20 milliseconds. When they are over its token is lost, also
after another context has acquired the lock. -/
theorem lost_tokens_stay_lost_lapsed :
    ∃ (s₀ s₁ s₂ s₃ : Machine Extension.none) (tr₁ tr₂ tr₃ : List Event) (token : Token),
      s₀.threads = [] ∧ (∀ lock, s₀.world.store.keyspace.find? (lockKey lock) = none) ∧
      Run (KeyStep .cooperative) s₀ tr₁ s₁ ∧ s₁.world.Carries (lockKey "L") token ∧
      Run (KeyStep .cooperative) s₁ tr₂ s₂ ∧ ¬ s₂.world.Carries (lockKey "L") token ∧
      Run (KeyStep .cooperative) s₂ tr₃ s₃ ∧
      (s₃.world.store.keyspace.live? s₃.world.now (lockKey "L")).isSome ∧
      ∀ lock, ¬ s₃.world.Carries (lockKey lock) token := by
  have hpos : 0 < 20 := by decide
  have hgone : World.fresh.store.keyspace.live? World.fresh.now (lockKey "L") = none := rfl
  have hcall : ∀ (w : World) (ctx : Context), w.Ready →
      w.store.keyspace.live? w.now (lockKey "L") = none →
      ∃ tr, Run (KeyStep (X := .none) .cooperative) ⟨w, []⟩ tr
        ⟨((({} : Manager).acquire ctx "L" 20 0).run.runOn w).1, []⟩ := by
    intro w ctx hready hgone
    obtain ⟨tr, h⟩ := @run_runOn .cooperative (.acquire {} ctx "L" 20 0) rfl trivial w _
      (Manager.acquire_ensures hready {} ctx 0 hpos hgone)
    exact ⟨tr, h.mono LockStep.keyStep⟩
  obtain ⟨tr₁, h₁⟩ := hcall World.fresh "a" World.fresh_ready hgone
  obtain ⟨tr₃, h₃⟩ := hcall World.lapsed "b" World.lapsed_ready World.lapsed_gone
  have htime : Step .cooperative (⟨_, []⟩ : Machine Extension.none) (.elapsed 20)
      ⟨World.lapsed, []⟩ := .elapse 20 fun _ hmem => nomatch hmem
  have h₂ : Run (KeyStep .cooperative) _ [.elapsed 20] (⟨World.lapsed, []⟩ : Machine .none) :=
    .single ⟨htime, fun hforeign => hforeign.elim⟩
  have hc : ((({} : Manager).acquire "a" "L" 20 0).run.runOn World.fresh).1.Carries (lockKey "L")
      (Token.ofSerial 0) := by
    refine (Option.any_eq_true _ _).1 ?_
    decide +kernel
  have hlost := World.not_carries_of_live? World.lapsed_gone (Token.ofSerial 0)
  let w₃ := ((({} : Manager).acquire "b" "L" 20 0).run.runOn World.lapsed).1
  have hlive : (w₃.store.keyspace.live? w₃.now (lockKey "L")).isSome := by decide +kernel
  have hvacant : ∀ lock, World.fresh.store.keyspace.find? (lockKey lock) = none := fun _ => rfl
  obtain ⟨hnever, -⟩ := lost_tokens_stay_lost (X := .none) rfl hvacant h₁ hc h₂ hlost h₃
  exact ⟨_, _, _, _, tr₁, _, tr₃, _, rfl, hvacant, h₁, hc, h₂, hlost, h₃, hlive, hnever⟩

end Machine

end Latchkey
