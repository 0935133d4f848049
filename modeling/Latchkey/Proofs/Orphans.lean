import Latchkey.Proofs.Invariant

/-!
# Orphans

A token that was minted, that no registry lists and that no operation on its way knows is an orphan.
It stays one: operations learn tokens from registries or mint new ones. So nobody deletes or
refreshes the key that has it, and nobody writes it.

The main statements are `Machine.Lawful.turn`, what a step comes to for all threads, and
`Machine.Orphaned.lasts`, that an orphan stays under its key exactly as long as it was stored for.
-/

namespace Latchkey

variable {X : Extension}

/-! ## Values with a known deadline -/

/-- The key of a lock has a token until a deadline, and no key has it afterwards. -/
structure World.Lasts (w : World) (lock : String) (token : Token) (deadline : Nat) : Prop where
  stored : w.now < deadline → w.Stores (lockKey lock) token deadline
  gone : deadline ≤ w.now → ∀ key, ¬ w.Carries key token

/-- A token that is stored for its lock is nowhere else. -/
theorem World.Stores.lasts {tr : List Event} {w : World} {p : Owner} {lock : String} {token : Token}
    {deadline : Nat} (h : w.Stores (lockKey lock) token deadline) (hw : w.Lawful tr)
    (hm : MintedFor tr p lock token) : w.Lasts lock token deadline where
  stored := fun _ => h
  gone := by
    intro hover key hc
    obtain rfl := hw.key_of_carries hm hc
    exact h.not_carries hover token hc

namespace World.Lasts

variable {tr : List Event} {own : Option Token} {w w' : World} {ev : Event} {p : Owner}
  {lock : String} {token : Token} {deadline : Nat}

theorem carries_iff (h : w.Lasts lock token deadline) (hw : w.Lawful tr)
    (hm : MintedFor tr p lock token) (key : String) :
    w.Carries key token ↔ key = lockKey lock ∧ w.now < deadline := by
  constructor
  · intro hc
    refine ⟨hw.key_of_carries hm hc, Nat.lt_of_not_le fun hle => ?_⟩
    exact h.gone hle key hc
  · rintro ⟨rfl, hlive⟩
    exact (h.stored hlive).carries hlive

theorem alike (h : w.Lasts lock token deadline) (hnow : w'.now = w.now)
    (hkeyspace : w'.store.keyspace = w.store.keyspace) : w'.Lasts lock token deadline where
  stored := by
    rw [hnow, Stores, hkeyspace]
    exact h.stored
  gone := by
    simp only [hnow, Carries, hkeyspace]
    exact h.gone

/-- A token that the stepping operation does not know stays as long as it was stored for. -/
theorem keyChange (h : w.Lasts lock token deadline) (hw : w.Lawful tr)
    (hm : MintedFor tr p lock token) (hkey : ∀ key, KeyChange tr own w ev w' key)
    (hown : own ≠ some token) (hrec : ¬ Recorded tr token) (hnow : w.now ≤ w'.now) :
    w'.Lasts lock token deadline := by
  have hstored : w.now < deadline → w'.Stores (lockKey lock) token deadline := fun hlive =>
    (hkey _).stores_after hrec hown (h.stored hlive) hlive
  refine ⟨fun hlive => hstored (Nat.lt_of_le_of_lt hnow hlive), fun hover key hc => ?_⟩
  obtain ⟨n, -, rfl⟩ := hw.serial p lock token hm
  rcases (hkey key).carries_before hnow hc with hbefore | heq
  · obtain ⟨rfl, hlive⟩ := (h.carries_iff hw hm key).1 hbefore
    exact (hstored hlive).not_carries hover _ hc
  · exact hown heq

end World.Lasts

/-! ## Turns -/

namespace Machine

variable {mode : Scheduling} {tr tr' : List Event} {s s' : Machine X} {ev : Event}
  {own : Option Token} {token : Token}

/-- The tokens that single threads know. -/
def secrets (s : Machine X) : List Token := s.threads.filterMap Thread.secret?

/-- What a step comes to for all threads, given the token that only the stepping thread knows. -/
structure Turn (tr : List Event) (own : Option Token) (s : Machine X) (ev : Event)
    (s' : Machine X) : Prop where
  /-- Keys change as they may. -/
  key : ∀ key, KeyChange tr own s.world ev s'.world key
  now : s.world.now ≤ s'.world.now
  known : ∀ token, own = some token → token ∈ s.secrets
  /-- A new secret is the next token. -/
  secret : ∀ token ∈ s'.secrets, token ∈ s.secrets ∨ token = Token.ofSerial s.world.nextToken
  /-- What is recorded was a secret. -/
  recorded : ∀ token, Recorded (tr ++ [ev]) token → Recorded tr token ∨ token ∈ s.secrets
  /-- A thread was there and has a secret that is not known to the stepping thread, or has taken the
  step, or has just begun. -/
  threads : ∀ th ∈ s'.threads,
    (th ∈ s.threads ∧ ∀ token, th.secret? = some token → own ≠ some token) ∨
    (∃ th₀ ∈ s.threads, th₀.Step s.world ev s'.world (some th)) ∨
    (∃ c, th = .between { program := c }) ∨ ∃ d, th = .deletion d

/-- A step that is none of a thread. -/
theorem Turn.quiet (hev : ∀ o x, ev ≠ .did o x)
    (hkey : ∀ key, KeyChange tr none s.world ev s'.world key)
    (hnow : s.world.now ≤ s'.world.now)
    (hthreads : ∀ th ∈ s'.threads, th ∈ s.threads ∨
      (∃ c, th = .between { program := c }) ∨ ∃ d, th = .deletion d) :
    Turn tr none s ev s' where
  key := hkey
  now := hnow
  known := fun _ heq => nomatch heq
  secret := by
    intro token hmem
    obtain ⟨th, hth, hsecret⟩ := List.mem_filterMap.1 hmem
    rcases hthreads th hth with hold | ⟨c, rfl⟩ | ⟨d, rfl⟩
    · exact .inl (List.mem_filterMap.2 ⟨th, hold, hsecret⟩)
    · cases hsecret
    · cases hsecret
  recorded := fun _ hrec => .inl (World.recorded_of_not_isDeed (Event.not_isDeed hev) hrec)
  threads := by
    intro th hth
    rcases hthreads th hth with hold | hnew
    · exact .inl ⟨hold, fun _ _ heq => nomatch heq⟩
    · exact .inr (.inr hnew)

/-- What every step comes to. -/
theorem Lawful.turn (h : s.Lawful mode tr) (hs : s.LockStep mode ev s') :
    ∃ own, Turn tr own s ev s' := by
  obtain ⟨hstep, hspares⟩ := hs
  cases hstep with
  | @thread w w' pre post th th' ev hm hth =>
    have hmem : th ∈ pre ++ th :: post := List.mem_append_right _ List.mem_cons_self
    have hout := hth.outcome h.world (h.threads th hmem) hspares
    have hown : ∀ token, th.secret? = some token →
        token ∈ secrets ⟨w, pre ++ th :: post⟩ := fun token hsecret =>
      List.mem_filterMap.2 ⟨th, hmem, hsecret⟩
    have hafter : ∀ t ∈ pre ++ th'.toList ++ post, t ∈ th' ∨ t ∈ pre ++ post := by
      intro t ht
      simp only [List.mem_append, Option.mem_toList] at ht ⊢
      rcases ht with (ht | ht) | ht
      · exact .inr (.inl ht)
      · exact .inl ht
      · exact .inr (.inr ht)
    refine ⟨th.secret?, hout.key, Nat.le_of_eq hout.now.symm, hown, ?_, ?_, ?_⟩
    · intro token htoken
      obtain ⟨t, ht, hsecret⟩ := List.mem_filterMap.1 htoken
      rcases hafter t ht with ht | ht
      · exact (hout.secret t ht token hsecret).imp_left (hown token)
      · exact .inl (List.mem_filterMap.2 ⟨t, mem_middle_of_mem ht, hsecret⟩)
    · intro token hrec
      exact (hout.recorded token hrec).imp_right fun hsecret => hown token hsecret.1
    · intro t ht
      rcases hafter t ht with ht | ht
      · obtain rfl : th' = some t := ht
        exact .inr (.inl ⟨th, hmem, hth⟩)
      · exact .inl ⟨mem_middle_of_mem ht, fun token hsecret => (h.apart t ht token hsecret).1⟩
  | @start w threads c =>
    refine ⟨none, .quiet (fun _ _ heq => nomatch heq) (fun _ => .same rfl) (Nat.le_refl _) ?_⟩
    intro t ht
    rcases List.mem_append.1 ht with ht | ht
    · exact .inl ht
    · exact .inr (.inl ⟨c, List.mem_singleton.1 ht⟩)
  | @drop w pre post th runtime hsuspended =>
    have hforgets := th.drop_forgets w
    refine ⟨none, .quiet (fun _ _ heq => nomatch heq)
      (fun _ => .same (by rw [hforgets.keyspace])) (Nat.le_of_eq hforgets.now.symm) ?_⟩
    intro t ht
    rcases List.mem_append.1 ht with ht | ht
    · exact .inl (mem_middle_of_mem ht)
    · cases runtime with
      | true =>
        obtain ⟨d, -, rfl⟩ := List.mem_map.1 ht
        exact .inr (.inr ⟨d, rfl⟩)
      | false => cases ht
  | purge =>
    exact ⟨none, .quiet (fun _ _ heq => nomatch heq) (.of_purge s.world none) (Nat.le_refl _)
      fun _ ht => .inl ht⟩
  | elapse ms hs =>
    exact ⟨none, .quiet (fun _ _ heq => nomatch heq) (fun _ => .same rfl) (Nat.le_add_right _ _)
      fun _ ht => .inl ht⟩
  | configure d hd =>
    exact ⟨none, .quiet (fun _ _ heq => nomatch heq) (fun _ => .same rfl) (Nat.le_refl _)
      fun _ ht => .inl ht⟩

/-- What holds of the threads of a run: of those that begin and of deletions, of a thread after a
step if it held before, and of the others after this step. -/
theorem threads_of_run {s₀ : Machine X} {P : List Event → World → Thread X → Prop}
    (h₀ : s₀.Initial)
    (hbegins : ∀ tr w c, P tr w (.between { program := c }))
    (hdeletes : ∀ tr w d, P tr w (.deletion d))
    (hsteps : ∀ {tr s ev s' th th'}, Run (LockStep mode) s₀ tr s → s.LockStep mode ev s' →
      th ∈ s.threads → th' ∈ s'.threads → th.Step s.world ev s'.world (some th') →
      P tr s.world th → P (tr ++ [ev]) s'.world th')
    (hkeeps : ∀ {tr s ev s' own th}, Run (LockStep mode) s₀ tr s → Turn tr own s ev s' →
      th ∈ s.threads → (∀ token, th.secret? = some token → own ≠ some token) →
      P tr s.world th → P (tr ++ [ev]) s'.world th)
    (h : Run (LockStep mode) s₀ tr s) : ∀ th ∈ s.threads, P tr s.world th := by
  induction h with
  | nil =>
    intro th hth
    rw [h₀.threads] at hth
    cases hth
  | snoc h hs ih =>
    obtain ⟨own, hturn⟩ := (lawful_of_run h₀ h).turn hs
    intro th hth
    rcases hturn.threads th hth with ⟨hold, hother⟩ | ⟨th₀, hmem, hstep⟩ | ⟨c, rfl⟩ | ⟨d, rfl⟩
    · exact hkeeps h hturn hold hother (ih th hold)
    · exact hsteps h hs hmem hth hstep (ih th₀ hmem)
    · exact hbegins _ _ c
    · exact hdeletes _ _ d

/-! ## Orphans -/

/-- A token that was minted, that was not recorded and that no operation on its way knows. -/
structure Orphaned (tr : List Event) (s : Machine X) (token : Token) : Prop where
  minted : ∃ p lock, MintedFor tr p lock token
  hidden : ¬ Recorded tr token
  unknown : token ∉ s.secrets

namespace Orphaned

variable {lock : String} {deadline : Nat}

/-- Nobody comes to know an orphan. -/
theorem step (h : s.Orphaned tr token) (hl : s.Lawful mode tr) (hs : s.LockStep mode ev s') :
    s'.Orphaned (tr ++ [ev]) token := by
  obtain ⟨own, hturn⟩ := hl.turn hs
  obtain ⟨p, lock, hm⟩ := h.minted
  refine ⟨⟨p, lock, hm.append _⟩, fun hrec => ?_, fun hmem => ?_⟩
  · rcases hturn.recorded token hrec with hrec | hmem
    · exact h.hidden hrec
    · exact h.unknown hmem
  · rcases hturn.secret token hmem with hmem | rfl
    · exact h.unknown hmem
    · obtain ⟨n, hlt, heq⟩ := hl.world.serial p lock _ hm
      obtain rfl := Token.ofSerial_inj.1 heq
      exact absurd hlt (Nat.lt_irrefl _)

theorem run (h : s.Orphaned tr token) (hl : s.Lawful mode tr)
    (hr : Run (LockStep mode) s tr' s') : s'.Orphaned (tr ++ tr') token := by
  induction hr with
  | nil => simpa using h
  | snoc hr hs ih =>
    rw [← List.append_assoc]
    exact ih.step (hl.run hr) hs

/-- An orphan stays under its key as long as it was stored for, and no longer. -/
theorem lasts (h : s.Orphaned tr token) (hl : s.Lawful mode tr) {p : Owner}
    (hm : MintedFor tr p lock token) (hlasts : s.world.Lasts lock token deadline)
    (hr : Run (LockStep mode) s tr' s') : s'.world.Lasts lock token deadline := by
  induction hr with
  | nil => exact hlasts
  | snoc hr hs ih =>
    have horphan := h.run hl hr
    obtain ⟨own, hturn⟩ := (hl.run hr).turn hs
    have hown : own ≠ some token := fun heq => horphan.unknown (hturn.known token heq)
    exact ih.keyChange (hl.run hr).world (hm.append _) hturn.key hown horphan.hidden hturn.now

/-- An orphan that is nowhere comes back nowhere. -/
theorem nowhere (h : s.Orphaned tr token) (hl : s.Lawful mode tr)
    (hnowhere : ∀ key, ¬ s.world.Carries key token) (hr : Run (LockStep mode) s tr' s')
    (key : String) : ¬ s'.world.Carries key token := by
  obtain ⟨p, lock, hm⟩ := h.minted
  -- a value that lasts until time zero is nowhere
  have hlasts : s.world.Lasts lock token 0 :=
    ⟨fun hlt => absurd hlt (Nat.not_lt_zero _), fun _ => hnowhere⟩
  exact (h.lasts hl hm hlasts hr).gone (Nat.zero_le _) key

end Orphaned

end Machine

end Latchkey
