import Latchkey.Proofs.Retries

/-!
# Overrunning a retry budget

An acquisition that tries again looks whether its budget is used up before a pause, not after it. So
its last attempt may begin when the budget is used up, by less than a pause, and succeed. All others
begin in time.

The main statement is `retries_begin_late`.
-/

namespace Latchkey

variable {X : Extension}

/-! ## When attempts begin -/

/-- An attempt begins when the pause after the one before is over. -/
theorem InTurn.began_eq {m : Manager} {ctx : Context} {lock : String} {ttl wait t : Nat}
    {init after : List Attempt} {a b : Attempt}
    (h : InTurn X m ctx lock ttl wait t (init ++ a :: b :: after)) :
    b.began = a.ended + m.settings.pollInterval :=
  (List.isChain_cons_cons.1 h.spaced.right_of_append).1

namespace Retries

variable {m : Manager} {ctx : Context} {lock : String} {ttl wait deadline n t t' : Nat}
  {as : List Attempt} {r : Except Failure Bool} {a : Attempt}

/-- No attempt begins before the first one. -/
theorem le_began (h : Retries X m ctx lock ttl wait deadline n t as r t') (ha : a ∈ as) :
    t ≤ a.began := by
  induction h with
  | exhausted t => exact absurd ha List.not_mem_nil
  | last n hmade hstop => exact Nat.le_of_eq (List.mem_singleton.1 ha ▸ rfl)
  | again hmade hgo hrest ih =>
    rcases List.mem_cons.1 ha with rfl | ha
    · exact Nat.le_refl _
    · exact Nat.le_trans (Nat.le_add_right_of_le hmade.le) (ih ha)

/-- An attempt begins in time, or is the last one, after a pause in which the deadline passed. -/
theorem began_cases (h : Retries X m ctx lock ttl wait deadline n t as r t') (ht : t ≤ deadline)
    (ha : a ∈ as) : a.began ≤ deadline ∨ ∃ init prev, as = init ++ [prev, a] ∧
      prev.ended < deadline ∧ a.began = prev.ended + m.settings.pollInterval := by
  obtain ⟨before, after, rfl⟩ := List.append_of_mem ha
  have hturn := h.inTurn
  rcases List.eq_nil_or_concat before with rfl | ⟨init, prev, rfl⟩
  · exact .inl (hturn.first a rfl ▸ ht)
  · rw [List.concat_eq_append, List.append_assoc, List.singleton_append] at h hturn ⊢
    cases after with
    | nil =>
      have hprev : prev.GoesOn deadline := h.goesOn prev (by simp)
      exact .inr ⟨init, prev, rfl, hprev.2.2, hturn.began_eq⟩
    | cons b after =>
      -- others are made after it, so it even ended in time
      have hgo : a.GoesOn deadline := h.goesOn a (by simp)
      have hmade : a.began ≤ a.ended := (hturn.made a (by simp)).le
      exact .inl (Nat.le_trans hmade (Nat.le_of_lt hgo.2.2))

/-- An attempt begins late if and only if the deadline passes in the pause before it, which is the
last one. -/
theorem late_iff (h : Retries X m ctx lock ttl wait deadline n t as r t') (ht : t ≤ deadline)
    (ha : a ∈ as) : deadline < a.began ↔ ∃ init prev, as = init ++ [prev, a] ∧
      prev.ended < deadline ∧ deadline < prev.ended + m.settings.pollInterval := by
  constructor
  · intro hlate
    rcases h.began_cases ht ha with hin | ⟨init, prev, heq, hended, hbegan⟩
    · exact absurd hlate (Nat.not_lt.2 hin)
    · exact ⟨init, prev, heq, hended, hbegan ▸ hlate⟩
  · rintro ⟨init, prev, rfl, -, hlate⟩
    exact h.inTurn.began_eq ▸ hlate

end Retries

/-! ## A late success -/

namespace Manager

variable (m : Manager) (ctx : Context) (lock : String) (ttl wait t : Nat)

/-- The exchanges of an acquisition in a context that has no token, until it writes one on a store
that is not sharded. -/
def untilWrite : List Exchange :=
  [⟨.clock, t⟩, ⟨.closing, false⟩, ⟨.registry m.id (.held ctx lock), (none : Option Token)⟩,
    ⟨.mint, Token.ofSerial 0⟩, ⟨.deployment, Deployment.standalone⟩,
    ⟨.call (.nodeOwning (lockKey lock)), .ok "n"⟩, ⟨.call (.connect "n"), .ok ⟨0, "n"⟩⟩]

/-- The exchange in which it does so. -/
def write (written : Bool) : Exchange :=
  ⟨.call (.command ⟨0, "n"⟩ (.set (lockKey lock) (Token.ofSerial 0) ttl true)), .ok written⟩

theorem leads_write (written : Bool) {t' : Nat} (hle : t ≤ t') :
    timing.Leads t (m.untilWrite ctx lock t ++ [write lock ttl written]) t' := by
  refine (Environment.leads_self ?_).trans (.exchange hle (.done t'))
  simp [untilWrite, timing]

variable {ttl}

/-- An attempt may take any time, and be refused. -/
theorem exists_refused (httl : 0 < ttl) {t' : Nat} (hle : t ≤ t') : ∃ log,
    (m.acquire (X := X) ctx lock ttl wait).run.Takes t log (.ok false) t' := by
  refine ⟨(m.untilWrite ctx lock t ++ [write lock ttl false]) ++ [⟨.release ⟨0, "n"⟩, ()⟩,
    ⟨.clock, t'⟩, ⟨.count (.acquire .contended (t' - t)), ()⟩], ?_, ?_⟩
  · unfold acquire
    rw [if_neg (Nat.ne_of_gt httl)]
    iterate 11 refine .cons ?_
    exact .start
  · refine (m.leads_write ctx lock ttl t false hle).trans (Environment.leads_self ?_)
    simp [timing]

/-- An attempt may succeed at once. -/
theorem exists_granted (httl : 0 < ttl) : ∃ log,
    (m.acquire (X := X) ctx lock ttl wait).run.Takes t log (.ok true) t := by
  refine ⟨(m.untilWrite ctx lock t ++ [write lock ttl true]) ++ [⟨.clock, t⟩,
    ⟨.release ⟨0, "n"⟩, ()⟩, ⟨.registry m.id (.record ctx lock (Token.ofSerial 0)), ()⟩,
    ⟨.clock, t⟩, ⟨.count (.acquire .acquired (t - t)), ()⟩], ?_, ?_⟩
  · have hin : ¬ ttl ≤ t - t := by omega
    unfold acquire
    rw [if_neg (Nat.ne_of_gt httl)]
    iterate 9 refine .cons ?_
    simp only [Program.bind, Function.comp, ExceptT.bindCont, ge_iff_le, hin, if_false]
    iterate 4 refine .cons ?_
    exact .start
  · refine (m.leads_write ctx lock ttl t true (Nat.le_refl t)).trans (Environment.leads_self ?_)
    simp [timing]

/-- If an attempt ends just before the budget is used up, the next one is begun almost a pause after
that, and may succeed. -/
theorem exists_granted_late {budget : Nat} (hb : budget ≤ maxRetryBudget) (httl : 0 < ttl)
    (hpos : 1 ≤ budget) (hp : 2 ≤ m.settings.pollInterval) : ∃ log t' as a,
      (m.acquireWithRetry (X := X) ctx lock ttl wait budget).run.Takes t log (.ok true) t' ∧
        Tries X m ctx lock ttl wait budget t as log ∧ a ∈ as ∧ a.answer = .ok true ∧
        a.began = t + budget + (m.settings.pollInterval - 1) := by
  have hbegan : t ≤ t + budget - 1 := by omega
  have hended : t + budget - 1 < t + budget := by omega
  have hlate : t + budget - 1 + m.settings.pollInterval =
      t + budget + (m.settings.pollInterval - 1) := by omega
  obtain ⟨log₁, hfirst⟩ := m.exists_refused (X := X) ctx lock wait t httl hbegan
  obtain ⟨log₂, hsecond⟩ := m.exists_granted (X := X) ctx lock wait
    (t + budget - 1 + m.settings.pollInterval) httl
  let a : Attempt := ⟨log₁, t, t + budget - 1, .ok false, false⟩
  let b : Attempt := ⟨log₂, a.ended + m.settings.pollInterval,
    a.ended + m.settings.pollInterval, .ok true, false⟩
  have hlast : Retries X m ctx lock ttl wait (t + budget) _ b.began [b] b.answer b.ended :=
    .last (budget / max m.settings.pollInterval 1) hsecond nofun
  have hretries : Retries X m ctx lock ttl wait (t + budget) _ a.began [a, b] b.answer b.ended :=
    .again hfirst ⟨rfl, rfl, hended⟩ hlast
  refine ⟨_, b.ended, [a, b], b, ?_, ⟨rfl, hretries.inTurn⟩, by simp, rfl, hlate⟩
  rw [m.acquireWithRetry_of_le ctx lock ttl wait hb, takes_acquireWithin]
  exact ⟨_, rfl, hretries⟩

end Manager

/-! ## The budget -/

/-- An acquisition that tries again begins an attempt late if and only if that is the last one and
its budget is used up during the pause before it. It is late by less than a pause then, but may be
by everything less, and succeed. The last attempt is in time if the budget is zero or a pause takes
at most a millisecond. -/
theorem retries_begin_late (m : Manager) (ctx : Context) (lock : String) (ttl wait budget : Nat)
    (hb : budget ≤ maxRetryBudget) :
    (m.acquireWithRetry (X := X) ctx lock ttl wait budget).run =
      m.acquireWithin ctx lock ttl wait
        (Manager.attemptLimit budget m.settings.pollInterval) budget ∧
    (∀ n t log r t', (m.acquireWithin (X := X) ctx lock ttl wait n budget).Takes t log r t' →
      ∃ as, Tries X m ctx lock ttl wait budget t as log ∧ ∀ a ∈ as,
        (t + budget < a.began ↔ ∃ init prev, as = init ++ [prev, a] ∧ prev.ended < t + budget ∧
          t + budget < prev.ended + m.settings.pollInterval) ∧
        a.began ≤ t + budget + (m.settings.pollInterval - 1) ∧
        (budget = 0 ∨ m.settings.pollInterval ≤ 1 → a.began ≤ t + budget)) ∧
    (0 < ttl → 1 ≤ budget → 2 ≤ m.settings.pollInterval → ∀ t, ∃ log t' as a,
      (m.acquireWithRetry (X := X) ctx lock ttl wait budget).run.Takes t log (.ok true) t' ∧
        Tries X m ctx lock ttl wait budget t as log ∧ a ∈ as ∧ a.answer = .ok true ∧
        a.began = t + budget + (m.settings.pollInterval - 1)) := by
  refine ⟨m.acquireWithRetry_of_le ctx lock ttl wait hb, ?_, ?_⟩
  · intro n t log r t' h
    rw [Manager.takes_acquireWithin] at h
    obtain ⟨as, rfl, h⟩ := h
    have hbegan : t ≤ t + budget := Nat.le_add_right t budget
    refine ⟨as, ⟨rfl, h.inTurn⟩, fun a ha => ⟨h.late_iff hbegan ha, ?_, fun hsmall => ?_⟩⟩
    · rcases h.began_cases hbegan ha with hin | ⟨init, prev, -, hended, heq⟩ <;> omega
    · rcases h.began_cases hbegan ha with hin | ⟨init, prev, rfl, hended, heq⟩
      · exact hin
      · have hprev : prev ∈ init ++ [prev, a] := by simp
        have hle := h.le_began hprev
        have hmade := (h.inTurn.made prev hprev).le
        omega
  · intro httl hpos hp t
    exact m.exists_granted_late ctx lock wait t hb httl hpos hp

/-- With a pause of 50 milliseconds a lock is granted although the budget of 20 milliseconds was
used up before the attempt began. -/
theorem retries_begin_late_granted :
    20 ≤ maxRetryBudget ∧ 0 < 1000 ∧ ∃ log t' as a,
      (({ settings := { pollInterval := 50 } } : Manager).acquireWithRetry (X := .none) "a" "L"
        1000 0 20).run.Takes 0 log (.ok true) t' ∧
      Tries .none { settings := { pollInterval := 50 } } "a" "L" 1000 0 20 0 as log ∧ a ∈ as ∧
      a.answer = .ok true ∧ a.began = 69 := by
  have hb : 20 ≤ maxRetryBudget := by decide
  have httl : 0 < 1000 := by decide
  obtain ⟨-, -, hlate⟩ := retries_begin_late (X := .none) { settings := { pollInterval := 50 } }
    "a" "L" 1000 0 20 hb
  exact ⟨hb, httl, hlate httl (by decide) (by decide) 0⟩

end Latchkey
