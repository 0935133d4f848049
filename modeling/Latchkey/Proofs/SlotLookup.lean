import Mathlib.Data.List.Perm.Basic
import Latchkey.Proofs.SlotReplies

/-!
# Looking up a slot

The primary of a slot is found by a binary search among the ranges, which are sorted by their first
slots, for the first one that does not end before the slot. Whatever the ranges are, the one that is
found covers the slot. Where no two ranges share a slot they are sorted by their last slots as well,
and then a range that covers the slot is found if there is one.

The main statement is `lookup_is_exact`.
-/

namespace Latchkey.Redis

/-- A range has a slot in it. -/
def SlotRange.Covers (r : SlotRange) (slot : Nat) : Prop := r.first ≤ slot ∧ slot ≤ r.last

/-- Two ranges share no slot. -/
def SlotRange.Apart (r r' : SlotRange) : Prop := ∀ slot, ¬ (r.Covers slot ∧ r'.Covers slot)

theorem SlotRange.Apart.symm {r r' : SlotRange} (h : r.Apart r') : r'.Apart r :=
  fun slot hboth => h slot hboth.symm

namespace ClusterView

/-! ## The search -/

/-- What a search finds is not below, whatever is below, if it cannot run past its end. -/
theorem below_search {below : Nat → Bool} {base size : Nat}
    (hend : below (base + size) = false ∨ 2 ≤ size ∧ below (base + size - 1) = false) :
    below (search below base size) = false := by
  fun_induction search below base size with
  | case1 base size hsize hbelow =>
    -- only the base is left, and the position behind it is the end
    rcases hend with hend | ⟨htwo, -⟩
    · have hone : size = 1 := by
        refine Nat.le_antisymm hsize (Nat.pos_of_ne_zero ?_)
        rintro rfl
        rw [Nat.add_zero, hbelow] at hend
        cases hend
      rwa [hone] at hend
    · exact absurd hsize (by omega)
  | case2 base size hsize hbelow => exact Bool.eq_false_iff.2 hbelow
  | case3 base size hsize half ih =>
    refine ih ?_
    split
    · next hbelow =>
      have hsame : base + half + (size - half) = base + size := by omega
      rw [hsame]
      rcases hend with hend | ⟨-, hend⟩
      · exact .inl hend
      · refine .inr ⟨?_, hend⟩
        -- the position that was looked at is below, so it is not the last one
        by_contra hsmall
        have hlast : base + half = base + size - 1 := by omega
        rw [hlast, hend] at hbelow
        cases hbelow
    · next hbelow =>
      rw [Bool.not_eq_true] at hbelow
      by_cases heven : size - half = half
      · exact .inl (by rwa [heven])
      · have hlast : base + (size - half) - 1 = base + half := by omega
        exact .inr ⟨by omega, by rwa [hlast]⟩

/-- A search finds the position before which all is below and from which on nothing is. -/
theorem search_eq {below : Nat → Bool} {base size i : Nat} (hbelow : ∀ j, below j = decide (j < i))
    (hfirst : base ≤ i) (hlast : i ≤ base + size) : search below base size = i := by
  fun_induction search below base size with
  | case1 base size hsize hbase =>
    rw [hbelow, decide_eq_true_eq] at hbase
    omega
  | case2 base size hsize hbase =>
    rw [hbelow, decide_eq_true_eq] at hbase
    omega
  | case3 base size hsize half ih =>
    simp only [hbelow, decide_eq_true_eq] at ih ⊢
    refine ih ?_ ?_ <;> split <;> omega

/-! ## Ranges -/

variable {v : ClusterView} {slot : Nat} {node : NodeId}

theorem ofReply_sorted {reply : Value} {seedHost : String} (h : ofReply reply seedHost = .ok v) :
    v.ranges.Pairwise fun r r' => r.first ≤ r'.first := by
  obtain ⟨lists, hlists⟩ := toLists_of_ofReply h
  obtain ⟨es, -, -, rfl⟩ := (ofReply_eq_ok_iff hlists).1 h
  exact ofEntries_sorted es

theorem position_eq (hne : v.ranges ≠ []) :
    v.position slot =
      search (fun i => v.ranges[i]?.any fun r => decide (r.last < slot)) 0 v.ranges.length := by
  rw [position, if_neg (by simpa using hne)]

/-- A range that is found does not end before the slot. -/
theorem le_last_of_position {r : SlotRange} (h : v.ranges[v.position slot]? = some r) :
    slot ≤ r.last := by
  have hne : v.ranges ≠ [] := by
    intro hnil
    rw [hnil] at h
    cases h
  have hfound := @below_search (fun i => v.ranges[i]?.any fun r => decide (r.last < slot)) 0
    v.ranges.length (.inl (by simp))
  rw [← position_eq hne] at hfound
  simpa [h] using hfound

theorem nodeForSlot_eq_some :
    v.nodeForSlot slot = some node ↔
      ∃ r, v.ranges[v.position slot]? = some r ∧ r.first ≤ slot ∧ r.node = node := by
  unfold nodeForSlot
  split
  · next r hr =>
    rw [hr]
    simp
  · next hnone =>
    rw [hnone]
    simp

/-- A primary that is given for a slot has a range that covers it. -/
theorem covers_of_nodeForSlot (h : v.nodeForSlot slot = some node) :
    ∃ r ∈ v.ranges, r.node = node ∧ r.Covers slot := by
  obtain ⟨r, hr, hfirst, hnode⟩ := nodeForSlot_eq_some.1 h
  exact ⟨r, List.mem_of_getElem? hr, hnode, hfirst, le_last_of_position hr⟩

/-- The ranges are sorted by first slot, no range is empty, and no two of them share a slot. -/
structure Tidy (v : ClusterView) : Prop where
  sorted : v.ranges.Pairwise fun r r' => r.first ≤ r'.first
  proper : ∀ r ∈ v.ranges, r.first ≤ r.last
  apart : v.ranges.Pairwise SlotRange.Apart

namespace Tidy

/-- Each range ends before the next ones start. -/
theorem ordered (hv : v.Tidy) : v.ranges.Pairwise fun r r' => r.last < r'.first := by
  refine (hv.sorted.and hv.apart).imp_of_mem ?_
  rintro r r' - hr' ⟨hsorted, hapart⟩
  by_contra hshared
  exact hapart r'.first ⟨⟨hsorted, Nat.le_of_not_lt hshared⟩, Nat.le_refl _, hv.proper r' hr'⟩

/-- The position of a range that covers the slot is the one that is found. -/
theorem position_of_covers (hv : v.Tidy) {i : Nat} {r : SlotRange} (hr : v.ranges[i]? = some r)
    (hcovers : r.Covers slot) : v.position slot = i := by
  obtain ⟨hlt, rfl⟩ := List.getElem?_eq_some_iff.1 hr
  obtain ⟨hfirst, hlast⟩ := hcovers
  rw [position_eq (List.length_pos_iff.1 (by omega))]
  refine search_eq (fun j => ?_) (Nat.zero_le i) (by omega)
  cases hj : v.ranges[j]? with
  | none =>
    have hbehind : v.ranges.length ≤ j := List.getElem?_eq_none_iff.1 hj
    exact (decide_eq_false (by omega)).symm
  | some r' =>
    refine decide_eq_decide.2 ?_
    obtain ⟨hjlt, rfl⟩ := List.getElem?_eq_some_iff.1 hj
    have hordered := List.pairwise_iff_getElem.1 hv.ordered
    have hproper := hv.proper v.ranges[j] (List.getElem_mem hjlt)
    rcases Nat.lt_trichotomy j i with hji | rfl | hij
    · have := hordered j i hjlt hlt hji
      omega
    · omega
    · have := hordered i j hlt hjlt hij
      omega

theorem nodeForSlot_iff (hv : v.Tidy) :
    v.nodeForSlot slot = some node ↔ ∃ r ∈ v.ranges, r.node = node ∧ r.Covers slot := by
  refine ⟨covers_of_nodeForSlot, ?_⟩
  rintro ⟨r, hmem, hnode, hcovers⟩
  obtain ⟨i, hr⟩ := List.mem_iff_getElem?.1 hmem
  rw [← hv.position_of_covers hr hcovers] at hr
  exact nodeForSlot_eq_some.2 ⟨r, hr, hcovers.1, hnode⟩

theorem nodeForSlot_eq_none (hv : v.Tidy) :
    v.nodeForSlot slot = none ↔ ∀ r ∈ v.ranges, ¬ r.Covers slot := by
  rw [Option.eq_none_iff_forall_ne_some]
  simp only [ne_eq, hv.nodeForSlot_iff]
  constructor
  · exact fun h r hmem hcovers => h r.node ⟨r, hmem, rfl, hcovers⟩
  · rintro h node ⟨r, hmem, -, hcovers⟩
    exact h r hmem hcovers

/-- Views with the same ranges find the same primaries. -/
theorem nodeForSlot_eq {v' : ClusterView} (hv : v.Tidy) (hv' : v'.Tidy)
    (hperm : v'.ranges.Perm v.ranges) : v'.nodeForSlot slot = v.nodeForSlot slot := by
  refine Option.ext fun node => ?_
  rw [hv.nodeForSlot_iff, hv'.nodeForSlot_iff]
  simp only [hperm.mem_iff]

end Tidy

/-- A reply with the same entries in another order can be read as well, and has the same ranges. -/
theorem ofReply_perm {reply reply' : Value} {lists lists' : List (List Value)} {seedHost : String}
    (hreply : reply.toLists = .ok lists) (hreply' : reply'.toLists = .ok lists')
    (hperm : lists'.Perm lists) (hv : ofReply reply seedHost = .ok v) :
    ∃ v', ofReply reply' seedHost = .ok v' ∧ v'.ranges.Perm v.ranges := by
  obtain ⟨es, hsays, hne, rfl⟩ := (ofReply_eq_ok_iff hreply).1 hv
  obtain ⟨es', hsays', hperm'⟩ := List.perm_comp_forall₂ (hperm.filter _) hsays
  have hne' : es' ≠ [] := by
    rintro rfl
    exact hne hperm'.nil_eq.symm
  exact ⟨_, (ofReply_eq_ok_iff hreply').2 ⟨es', hsays', hne', rfl⟩,
    (ofEntries_perm es').trans ((hperm'.map _).trans (ofEntries_perm es).symm)⟩

end ClusterView

/-- Looking up a slot in a view that was read from a reply.

A primary that is given for a slot has a range that covers it, whatever the ranges are. If no range
ends before it starts and no two ranges share a slot, then a primary is given for a slot just if a
range of it covers the slot, and none is given just if no range covers the slot; and the same is
found after a reply with the same entries in another order. -/
theorem lookup_is_exact {reply : Value} {seedHost : String} {v : ClusterView}
    (h : ClusterView.ofReply reply seedHost = .ok v) :
    (∀ slot node, v.nodeForSlot slot = some node →
      ∃ r ∈ v.ranges, r.node = node ∧ r.Covers slot) ∧
    ((∀ r ∈ v.ranges, r.first ≤ r.last) → v.ranges.Pairwise SlotRange.Apart →
      (∀ slot node, v.nodeForSlot slot = some node ↔
        ∃ r ∈ v.ranges, r.node = node ∧ r.Covers slot) ∧
      (∀ slot, v.nodeForSlot slot = none ↔ ∀ r ∈ v.ranges, ¬ r.Covers slot) ∧
      ∀ reply' lists lists', reply.toLists = .ok lists → reply'.toLists = .ok lists' →
        lists'.Perm lists → ∃ v', ClusterView.ofReply reply' seedHost = .ok v' ∧
          ∀ slot, v'.nodeForSlot slot = v.nodeForSlot slot) := by
  refine ⟨fun slot node => ClusterView.covers_of_nodeForSlot, fun hproper hapart => ?_⟩
  have hv : v.Tidy := ⟨ClusterView.ofReply_sorted h, hproper, hapart⟩
  refine ⟨fun slot node => hv.nodeForSlot_iff, fun slot => hv.nodeForSlot_eq_none, ?_⟩
  intro reply' lists lists' hreply hreply' hperm
  obtain ⟨v', hread, hranges⟩ := ClusterView.ofReply_perm hreply hreply' hperm h
  have hapart' : v'.ranges.Pairwise SlotRange.Apart :=
    (hranges.pairwise_iff SlotRange.Apart.symm).2 hapart
  have hproper' : ∀ r ∈ v'.ranges, r.first ≤ r.last :=
    fun r hmem => hproper r (hranges.mem_iff.1 hmem)
  exact ⟨v', hread, fun slot =>
    hv.nodeForSlot_eq ⟨ClusterView.ofReply_sorted hread, hproper', hapart'⟩ hranges⟩

/-- A layout with a gap, as its entries may come in one order or the other. -/
def gappedLayout (turned : Bool) : Value :=
  let low := .list [.int 0, .int 49, primaryAt [97] 7000]
  let high := .list [.int 100, .int 199, primaryAt [98] 7001]
  .list (if turned then [high, low] else [low, high])

/-- At the edges of the ranges the primary is given, in the gap none is, and the order of the
entries makes no difference. -/
theorem lookup_is_exact_gapped :
    ∃ v, ClusterView.ofReply (gappedLayout true) "a" = .ok v ∧
      v.ranges = [⟨0, 49, "a:7000"⟩, ⟨100, 199, "b:7001"⟩] ∧
      (∀ r ∈ v.ranges, r.first ≤ r.last) ∧ v.ranges.Pairwise SlotRange.Apart ∧
      v.nodeForSlot 49 = some "a:7000" ∧ v.nodeForSlot 50 = none ∧ v.nodeForSlot 99 = none ∧
      v.nodeForSlot 100 = some "b:7001" ∧
      ∃ v', ClusterView.ofReply (gappedLayout false) "a" = .ok v' ∧
        ∀ slot, v'.nodeForSlot slot = v.nodeForSlot slot := by
  have hview : ClusterView.ofReply (gappedLayout true) "a" = .ok (ClusterView.ofEntries
      [⟨⟨100, 199, "b:7001"⟩, ⟨"redis://b:7001", 0⟩⟩,
        ⟨⟨0, 49, "a:7000"⟩, ⟨"redis://a:7000", 0⟩⟩]) :=
    rfl
  obtain ⟨v, hv⟩ : ∃ v, ClusterView.ofReply (gappedLayout true) "a" = .ok v := ⟨_, hview⟩
  have hranges : v.ranges = [⟨0, 49, "a:7000"⟩, ⟨100, 199, "b:7001"⟩] := by
    cases hview.symm.trans hv
    simp [ClusterView.ofEntries, List.mergeSort]
  have hproper : ∀ r ∈ v.ranges, r.first ≤ r.last := by simp [hranges]
  have hapart : v.ranges.Pairwise SlotRange.Apart := by
    rw [hranges, List.pairwise_pair]
    rintro slot ⟨⟨-, hlow⟩, hhigh, -⟩
    exact absurd (Nat.le_trans hhigh hlow) (by decide)
  obtain ⟨-, htidy⟩ := lookup_is_exact hv
  obtain ⟨hfound, hnone, horder⟩ := htidy hproper hapart
  refine ⟨v, hv, hranges, hproper, hapart, ?_, ?_, ?_, ?_,
    horder (gappedLayout false) _ _ rfl rfl (List.Perm.swap _ _ _)⟩
  all_goals simp [hfound, hnone, hranges, SlotRange.Covers]

end Latchkey.Redis
