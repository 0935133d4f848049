import Mathlib.Data.List.Forall2
import Latchkey.Proofs.ClusterLayouts

/-!
# Reading the layout of a cluster

A reply with the layout of a cluster is read entry by entry: entries that are too short are passed
over, and one that cannot be read spoils the whole reply. The slot ranges of the view and its table
of primaries come from the same entries, so that every primary that serves slots is known.

The main statement is `reading_is_exact`.
-/

namespace Latchkey

namespace Redis

/-- What a reply is as a list of lists. -/
def Value.toLists (v : Value) : Except RedisError (List (List Value)) := do
  (← v.toList).mapM Value.toList

theorem orStoreError_eq_ok {α : Type} {r : Except RedisError α} {a : α} :
    orStoreError r = .ok a ↔ r = .ok a := by
  cases r <;> simp [orStoreError, Except.mapError]

/-- Each item of a list has a partner if there is a list of partners. -/
theorem forall₂_exists_iff {α β : Type} {R : α → β → Prop} {l : List α} :
    (∃ l', List.Forall₂ R l l') ↔ ∀ a ∈ l, ∃ b, R a b := by
  induction l with
  | nil => simp
  | cons a l ih =>
    rw [List.forall_mem_cons, ← ih]
    constructor
    · rintro ⟨_, hab | ⟨hab, hrest⟩⟩
      exact ⟨⟨_, hab⟩, _, hrest⟩
    · rintro ⟨⟨b, hab⟩, l', hrest⟩
      exact ⟨b :: l', .cons hab hrest⟩

/-! ## Entries -/

namespace SlotEntry

variable {seedHost : String} {first last primary : Value} {replicas : List Value} {e : SlotEntry}

/-- What an entry says, its elements being values: two slots, and a primary that has a host and a
port. The seed is meant where the host is empty. All further elements are replicas. -/
inductive Says (seedHost : String) : List Value → SlotEntry → Prop
  /-- An entry whose parts can all be read. -/
  | entry {first last primary host port : Value} {more replicas : List Value} {a b p : Nat}
      {name node : String} (hfirst : first.toPort = .ok a) (hlast : last.toPort = .ok b)
      (hprimary : primary.toList = .ok (host :: port :: more)) (hhost : host.toText = .ok name)
      (hport : port.toPort = .ok p)
      (hnode : node = (if name = "" then seedHost else name) ++ ":" ++ Nat.repr p) :
      Says seedHost (first :: last :: primary :: replicas)
        ⟨⟨a, b, node⟩, ⟨"redis://" ++ node, replicas.length⟩⟩

theorem read_eq_ok : read seedHost first last primary replicas = .ok e ↔
    Says seedHost (first :: last :: primary :: replicas) e := by
  constructor
  · intro h
    unfold read at h
    obtain ⟨a, hfirst, h⟩ := except_bind_eq_ok h
    obtain ⟨b, hlast, h⟩ := except_bind_eq_ok h
    obtain ⟨items, hitems, h⟩ := except_bind_eq_ok h
    split at h
    · obtain ⟨name, hname, h⟩ := except_bind_eq_ok h
      obtain ⟨p, hport, h⟩ := except_bind_eq_ok h
      cases h
      simp only [StoreSettings.nodeUrl, String.isEmpty_iff, String.append_assoc]
      rw [orStoreError_eq_ok] at hfirst hlast hitems hname hport
      exact .entry hfirst hlast hitems hname hport (by rw [String.append_assoc])
    · cases h
  · rintro (⟨hfirst, hlast, hprimary, hhost, hport, rfl⟩)
    simp only [read, hfirst, hlast, hprimary, hhost, hport, orStoreError, Except.mapError, bind,
      Except.bind, pure, Except.pure, StoreSettings.nodeUrl, String.isEmpty_iff,
      String.append_assoc]

end SlotEntry

/-- The entries that are long enough to have two slots and a primary. -/
def keptEntries (lists : List (List Value)) : List (List Value) :=
  lists.filter fun entry => 3 ≤ entry.length

/-- Entries are read one by one, but for those that are passed over. -/
theorem readEntries_eq_ok {seedHost : String} {lists : List (List Value)} {es : List SlotEntry} :
    readEntries seedHost lists = .ok es ↔
      List.Forall₂ (SlotEntry.Says seedHost) (keptEntries lists) es := by
  unfold keptEntries
  fun_induction readEntries seedHost lists generalizing es with
  | case1 =>
    rw [List.filter_nil, List.forall₂_nil_left_iff, Except.ok.injEq, eq_comm]
  | case2 rest first last primary replicas ih =>
    rw [List.filter_cons_of_pos (by simp), List.forall₂_cons_left_iff]
    constructor
    · intro h
      obtain ⟨e, hread, h⟩ := except_bind_eq_ok h
      obtain ⟨es', hrest, h⟩ := except_bind_eq_ok h
      cases h
      exact ⟨e, es', SlotEntry.read_eq_ok.1 hread, ih.1 hrest, rfl⟩
    · rintro ⟨e, es', hsays, hrest, rfl⟩
      rw [SlotEntry.read_eq_ok.2 hsays, ih.2 hrest]
      rfl
  | case3 entry rest hshort ih =>
    rw [List.filter_cons_of_neg, ih]
    rcases entry with _ | ⟨first, _ | ⟨last, _ | ⟨primary, replicas⟩⟩⟩
    · simp
    · simp
    · simp
    · exact absurd rfl (hshort first last primary replicas)

/-! ## Views -/

namespace ClusterView

variable {es : List SlotEntry} {node : NodeId}

theorem toLists_of_ofReply {reply : Value} {seedHost : String} {v : ClusterView}
    (h : ofReply reply seedHost = .ok v) : ∃ lists, reply.toLists = .ok lists := by
  unfold ofReply at h
  obtain ⟨lists, hlists, -⟩ := except_bind_eq_ok h
  exact ⟨lists, orStoreError_eq_ok.1 hlists⟩

theorem ofReply_eq_ok_iff {reply : Value} {lists : List (List Value)} {seedHost : String}
    {v : ClusterView} (h : reply.toLists = .ok lists) :
    ofReply reply seedHost = .ok v ↔
      ∃ es, List.Forall₂ (SlotEntry.Says seedHost) (keptEntries lists) es ∧ es ≠ [] ∧
        v = ofEntries es := by
  have hlists : orStoreError (do (← reply.toList).mapM Value.toList) = .ok lists :=
    orStoreError_eq_ok.2 h
  unfold ofReply
  rw [hlists]
  show readEntries seedHost lists >>= _ = _ ↔ _
  constructor
  · intro hok
    obtain ⟨es, hread, hok⟩ := except_bind_eq_ok hok
    refine ⟨es, readEntries_eq_ok.1 hread, ?_⟩
    split at hok
    · cases hok
    · next hne =>
      cases hok
      exact ⟨hne, rfl⟩
  · rintro ⟨es, hread, hne, rfl⟩
    rw [readEntries_eq_ok.2 hread]
    cases es with
    | nil => exact absurd rfl hne
    | cons e es => rfl

/-! ### Ranges -/

theorem ofEntries_perm (es : List SlotEntry) :
    (ofEntries es).ranges.Perm (es.map (·.range)) :=
  List.mergeSort_perm _ _

theorem le_trans_first (a b c : SlotRange) (hab : decide (a.first ≤ b.first) = true)
    (hbc : decide (b.first ≤ c.first) = true) : decide (a.first ≤ c.first) = true :=
  decide_eq_true (Nat.le_trans (of_decide_eq_true hab) (of_decide_eq_true hbc))

theorem le_total_first (a b : SlotRange) :
    (decide (a.first ≤ b.first) || decide (b.first ≤ a.first)) = true := by
  simpa using Nat.le_total a.first b.first

theorem ofEntries_sorted (es : List SlotEntry) :
    (ofEntries es).ranges.Pairwise fun r r' => r.first ≤ r'.first :=
  (List.pairwise_mergeSort le_trans_first le_total_first _).imp of_decide_eq_true

/-- Ranges with one first slot stay in the order of their entries. -/
theorem ofEntries_stable (es : List SlotEntry) (slot : Nat) :
    (ofEntries es).ranges.filter (fun r => r.first = slot) =
      (es.map (·.range)).filter fun r => r.first = slot := by
  have hsame : ((es.map (·.range)).filter fun r => r.first = slot).Pairwise
      fun a b => decide (a.first ≤ b.first) = true := by
    refine List.pairwise_iff_forall_sublist.2 fun {a b} hsub => ?_
    have ha := (List.mem_filter.1 (hsub.subset List.mem_cons_self)).2
    have hb := (List.mem_filter.1 (hsub.subset (List.mem_cons_of_mem _ List.mem_cons_self))).2
    exact decide_eq_true (by simp at ha hb; omega)
  -- a sorted part of the list is a part of what sorting gives, and no more can be left there
  have hsub : ((es.map (·.range)).filter fun r => r.first = slot).Sublist (ofEntries es).ranges :=
    List.sublist_mergeSort le_trans_first le_total_first hsame List.filter_sublist
  have hkept := hsub.filter fun r => decide (r.first = slot)
  rw [List.filter_filter, List.filter_congr fun _ _ => Bool.and_self _] at hkept
  exact (hkept.eq_of_length ((ofEntries_perm es).filter _).length_eq.symm).symm

/-! ### Primaries -/

theorem primaries_nodup (v : ClusterView) : v.primaries.Nodup :=
  (List.mergeSort_perm _ _).nodup_iff.2 v.nodes.nodup

theorem mem_primaries (v : ClusterView) : node ∈ v.primaries ↔ v.nodes.contains node = true := by
  rw [primaries, List.mem_mergeSort, Table.mem_keys]

theorem mem_primaries_ofEntries :
    node ∈ (ofEntries es).primaries ↔ ∃ r ∈ (ofEntries es).ranges, r.node = node := by
  simp only [mem_primaries, Table.contains, ofEntries_find?, Option.isSome_map, List.find?_isSome,
    List.mem_reverse, decide_eq_true_eq, (ofEntries_perm es).mem_iff, List.mem_map,
    exists_exists_and_eq_and]

/-- Of several entries about one primary the last one counts. -/
theorem find?_ofEntries_eq_some {info : NodeInfo} :
    (ofEntries es).nodes.find? node = some info ↔
      ∃ before e after, es = before ++ e :: after ∧ e.range.node = node ∧
        (∀ later ∈ after, later.range.node ≠ node) ∧ e.info = info := by
  rw [ofEntries_find?, Option.map_eq_some_iff]
  simp only [List.find?_eq_some_iff_append, List.reverse_eq_append_iff, List.reverse_cons,
    List.append_assoc, List.singleton_append, decide_eq_true_eq, Bool.not_eq_true',
    decide_eq_false_iff_not]
  constructor
  · rintro ⟨e, ⟨hnode, after, before, hsplit, hlater⟩, hinfo⟩
    exact ⟨before.reverse, e, after.reverse, hsplit, hnode,
      fun later hmem => hlater later (List.mem_reverse.1 hmem), hinfo⟩
  · rintro ⟨before, e, after, hsplit, hnode, hlater, hinfo⟩
    refine ⟨e, ⟨hnode, after.reverse, before.reverse, ?_, ?_⟩, hinfo⟩
    · simpa using hsplit
    · exact fun later hmem => hlater later (List.mem_reverse.1 hmem)

theorem replicaCount_eq_ok {v : ClusterView} {n : Nat} :
    v.replicaCount node = .ok n ↔ ∃ info, v.nodes.find? node = some info ∧ info.replicas = n := by
  unfold replicaCount
  cases v.nodes.find? node with
  | none => simp
  | some info => simp

/-- A primary that is given for a slot is that of a range. -/
theorem mem_ranges_of_nodeForSlot {v : ClusterView} {slot : Nat}
    (h : v.nodeForSlot slot = some node) : ∃ r ∈ v.ranges, r.node = node := by
  unfold nodeForSlot at h
  split at h
  · next r hr =>
    split at h
    · cases h
      exact ⟨r, List.mem_of_getElem? hr, rfl⟩
    · cases h
  · cases h

end ClusterView

/-- A reply that is a list of lists, as a layout.

Entries of fewer than three elements are passed over. There is a view just if one entry is left and
all that are left can be read. Their ranges, each as often as there are entries with it, are the
ranges of the view, sorted by first slot, those with one first slot in the order of the entries. The
primaries are those of the ranges, each once, and what counts for a primary is the last entry that
names it. So a primary that is given for a slot has a number of replicas and a locator. -/
theorem reading_is_exact {reply : Value} {lists : List (List Value)}
    (h : reply.toLists = .ok lists) (seedHost : String) :
    ((∃ v, ClusterView.ofReply reply seedHost = .ok v) ↔
      keptEntries lists ≠ [] ∧ ∀ entry ∈ keptEntries lists, ∃ e, SlotEntry.Says seedHost entry e) ∧
    ∀ v, ClusterView.ofReply reply seedHost = .ok v →
      ∃ es, List.Forall₂ (SlotEntry.Says seedHost) (keptEntries lists) es ∧
        (v.ranges.Perm (es.map (·.range)) ∧
          (v.ranges.Pairwise fun r r' => r.first ≤ r'.first) ∧
          ∀ slot, v.ranges.filter (fun r => r.first = slot) =
            (es.map (·.range)).filter fun r => r.first = slot) ∧
        (v.primaries.Nodup ∧
          ∀ node, node ∈ v.primaries ↔ ∃ r ∈ v.ranges, r.node = node) ∧
        (∀ node n, v.replicaCount node = .ok n ↔
          ∃ before e after, es = before ++ e :: after ∧ e.range.node = node ∧
            (∀ later ∈ after, later.range.node ≠ node) ∧ e.info.replicas = n) ∧
        ∀ slot node, v.nodeForSlot slot = some node →
          (∃ n, v.replicaCount node = .ok n) ∧
          ∃ info, v.nodes.find? node = some info ∧ info.url = "redis://" ++ node := by
  constructor
  · rw [← forall₂_exists_iff]
    constructor
    · rintro ⟨v, hv⟩
      obtain ⟨es, hsays, hne, -⟩ := (ClusterView.ofReply_eq_ok_iff h).1 hv
      refine ⟨?_, es, hsays⟩
      intro hnil
      rw [hnil, List.forall₂_nil_left_iff] at hsays
      exact hne hsays
    · rintro ⟨hne, es, hsays⟩
      refine ⟨_, (ClusterView.ofReply_eq_ok_iff h).2 ⟨es, hsays, ?_, rfl⟩⟩
      rintro rfl
      exact hne (List.forall₂_nil_right_iff.1 hsays)
  · intro v hv
    obtain ⟨es, hsays, -, rfl⟩ := (ClusterView.ofReply_eq_ok_iff h).1 hv
    refine ⟨es, hsays, ⟨ClusterView.ofEntries_perm es, ClusterView.ofEntries_sorted es,
      ClusterView.ofEntries_stable es⟩, ⟨ClusterView.primaries_nodup _,
      fun node => ClusterView.mem_primaries_ofEntries⟩, ?_, ?_⟩
    · intro node n
      simp only [ClusterView.replicaCount_eq_ok, ClusterView.find?_ofEntries_eq_some]
      constructor
      · rintro ⟨info, ⟨before, e, after, hes, hnode, hlast, rfl⟩, hn⟩
        exact ⟨before, e, after, hes, hnode, hlast, hn⟩
      · rintro ⟨before, e, after, hes, hnode, hlast, hn⟩
        exact ⟨e.info, ⟨before, e, after, hes, hnode, hlast, rfl⟩, hn⟩
    · intro slot node hslot
      have hmem : node ∈ (ClusterView.ofEntries es).primaries :=
        ClusterView.mem_primaries_ofEntries.2 (ClusterView.mem_ranges_of_nodeForSlot hslot)
      obtain ⟨info, hinfo⟩ := Option.isSome_iff_exists.1 ((ClusterView.mem_primaries _).1 hmem)
      exact ⟨⟨info.replicas, ClusterView.replicaCount_eq_ok.2 ⟨info, hinfo, rfl⟩⟩,
        info, hinfo, (ClusterView.ofReply_eq_ok hv).1 node info hinfo⟩

/-- A primary, by the bytes of its host and its port. -/
def primaryAt (host : List UInt8) (port : Int) : Value := .list [.bulk host, .int port]

/-- A reply in which an entry is too short, a host is missing and a primary is named twice. -/
def patchedLayout : Value :=
  .list [.list [.int 100, .int 199, primaryAt [98] 7001, primaryAt [99] 7002],
    .list [.int 7, .int 9],
    .list [.int 0, .int 99, primaryAt [] 7000],
    .list [.int 200, .int 299, primaryAt [98] 7001, primaryAt [99] 7002, primaryAt [100] 7003]]

/-- What its entries say where the host `a` is the seed. -/
def patchedEntries : List SlotEntry :=
  [⟨⟨100, 199, "b:7001"⟩, ⟨"redis://b:7001", 1⟩⟩, ⟨⟨0, 99, "a:7000"⟩, ⟨"redis://a:7000", 0⟩⟩,
    ⟨⟨200, 299, "b:7001"⟩, ⟨"redis://b:7001", 2⟩⟩]

/-- The seed stands in for the host that is missing, and the last entry counts for the primary that
is named twice. -/
theorem reading_is_exact_patched :
    ∃ lists, patchedLayout.toLists = .ok lists ∧ (keptEntries lists).length = 3 ∧
      ∃ v, ClusterView.ofReply patchedLayout "a" = .ok v ∧
        v.ranges = [⟨0, 99, "a:7000"⟩, ⟨100, 199, "b:7001"⟩, ⟨200, 299, "b:7001"⟩] ∧
        (∀ node, node ∈ v.primaries ↔ ∃ r ∈ v.ranges, r.node = node) ∧
        v.replicaCount "b:7001" = .ok 2 ∧
        v.nodeForSlot 150 = some "b:7001" ∧ ∃ n, v.replicaCount "b:7001" = .ok n := by
  have hview : ClusterView.ofReply patchedLayout "a" =
      .ok (ClusterView.ofEntries patchedEntries) := rfl
  have hranges : (ClusterView.ofEntries patchedEntries).ranges =
      [⟨0, 99, "a:7000"⟩, ⟨100, 199, "b:7001"⟩, ⟨200, 299, "b:7001"⟩] := by
    simp [ClusterView.ofEntries, patchedEntries, List.mergeSort]
  have hlookup : (ClusterView.ofEntries patchedEntries).nodeForSlot 150 = some "b:7001" := by
    simp [ClusterView.nodeForSlot, ClusterView.position, ClusterView.search, hranges]
  obtain ⟨-, hreading⟩ := @reading_is_exact patchedLayout _ rfl "a"
  obtain ⟨-, -, -, ⟨-, hprimaries⟩, -, hknown⟩ := hreading _ hview
  exact ⟨_, rfl, rfl, _, hview, hranges, hprimaries, rfl, hlookup, (hknown 150 _ hlookup).1⟩

end Redis

end Latchkey
