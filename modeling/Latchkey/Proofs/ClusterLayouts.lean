import Latchkey.Redis.Session

/-!
# The layout that a sharded store goes by

A sharded store changes its view only as a whole, to the one that an answer of the seed gives, and
keeps no pool for a primary that the view does not have.

The main statement is `refresh_is_atomic`.
-/

namespace Latchkey.Redis

/-! ## Views -/

namespace ClusterView

/-- The locator of every primary is made from its name. -/
def Located (v : ClusterView) : Prop :=
  ∀ node info, v.nodes.find? node = some info → info.url = "redis://" ++ node

/-- Some slots are served, and every primary that serves slots is known. -/
def Served (v : ClusterView) : Prop :=
  v.ranges ≠ [] ∧ ∀ r ∈ v.ranges, v.nodes.contains r.node = true

end ClusterView

/-- What is bound to a computation that succeeds goes on from its result. -/
theorem except_bind_eq_ok {ε α β : Type} {x : Except ε α} {f : α → Except ε β} {b : β}
    (h : x >>= f = .ok b) : ∃ a, x = .ok a ∧ f a = .ok b := by
  cases x with
  | error e => cases h
  | ok a => exact ⟨a, rfl, h⟩

namespace SlotEntry

/-- An entry names the primary that it gives a locator for. -/
def Located (e : SlotEntry) : Prop := e.info.url = "redis://" ++ e.range.node

theorem read_located {seedHost : String} {first last primary : Value} {replicas : List Value}
    {e : SlotEntry} (h : read seedHost first last primary replicas = .ok e) : e.Located := by
  unfold read at h
  obtain ⟨first', -, h⟩ := except_bind_eq_ok h
  obtain ⟨last', -, h⟩ := except_bind_eq_ok h
  obtain ⟨items, -, h⟩ := except_bind_eq_ok h
  split at h
  · obtain ⟨host, -, h⟩ := except_bind_eq_ok h
    obtain ⟨port, -, h⟩ := except_bind_eq_ok h
    cases h
    simp only [Located, StoreSettings.nodeUrl, String.append_assoc]
  · cases h

end SlotEntry

theorem readEntries_located {seedHost : String} {lists : List (List Value)} {es : List SlotEntry}
    (h : readEntries seedHost lists = .ok es) : ∀ e ∈ es, e.Located := by
  fun_induction readEntries seedHost lists generalizing es with
  | case1 =>
    cases h
    exact List.forall_mem_nil _
  | case2 rest first last primary replicas ih =>
    obtain ⟨e, hread, h⟩ := except_bind_eq_ok h
    obtain ⟨es', hrest, h⟩ := except_bind_eq_ok h
    cases h
    have hlocated : e.Located := SlotEntry.read_located hread
    exact List.forall_mem_cons.2 ⟨hlocated, ih hrest⟩
  | case3 entry rest _ ih => exact ih h

namespace ClusterView

/-- The table of primaries that entries are put into one after the other. -/
theorem foldl_insert_find? (es : List SlotEntry) (t : Table NodeId NodeInfo) (node : NodeId) :
    (es.foldl (fun t e => t.insert e.range.node e.info) t).find? node =
      ((es.reverse.find? fun e => e.range.node = node).map (·.info)).or (t.find? node) := by
  induction es generalizing t with
  | nil => rfl
  | cons e es ih =>
    rw [List.foldl_cons, ih, Table.find?_insert, List.reverse_cons, List.find?_append]
    by_cases h : e.range.node = node
    · cases es.reverse.find? fun e => e.range.node = node <;> simp [h]
    · have h' : ¬ node = e.range.node := fun heq => h heq.symm
      cases es.reverse.find? fun e => e.range.node = node <;> simp [h, h']

theorem ofEntries_find? (es : List SlotEntry) (node : NodeId) :
    (ofEntries es).nodes.find? node =
      (es.reverse.find? fun e => e.range.node = node).map (·.info) := by
  unfold ofEntries
  rw [foldl_insert_find?]
  exact Option.or_none

theorem ofEntries_located {es : List SlotEntry} (h : ∀ e ∈ es, e.Located) :
    (ofEntries es).Located := by
  intro node info hfind
  rw [ofEntries_find?] at hfind
  obtain ⟨e, hfound, rfl⟩ := Option.map_eq_some_iff.1 hfind
  have hnode : e.range.node = node := by simpa using List.find?_some hfound
  have hmem : e ∈ es := List.mem_reverse.1 (List.mem_of_find?_eq_some hfound)
  rw [← hnode]
  exact h e hmem

theorem ofEntries_served {es : List SlotEntry} (h : es ≠ []) : (ofEntries es).Served := by
  have hperm : (ofEntries es).ranges.Perm (es.map (·.range)) := List.mergeSort_perm _ _
  constructor
  · intro hnil
    rw [hnil] at hperm
    exact h (List.map_eq_nil_iff.1 hperm.nil_eq.symm)
  · intro r hr
    obtain ⟨e, hmem, rfl⟩ := List.mem_map.1 (hperm.mem_iff.1 hr)
    rw [Table.contains, ofEntries_find?, Option.isSome_map, List.find?_isSome]
    exact ⟨e, List.mem_reverse.2 hmem, by simp⟩

/-- A reply that can be read gives a view that is not empty. -/
theorem ofReply_eq_ok {reply : Value} {seedHost : String} {v : ClusterView}
    (h : ofReply reply seedHost = .ok v) : v.Located ∧ v.Served := by
  unfold ofReply at h
  obtain ⟨lists, -, h⟩ := except_bind_eq_ok h
  obtain ⟨es, hread, h⟩ := except_bind_eq_ok h
  split at h
  · cases h
  · next hne =>
    cases h
    exact ⟨ofEntries_located (readEntries_located hread), ofEntries_served hne⟩

end ClusterView

/-! ## What a store is used for -/

/-- What happens to an open sharded store. -/
inductive ClusterUse where
  /-- It is asked to connect to a node. -/
  | connect (node : NodeId)
  /-- It asks the seed anew, which answers. -/
  | tick (answer : Except StoreError Value)

/-- The answer of the seed, if it was asked. -/
def ClusterUse.answer? : ClusterUse → Option (Except StoreError Value)
  | .connect _ => none
  | .tick answer => some answer

/-- A view is that of the last reply that could be read, among answers of the seed. -/
def LastRead (s : StoreSettings) (answers : List (Except StoreError Value)) (v : ClusterView) :
    Prop :=
  ∃ before reply after, answers = before ++ .ok reply :: after ∧
    ClusterView.ofReply reply s.address = .ok v ∧
    ∀ answer ∈ after, ∀ v', ClusterStore.discover s answer ≠ .ok v'

namespace LastRead

variable {s : StoreSettings} {answers : List (Except StoreError Value)} {v : ClusterView}
  {answer : Except StoreError Value}

theorem snoc_read (answers : List (Except StoreError Value))
    (h : ClusterStore.discover s answer = .ok v) : LastRead s (answers ++ [answer]) v := by
  obtain ⟨reply, rfl, hread⟩ := except_bind_eq_ok h
  exact ⟨answers, reply, [], rfl, hread, List.forall_mem_nil _⟩

theorem snoc_unread (h : LastRead s answers v)
    (hunread : ∀ v', ClusterStore.discover s answer ≠ .ok v') :
    LastRead s (answers ++ [answer]) v := by
  obtain ⟨before, reply, after, rfl, hread, hafter⟩ := h
  refine ⟨before, reply, after ++ [answer], by simp, hread, ?_⟩
  intro answer' hmem
  rcases List.mem_append.1 hmem with hmem | hmem
  · exact hafter answer' hmem
  · rw [List.mem_singleton.1 hmem]
    exact hunread

end LastRead

namespace ClusterStore

variable {s : StoreSettings} {c c' : ClusterStore} {node : NodeId} {endpoint : Endpoint}
  {answers : List (Except StoreError Value)} {answer : Except StoreError Value} {v : ClusterView}

/-- The store after it was used. -/
def used (c : ClusterStore) : ClusterUse → ClusterStore
  | .connect node => (c.connect node).1
  | .tick answer => c.tick answer

/-- The pools of a store have numbers of their own, among those that it has given. -/
structure Numbered (c : ClusterStore) : Prop where
  given : ∀ node pool, c.pools.find? node = some pool → pool.serial < c.poolsMade
  unique : ∀ node node' pool pool', c.pools.find? node = some pool →
    c.pools.find? node' = some pool' → pool.serial = pool'.serial → node = node'

/-- A store that nobody has closed: its view is that of the last answer that could be read, every
pool leads to where the view has its primary, and the pools are numbered. -/
structure Settled (s : StoreSettings) (answers : List (Except StoreError Value))
    (c : ClusterStore) : Prop where
  settings : c.settings = s
  isOpen : c.closing = false
  lastRead : LastRead s answers c.view
  pooled : ∀ node pool, c.pools.find? node = some pool →
    ∃ info, c.view.nodes.find? node = some info ∧ poolEndpoint info.url = .ok pool.endpoint
  numbered : c.Numbered

/-! ### Pools -/

@[simp] theorem find?_addPool (c : ClusterStore) (node other : NodeId) (endpoint : Endpoint) :
    (c.addPool node endpoint).pools.find? other =
      if other = node then some ⟨c.poolsMade, endpoint⟩ else c.pools.find? other := by
  simp [addPool]

/-- All that making a pool changes is that the primary has one afterwards. -/
theorem poolFor_cases (h : c.poolFor node = .ok (c', endpoint)) :
    (c' = c ∧ ∃ pool, c.pools.find? node = some pool ∧ pool.endpoint = endpoint) ∨
      ∃ info, c.pools.find? node = none ∧ c.view.nodes.find? node = some info ∧
        poolEndpoint info.url = .ok endpoint ∧ c' = c.addPool node endpoint := by
  unfold poolFor at h
  split at h
  · next pool hfound =>
    cases h
    exact .inl ⟨rfl, pool, hfound, rfl⟩
  · next hnone =>
    split at h
    · cases h
    · next info hinfo =>
      obtain ⟨endpoint', hpool, h⟩ := except_bind_eq_ok h
      cases h
      exact .inr ⟨info, hnone, hinfo, hpool, rfl⟩

/-- What becomes of the pools when a primary is to have one: all stay, and the only new one has the
next number. -/
theorem poolFor_keeps (h : c.poolFor node = .ok (c', endpoint)) :
    c'.view = c.view ∧
      (∀ other pool, c.pools.find? other = some pool → c'.pools.find? other = some pool) ∧
      ∀ other pool, c'.pools.find? other = some pool →
        c.pools.find? other = some pool ∨ other = node ∧ pool.serial = c.poolsMade := by
  rcases poolFor_cases h with ⟨rfl, -⟩ | ⟨info, hnone, -, -, rfl⟩
  · exact ⟨rfl, fun _ _ hother => hother, fun _ _ hother => .inl hother⟩
  · refine ⟨rfl, fun other pool hother => ?_, fun other pool hother => ?_⟩
    · have hne : other ≠ node := by
        rintro rfl
        rw [hnone] at hother
        cases hother
      simpa [hne] using hother
    · rw [find?_addPool] at hother
      split at hother
      · next heq =>
        cases hother
        exact .inr ⟨heq, rfl⟩
      · exact .inl hother

/-- A new pool gets a number that no pool has. -/
theorem Numbered.addPool (h : c.Numbered) (node : NodeId) (endpoint : Endpoint) :
    (c.addPool node endpoint).Numbered := by
  have hcases : ∀ other pool, (c.addPool node endpoint).pools.find? other = some pool →
      (other = node ∧ pool.serial = c.poolsMade) ∨
        c.pools.find? other = some pool ∧ pool.serial < c.poolsMade := by
    intro other pool hother
    rw [find?_addPool] at hother
    split at hother
    · next heq =>
      cases hother
      exact .inl ⟨heq, rfl⟩
    · exact .inr ⟨hother, h.given other pool hother⟩
  constructor
  · intro other pool hother
    show pool.serial < c.poolsMade + 1
    rcases hcases other pool hother with ⟨-, heq⟩ | ⟨-, hlt⟩ <;> omega
  · intro other other' pool pool' hother hother' heq
    rcases hcases other pool hother with ⟨rfl, hnew⟩ | ⟨hold, hlt⟩
    · rcases hcases other' pool' hother' with ⟨rfl, -⟩ | ⟨-, hlt'⟩
      · rfl
      · omega
    · rcases hcases other' pool' hother' with ⟨-, hnew'⟩ | ⟨hold', -⟩
      · omega
      · exact h.unique other other' pool pool' hold hold' heq

theorem Settled.poolFor (hc : c.Settled s answers) (h : c.poolFor node = .ok (c', endpoint)) :
    c'.Settled s answers := by
  rcases poolFor_cases h with ⟨rfl, -⟩ | ⟨info, -, hinfo, hpool, rfl⟩
  · exact hc
  · refine { hc with pooled := ?_, numbered := hc.numbered.addPool node endpoint }
    intro other pool hother
    rw [find?_addPool] at hother
    split at hother
    · next heq =>
      cases hother
      exact ⟨info, heq ▸ hinfo, hpool⟩
    · exact hc.pooled other pool hother

theorem Settled.prepare {nodes : List NodeId} (hc : c.Settled s answers)
    (h : c.prepare nodes = .ok c') : c'.Settled s answers := by
  induction nodes generalizing c with
  | nil =>
    cases h
    exact hc
  | cons node rest ih =>
    obtain ⟨⟨c₁, endpoint⟩, hpool, h⟩ := except_bind_eq_ok h
    exact ih (hc.poolFor hpool) h

/-! ### One use -/

theorem Settled.of_discover (h : discover s answer = .ok v) (seed : Endpoint) :
    Settled s [answer] { settings := s, seed := seed, view := v } where
  settings := rfl
  isOpen := rfl
  lastRead := LastRead.snoc_read [] h
  pooled _ _ hfind := nomatch hfind
  numbered := ⟨fun _ _ => nofun, fun _ _ _ _ => nofun⟩

/-- The store that was opened goes by what the seed has answered. -/
theorem settled_ofSeed {seed : Endpoint} (h : ofSeed s seed answer = .ok c) :
    c.Settled s [answer] := by
  obtain ⟨v, hview, h⟩ := except_bind_eq_ok h
  have hfirst := Settled.of_discover hview seed
  by_cases hprepare : s.preparePool
  · rw [if_pos hprepare] at h
    exact hfirst.prepare h
  · rw [if_neg hprepare] at h
    cases h
    exact hfirst

theorem tick_of_unread (h : ∀ v, discover c.settings answer ≠ .ok v) : c.tick answer = c := by
  unfold tick refresh
  split
  · rfl
  · split
    · rfl
    · next v hview => exact absurd hview (h v)

theorem tick_of_read (hopen : c.closing = false) (h : discover c.settings answer = .ok v) :
    c.tick answer =
      { c with view := v, pools := c.pools.filter fun node _ => v.nodes.contains node } := by
  simp only [tick, refresh, hopen, h, Bool.false_eq_true, if_false]

/-- Pools that are kept keep their numbers. -/
theorem Numbered.filter (h : c.Numbered) (v : ClusterView) :
    Numbered { c with view := v, pools := c.pools.filter fun node _ => v.nodes.contains node } := by
  have hkept : ∀ node pool, (c.pools.filter fun node _ => v.nodes.contains node).find? node =
      some pool → c.pools.find? node = some pool := by
    intro node pool hfind
    rw [Table.find?_filter_key c.pools fun node => v.nodes.contains node] at hfind
    split at hfind
    · exact hfind
    · cases hfind
  exact ⟨fun node pool hfind => h.given node pool (hkept node pool hfind),
    fun node node' pool pool' hfind hfind' =>
      h.unique node node' pool pool' (hkept node pool hfind) (hkept node' pool' hfind')⟩

theorem Settled.tick (hc : c.Settled s answers) (answer : Except StoreError Value) :
    (c.tick answer).Settled s (answers ++ [answer]) := by
  by_cases hread : ∃ v, discover s answer = .ok v
  · obtain ⟨v, hview⟩ := hread
    rw [tick_of_read hc.isOpen (hc.settings ▸ hview)]
    refine { hc with
      lastRead := LastRead.snoc_read answers hview
      pooled := ?_
      numbered := hc.numbered.filter v }
    -- a pool that is kept was made for the locator of its primary, which is the same in every view
    intro node pool hfind
    rw [Table.find?_filter_key c.pools fun node => v.nodes.contains node] at hfind
    split at hfind
    · next hcontains =>
      obtain ⟨info, hinfo⟩ := Option.isSome_iff_exists.1 hcontains
      obtain ⟨info₀, hinfo₀, hpool⟩ := hc.pooled node pool hfind
      obtain ⟨-, reply₀, -, -, hreply₀, -⟩ := hc.lastRead
      obtain ⟨reply, -, hreply⟩ := except_bind_eq_ok hview
      have hurl₀ : info₀.url = "redis://" ++ node :=
        (ClusterView.ofReply_eq_ok hreply₀).1 node info₀ hinfo₀
      have hurl : info.url = "redis://" ++ node :=
        (ClusterView.ofReply_eq_ok hreply).1 node info hinfo
      exact ⟨info, hinfo, by rw [hurl, ← hurl₀, hpool]⟩
    · cases hfind
  · have hunread : ∀ v, discover s answer ≠ .ok v := fun v hv => hread ⟨v, hv⟩
    rw [tick_of_unread (hc.settings.symm ▸ hunread)]
    exact { hc with lastRead := hc.lastRead.snoc_unread hunread }

/-- Connecting to a node changes nothing, or makes a pool. -/
theorem connect_cases (hopen : c.closing = false) (node : NodeId) :
    (∃ e, c.poolFor node = .error e ∧ c.connect node = (c, .error e)) ∨
      ∃ c' endpoint, c.poolFor node = .ok (c', endpoint) ∧ c.connect node = (c', .ok endpoint) := by
  unfold connect
  rw [if_neg (by simp [hopen])]
  cases hpool : c.poolFor node with
  | error e => exact .inl ⟨e, rfl, rfl⟩
  | ok r => exact .inr ⟨r.1, r.2, rfl, rfl⟩

theorem Settled.connect (hc : c.Settled s answers) (node : NodeId) :
    (c.connect node).1.Settled s answers := by
  rcases connect_cases hc.isOpen node with ⟨e, -, heq⟩ | ⟨c', endpoint, hpool, heq⟩
  · rw [heq]
    exact hc
  · rw [heq]
    exact hc.poolFor hpool

theorem Settled.used (hc : c.Settled s answers) (use : ClusterUse) :
    (c.used use).Settled s (answers ++ use.answer?.toList) := by
  cases use with
  | connect node =>
    show (c.connect node).1.Settled s (answers ++ [])
    rw [List.append_nil]
    exact hc.connect node
  | tick answer => exact hc.tick answer

/-- A settled store stays so however it is used. -/
theorem Settled.run (hc : c.Settled s answers) (uses : List ClusterUse) :
    (uses.foldl ClusterStore.used c).Settled s (answers ++ uses.filterMap ClusterUse.answer?) := by
  induction uses generalizing c answers with
  | nil => simpa using hc
  | cons use uses ih =>
    have hanswers : (use :: uses).filterMap ClusterUse.answer? =
        use.answer?.toList ++ uses.filterMap ClusterUse.answer? := by
      cases use <;> rfl
    rw [List.foldl_cons, hanswers, ← List.append_assoc]
    exact ih (hc.used use)

/-! ### Nodes that are unknown -/

theorem Settled.pools_of_unknown (hc : c.Settled s answers) (h : c.view.nodes.find? node = none) :
    c.pools.find? node = none := by
  cases hfind : c.pools.find? node with
  | none => rfl
  | some pool =>
    obtain ⟨info, hinfo, -⟩ := hc.pooled node pool hfind
    rw [h] at hinfo
    cases hinfo

theorem Settled.connect_unknown (hc : c.Settled s answers)
    (h : c.view.nodes.find? node = none) :
    c.connect node = (c, .error (.topology ("unknown node " ++ node))) := by
  have hpool : c.poolFor node = .error (.topology ("unknown node " ++ node)) := by
    simp only [ClusterStore.poolFor, hc.pools_of_unknown h, h]
  simp only [ClusterStore.connect, hc.isOpen, hpool, Bool.false_eq_true, if_false]

theorem Settled.connect_keeps (hc : c.Settled s answers) (node : NodeId) :
    (c.connect node).1.view = c.view ∧
      (∀ other pool, c.pools.find? other = some pool →
        (c.connect node).1.pools.find? other = some pool) ∧
      ∀ other pool, (c.connect node).1.pools.find? other = some pool →
        c.pools.find? other = some pool ∨ other = node ∧ pool.serial = c.poolsMade := by
  rcases connect_cases hc.isOpen node with ⟨e, -, heq⟩ | ⟨c', endpoint, hpool, heq⟩
  · rw [heq]
    exact ⟨rfl, fun _ _ hother => hother, fun _ _ hother => .inl hother⟩
  · rw [heq]
    exact poolFor_keeps hpool

end ClusterStore

/-- A session over a store that refuses to connect reports this and stays as it is. -/
theorem Session.connect_refused {σ : Type} (net : Network σ) {x : Session σ} {c : ClusterStore}
    {node : NodeId} {e : StoreError} (hstore : x.store = .cluster c)
    (h : c.connect node = (c, .error e)) : x.connect net node = (x, .error e) := by
  obtain ⟨ledger, now, store, n, loans⟩ := x
  cases hstore
  simp only [Session.connect, Store.connect, h]

/-- A sharded store that was opened, however often it is asked to connect and whatever the seed
answers when it is asked anew.

The view is always that of the last reply that could be read, and is not empty. An answer that gives
no layout leaves the whole store as it is; one that gives a layout replaces the view and keeps
exactly the pools of the primaries in it, each under its number, and makes none. Every pool is that
of a primary in the view and leads to where the view has it, and no two have the same number.
Connecting leaves the view and the pools that there are alone and makes no pool but one with the
next number, and to connect to a node that the view does not have fails and makes no pool. -/
theorem refresh_is_atomic {s : StoreSettings} {seed : Endpoint}
    {answer : Except StoreError Value} {c₀ : ClusterStore}
    (h : ClusterStore.ofSeed s seed answer = .ok c₀) (uses : List ClusterUse) :
    let c := uses.foldl ClusterStore.used c₀
    LastRead s (answer :: uses.filterMap ClusterUse.answer?) c.view ∧
    (c.view.ranges ≠ [] ∧ ∀ r ∈ c.view.ranges, c.view.nodes.contains r.node = true) ∧
    (∀ node pool, c.pools.find? node = some pool →
      ∃ info, c.view.nodes.find? node = some info ∧
        poolEndpoint info.url = .ok pool.endpoint) ∧
    c.Numbered ∧
    (∀ next, (∀ v, ClusterStore.discover s next ≠ .ok v) → c.tick next = c) ∧
    (∀ next v, ClusterStore.discover s next = .ok v →
      (c.tick next).view = v ∧ (c.tick next).poolsMade = c.poolsMade ∧
      ∀ node, (c.tick next).pools.find? node =
        if v.nodes.contains node then c.pools.find? node else none) ∧
    (∀ node, (c.connect node).1.view = c.view ∧
      (∀ other pool, c.pools.find? other = some pool →
        (c.connect node).1.pools.find? other = some pool) ∧
      ∀ other pool, (c.connect node).1.pools.find? other = some pool →
        c.pools.find? other = some pool ∨ other = node ∧ pool.serial = c.poolsMade) ∧
    (∀ node, c.view.nodes.contains node = false →
      c.connect node = (c, .error (.topology ("unknown node " ++ node))) ∧
      ∀ {σ : Type} (net : Network σ) (x : Session σ), x.store = .cluster c →
        x.connect net node = (x, .error (.topology ("unknown node " ++ node)))) := by
  intro c
  have hc : c.Settled s (answer :: uses.filterMap ClusterUse.answer?) :=
    (ClusterStore.settled_ofSeed h).run uses
  have hserved : c.view.Served := by
    obtain ⟨-, reply, -, -, hreply, -⟩ := hc.lastRead
    exact (ClusterView.ofReply_eq_ok hreply).2
  refine ⟨hc.lastRead, hserved, hc.pooled, hc.numbered, ?_, ?_, hc.connect_keeps, ?_⟩
  · intro next hunread
    exact ClusterStore.tick_of_unread (hc.settings.symm ▸ hunread)
  · intro next v hread
    rw [ClusterStore.tick_of_read hc.isOpen (hc.settings.symm ▸ hread)]
    exact ⟨rfl, rfl, Table.find?_filter_key c.pools fun node => v.nodes.contains node⟩
  · intro node hunknown
    have hnone : c.view.nodes.find? node = none := by simpa [Table.contains] using hunknown
    have hrefused := hc.connect_unknown hnone
    exact ⟨hrefused, fun net x hstore => Session.connect_refused net hstore hrefused⟩

/-- What a seed answers when one primary, reached at port 7000 of a host, serves all slots. -/
def soleLayout (host : List UInt8) : Except StoreError Value :=
  .ok (.list [.list [.int 0, .int 16383, .list [.bulk host, .int 7000]]])

/-- A primary that was connected to is found again, and keeps its pool. Then it is replaced by
another one, and after that the seed fails: the store goes by the new primary, and the old one has
no pool any more and cannot be connected to. -/
theorem refresh_replaces_primary :
    ∃ c₀, ClusterStore.ofSeed {} ⟨.network "a" 7000, 0⟩ (soleLayout [97]) = .ok c₀ ∧
      let c := [ClusterUse.connect "a:7000", .tick (soleLayout [97])].foldl
        ClusterStore.used c₀
      let c' := [ClusterUse.connect "a:7000", .tick (soleLayout [97]), .tick (soleLayout [98]),
        .tick (.error .closed)].foldl ClusterStore.used c₀
      LastRead {} [soleLayout [97], soleLayout [97]] c.view ∧
      c.pools.find? "a:7000" = some ⟨0, ⟨.network "a" 7000, 0⟩⟩ ∧ c.poolsMade = 1 ∧
      LastRead {} [soleLayout [97], soleLayout [97], soleLayout [98], .error .closed] c'.view ∧
      c'.view.ranges ≠ [] ∧ c'.pools.find? "a:7000" = none ∧
      c'.connect "a:7000" = (c', .error (.topology "unknown node a:7000")) := by
  refine ⟨_, rfl, ?_⟩
  intro c c'
  obtain ⟨hlast, -⟩ := @refresh_is_atomic {} ⟨.network "a" 7000, 0⟩ (soleLayout [97]) _ rfl
    [.connect "a:7000", .tick (soleLayout [97])]
  obtain ⟨hlast', hserved, -, -, -, -, -, hunknown⟩ := @refresh_is_atomic {}
    ⟨.network "a" 7000, 0⟩ (soleLayout [97]) _ rfl
    [.connect "a:7000", .tick (soleLayout [97]), .tick (soleLayout [98]), .tick (.error .closed)]
  exact ⟨hlast, by decide +kernel, by decide +kernel, hlast', hserved.1, by decide +kernel,
    (hunknown "a:7000" (by decide +kernel)).1⟩

end Latchkey.Redis
