import Latchkey.Proofs.Locators
import Latchkey.Proofs.SlotReplies

/-!
# Primaries without a host

An entry of a layout may leave the host of its primary empty; then the node that has answered is
meant. What stands in for the host is the whole address of the settings. So the primary is found if
that is a host. If the address is a locator the primary gets a name that is none of a host and a
port, and it cannot be connected to.

The main statement is `empty_host_is_address`.
-/

namespace Latchkey.Redis

open Net.Url (IsWord)

/-- The locator of a node is made from its name. -/
theorem nodeUrl_eq (host : String) (port : Nat) :
    StoreSettings.nodeUrl host port = "redis://" ++ (host ++ ":" ++ Nat.repr port) := by
  simp only [StoreSettings.nodeUrl, String.append_assoc]

/-- A port has sixteen bits. -/
theorem Value.toPort_le {v : Value} {n : Nat} (h : v.toPort = .ok n) : n ≤ 65535 := by
  unfold toPort at h
  split at h
  · cases h
    omega
  · cases h
    exact Nat.le_of_lt_succ (UInt16.toNat_lt _)
  · split at h
    · split at h
      · next hle =>
        cases h
        exact hle
      · cases h
    · cases h

/-- An entry of a layout says the port of its primary and leaves the host empty. -/
inductive Hostless : List Value → Nat → Prop
  /-- An entry with two slots, a primary and its replicas. -/
  | entry {first last primary host port : Value} {more replicas : List Value} {n : Nat}
      (hprimary : primary.toList = .ok (host :: port :: more)) (hhost : host.toText = .ok "")
      (hport : port.toPort = .ok n) : Hostless (first :: last :: primary :: replicas) n

namespace Hostless

variable {entry : List Value} {port : Nat}

theorem port_le (h : Hostless entry port) : port ≤ 65535 := by
  obtain ⟨-, -, hport⟩ := h
  exact Value.toPort_le hport

theorem mem_keptEntries (h : Hostless entry port) {lists : List (List Value)}
    (hmem : entry ∈ lists) : entry ∈ keptEntries lists := by
  obtain ⟨-, -, -⟩ := h
  exact List.mem_filter.2 ⟨hmem, by simp⟩

/-- The seed stands in for the host. -/
theorem node_eq (h : Hostless entry port) {seedHost : String} {e : SlotEntry}
    (hmeans : SlotEntry.Says seedHost entry e) :
    e.range.node = seedHost ++ ":" ++ Nat.repr port := by
  obtain ⟨hprimary, hhost, hport⟩ := h
  obtain ⟨-, -, hprimary', hhost', hport', hnode⟩ := hmeans
  cases hprimary.symm.trans hprimary'
  cases hhost.symm.trans hhost'
  cases hport.symm.trans hport'
  rw [hnode, if_pos rfl]

end Hostless

/-- Each item of a list has a partner in the list of partners. -/
theorem exists_mem_of_forall₂ {α β : Type} {R : α → β → Prop} {l : List α} {l' : List β}
    (h : List.Forall₂ R l l') {a : α} (ha : a ∈ l) : ∃ b ∈ l', R a b := by
  induction h with
  | nil => cases ha
  | cons hab hrest ih =>
    rcases List.mem_cons.1 ha with rfl | ha
    · exact ⟨_, List.mem_cons_self, hab⟩
    · obtain ⟨b, hb, hR⟩ := ih ha
      exact ⟨b, List.mem_cons_of_mem _ hb, hR⟩

/-- Each entry that is read says something that is in the view. -/
theorem ClusterView.says_of_ofReply {reply : Value} {lists : List (List Value)} {seedHost : String}
    {v : ClusterView} (hlists : reply.toLists = .ok lists) (hv : ofReply reply seedHost = .ok v)
    {entry : List Value} (hmem : entry ∈ keptEntries lists) :
    ∃ e, SlotEntry.Says seedHost entry e ∧ e.range ∈ v.ranges := by
  obtain ⟨es, hmeans, -, rfl⟩ := (ofReply_eq_ok_iff hlists).1 hv
  obtain ⟨e, he, hentry⟩ := exists_mem_of_forall₂ hmeans hmem
  exact ⟨e, hentry, (ofEntries_perm es).mem_iff.2 (List.mem_map_of_mem he)⟩

/-! ## Connecting -/

namespace ClusterStore

variable {s : StoreSettings} {answers : List (Except StoreError Value)} {c : ClusterStore}
  {node : NodeId} {info : NodeInfo}

/-- A pool for a primary leads to where its locator does. -/
theorem Settled.poolFor_eq (hc : c.Settled s answers)
    (hinfo : c.view.nodes.find? node = some info) :
    (c.poolFor node).map (·.2) = poolEndpoint info.url := by
  unfold ClusterStore.poolFor
  cases hfind : c.pools.find? node with
  | some pool =>
    obtain ⟨info', hinfo', hpool⟩ := hc.pooled node pool hfind
    cases hinfo.symm.trans hinfo'
    exact hpool.symm
  | none =>
    simp only [hinfo]
    cases poolEndpoint info.url <;> rfl

/-- A store connects to a primary exactly where the locator of the primary leads. -/
theorem Settled.connect_eq (hc : c.Settled s answers)
    (hinfo : c.view.nodes.find? node = some info) :
    (c.connect node).2 = poolEndpoint info.url := by
  rw [← hc.poolFor_eq hinfo]
  rcases connect_cases hc.isOpen node with ⟨e, hfor, hconnect⟩ | ⟨c', endpoint, hfor, hconnect⟩
  · rw [hfor, hconnect]
    rfl
  · rw [hfor, hconnect]
    rfl

end ClusterStore

/-- What stands in for the host that an entry leaves empty.

Let a sharded store be opened with settings, and let an entry of the layout that the seed answers
have a port and an empty host. Then the primary of the entry is named by the address of the
settings, as it is written there, and the port, and its locator is made from this name. If the
address is a word, the store connects to that host and that port. If the address is a locator
itself, of a scheme, a host and a port, the name is not that of the host and the port of the entry,
nor is the locator, and the store does not connect to the primary. -/
theorem empty_host_is_address {s : StoreSettings} {seed : Endpoint} {reply : Value}
    {lists : List (List Value)} {c : ClusterStore} (hlists : reply.toLists = .ok lists)
    (hopen : ClusterStore.ofSeed s seed (.ok reply) = .ok c) {entry : List Value} {port : Nat}
    (hentry : entry ∈ lists) (hhostless : Hostless entry port) :
    let node := s.address ++ ":" ++ Nat.repr port
    (∃ e, SlotEntry.Says s.address entry e ∧ e.range ∈ c.view.ranges ∧ e.range.node = node) ∧
    node ∈ c.view.primaries ∧
    (∃ info, c.view.nodes.find? node = some info ∧ info.url = "redis://" ++ node) ∧
    (IsWord s.address.toList → (c.connect node).2 = .ok ⟨.network s.address port, 0⟩) ∧
    ∀ scheme host p, IsWord scheme.toList → IsWord host.toList →
      s.address = scheme ++ "://" ++ host ++ ":" ++ Nat.repr p →
      node ≠ host ++ ":" ++ Nat.repr port ∧ "redis://" ++ node ≠ StoreSettings.nodeUrl host port ∧
        (c.connect node).2 =
          .error (.createPool (.config (Endpoint.refused "Invalid database number"))) := by
  intro node
  have hc := ClusterStore.settled_ofSeed hopen
  have hview : ClusterView.ofReply reply s.address = .ok c.view := by
    obtain ⟨before, last, after, hsplit, hread, -⟩ := hc.lastRead
    have hlast : (.ok last : Except StoreError Value) ∈ [.ok reply] := by
      rw [hsplit]
      simp
    cases List.mem_singleton.1 hlast
    exact hread
  obtain ⟨e, hmeans, hrange⟩ :=
    ClusterView.says_of_ofReply hlists hview (hhostless.mem_keptEntries hentry)
  have hnode : e.range.node = node := hhostless.node_eq hmeans
  obtain ⟨hlocated, -, hserved⟩ := ClusterView.ofReply_eq_ok hview
  have hcontains : c.view.nodes.contains node = true := hnode ▸ hserved e.range hrange
  obtain ⟨info, hinfo⟩ := Option.isSome_iff_exists.1 hcontains
  have hurl : info.url = "redis://" ++ node := hlocated node info hinfo
  have hconnect := hc.connect_eq hinfo
  have hnodeUrl : info.url = StoreSettings.nodeUrl s.address port := by rw [hurl, nodeUrl_eq]
  refine ⟨⟨e, hmeans, hrange, hnode⟩, (ClusterView.mem_primaries _).2 hcontains,
    ⟨info, hinfo, hurl⟩, fun hword => ?_, fun scheme host p hscheme hhost haddress => ?_⟩
  · rw [hconnect, hnodeUrl, poolEndpoint_word hword hhostless.port_le]
  · have hne : node ≠ host ++ ":" ++ Nat.repr port := by
      -- the name has the slashes behind the scheme, and the other one has none
      have hslash : '/' ∈ node.toList := by simp [node, haddress]
      have hnone : '/' ∉ host.toList ++ ':' :: (Nat.repr port).toList :=
        not_mem_join (hhost.not_mem (by decide)) (by decide)
          ((Net.Url.isWord_repr port).not_mem (by decide))
      intro heq
      rw [heq] at hslash
      simp only [String.toList_append, List.append_assoc] at hslash
      exact hnone hslash
    refine ⟨hne, ?_, ?_⟩
    · rw [nodeUrl_eq]
      exact fun heq => hne ((String.append_right_inj _).1 heq)
    · rw [hconnect, hnodeUrl, haddress, poolEndpoint_locator hscheme hhost]

/-- A layout with one entry, the host of which is missing. -/
def loneLayout : Value := .list [.list [.int 0, .int 16383, primaryAt [] 7000]]

/-- Settings that give the host as a locator. -/
def locatorSettings : StoreSettings := { address := "redis://10.0.0.1:7000" }

/-- A store is opened with the locator of its seed, and cannot connect to the seed. -/
theorem empty_host_is_address_locator :
    ∃ lists c, loneLayout.toLists = .ok lists ∧
      ClusterStore.ofSeed locatorSettings ⟨.network "10.0.0.1" 7000, 0⟩ (.ok loneLayout) = .ok c ∧
      (∃ entry ∈ lists, Hostless entry 7000) ∧
      c.view.ranges = [⟨0, 16383, "redis://10.0.0.1:7000:7000"⟩] ∧
      "redis://10.0.0.1:7000:7000" ∈ c.view.primaries ∧
      (c.connect "redis://10.0.0.1:7000:7000").2 =
        .error (.createPool (.config (Endpoint.refused "Invalid database number"))) := by
  have hopen : ClusterStore.ofSeed locatorSettings ⟨.network "10.0.0.1" 7000, 0⟩ (.ok loneLayout) =
      .ok { settings := locatorSettings
            seed := ⟨.network "10.0.0.1" 7000, 0⟩
            view := .ofEntries [⟨⟨0, 16383, "redis://10.0.0.1:7000:7000"⟩,
              ⟨"redis://redis://10.0.0.1:7000:7000", 0⟩⟩] } := rfl
  have hhostless : Hostless [.int 0, .int 16383, primaryAt [] 7000] 7000 := .entry rfl rfl rfl
  obtain ⟨-, hprimary, -, -, hlocator⟩ :=
    empty_host_is_address rfl hopen List.mem_cons_self hhostless
  obtain ⟨-, -, hconnect⟩ := hlocator "redis" "10.0.0.1" 7000
    ⟨by decide, by simp [Net.Url.hostDelimiters]⟩
    ⟨by decide, by simp [Net.Url.hostDelimiters]⟩ rfl
  exact ⟨_, _, rfl, hopen, ⟨_, List.mem_cons_self, hhostless⟩,
    List.mergeSort_singleton _, hprimary, hconnect⟩

end Latchkey.Redis
