import Latchkey.Lock.Key
import Latchkey.Redis.ClusterView
import Latchkey.Slot
import Latchkey.Store.Memory

/-!
# Hash tags

A key is divided by its first opening brace and the first closing brace behind it. If there is
something between the two it is the tag of the key, and it has no tag of its own; else the key has
no tag and is hashed as a whole. The name of a lock comes behind a tag that all lock keys have, so
whatever is in the name, lock keys have one slot and one owner.

The main statement is `tags_place_keys`.
-/

namespace Latchkey

/-! ## Tags -/

/-- A key has a tag: bytes between its first opening brace and the next closing brace, at least
one. -/
inductive Tagged : List UInt8 → List UInt8 → Prop where
  | between {before tag behind : List UInt8} (hbefore : openBrace ∉ before)
      (htag : closeBrace ∉ tag) (hne : tag ≠ []) :
      Tagged (before ++ openBrace :: (tag ++ closeBrace :: behind)) tag

/-- Bytes up to the first one of a kind, that one, and what is behind it. -/
theorem span_eq {brace : UInt8} {before : List UInt8} (behind : List UInt8)
    (hbefore : brace ∉ before) :
    (before ++ brace :: behind).takeWhile (· != brace) = before ∧
      (before ++ brace :: behind).dropWhile (· != brace) = brace :: behind := by
  have hpass : ∀ b ∈ before, (b != brace) = true := by
    intro b hmem
    rw [bne_iff_ne]
    rintro rfl
    exact hbefore hmem
  rw [List.takeWhile_append_of_pos hpass, List.dropWhile_append_of_pos hpass]
  simp

/-- Where something is left, the bytes are divided at the first one of a kind. -/
theorem split_of_dropWhile {brace b : UInt8} {bytes behind : List UInt8}
    (h : bytes.dropWhile (· != brace) = b :: behind) :
    bytes = bytes.takeWhile (· != brace) ++ brace :: behind := by
  have hstop := List.head?_dropWhile_not (· != brace) bytes
  simp only [h, List.head?_cons, bne_eq_false_iff_eq] at hstop
  rw [← hstop] at h ⊢
  rw [← h, List.takeWhile_append_dropWhile]

/-- A kind of byte does not come before its first one. -/
theorem not_mem_takeWhile (brace : UInt8) (bytes : List UInt8) :
    brace ∉ bytes.takeWhile (· != brace) := by
  intro hmem
  simpa using List.all_eq_true.1 (List.all_takeWhile (p := (· != brace)) (l := bytes)) brace hmem

namespace Tagged

variable {key tag : List UInt8}

/-- The tag is what is hashed. -/
theorem hashTag_eq (h : Tagged key tag) : hashTag key = tag := by
  obtain ⟨hbefore, htag, hne⟩ := h
  rename_i before behind
  simp only [hashTag, (span_eq _ hbefore).2, (span_eq behind htag).1, (span_eq behind htag).2]
  exact if_neg (by simpa using hne)

theorem closeBrace_not_mem (h : Tagged key tag) : closeBrace ∉ tag := by
  obtain ⟨-, htag, -⟩ := h
  exact htag

/-- A key with a tag has a closing brace. -/
theorem closeBrace_mem (h : Tagged key tag) : closeBrace ∈ key := by
  obtain ⟨-, -, -⟩ := h
  simp

/-- A tag has no tag. -/
theorem not_tagged (h : Tagged key tag) (tag' : List UInt8) : ¬ Tagged tag tag' :=
  fun h' => h.closeBrace_not_mem h'.closeBrace_mem

end Tagged

/-- What is hashed is the whole key or its tag. -/
theorem hashTag_eq_or_tagged (key : List UInt8) :
    hashTag key = key ∨ Tagged key (hashTag key) := by
  rw [hashTag]
  split
  · exact .inl rfl
  · next afterOpen hopen =>
    split
    · exact .inl rfl
    · next behind hclose =>
      dsimp only
      split
      · exact .inl rfl
      · next hne =>
        refine .inr ?_
        have hkey := split_of_dropWhile hopen
        rw [split_of_dropWhile hclose] at hkey
        rw [hkey]
        exact .between (not_mem_takeWhile openBrace key) (not_mem_takeWhile closeBrace afterOpen)
          (by simpa using hne)

/-- The keys that are hashed as a whole are those without a tag. -/
theorem hashTag_eq_self_iff {key : List UInt8} : hashTag key = key ↔ ¬ ∃ tag, Tagged key tag := by
  constructor
  · rintro hself ⟨tag, htagged⟩
    -- the tag would be the whole key, and a tag has no tag
    rw [htagged.hashTag_eq] at hself
    subst hself
    exact htagged.not_tagged tag htagged
  · exact fun h => (hashTag_eq_or_tagged key).resolve_right fun htagged => h ⟨_, htagged⟩

/-- What is hashed of a key has no other tag than itself. -/
theorem hashTag_idem (key : List UInt8) : hashTag (hashTag key) = hashTag key := by
  rcases hashTag_eq_or_tagged key with hself | htagged
  · rw [hself, hself]
  · exact hashTag_eq_self_iff.2 fun ⟨tag, h⟩ => htagged.not_tagged tag h

/-! ## Lock keys -/

theorem toList_loop_eq (bytes : ByteArray) (i : Nat) (read : List UInt8) :
    ByteArray.toList.loop bytes i read = read.reverse ++ bytes.data.toList.drop i := by
  fun_induction ByteArray.toList.loop bytes i read with
  | case1 i read hlt ih =>
    rw [ih, List.reverse_cons, List.append_assoc, List.drop_eq_getElem_cons (i := i) hlt]
    have hbyte : bytes.get! i = bytes.data.toList[i] := getElem!_pos bytes.data i hlt
    rw [hbyte, List.singleton_append]
  | case2 i read hend =>
    rw [List.drop_eq_nil_of_le (Nat.le_of_not_lt hend), List.append_nil]

theorem textBytes_eq (s : String) : textBytes s = s.toByteArray.data.toList :=
  toList_loop_eq s.toByteArray 0 []

theorem textBytes_append (s t : String) : textBytes (s ++ t) = textBytes s ++ textBytes t := by
  simp only [textBytes_eq, String.toByteArray_append, ByteArray.toList_data_append]

/-- The key of a lock has the common tag, whatever the name of the lock is. -/
theorem lockKey_tagged (name : String) : Tagged (textBytes (lockKey name)) (textBytes lockTag) := by
  have hopen : textBytes "\x7b" = [openBrace] := by rw [textBytes_eq]; rfl
  have hclose : textBytes "\x7d_" = [closeBrace, 0x5f] := by rw [textBytes_eq]; rfl
  have hkey : textBytes (lockKey name) =
      [] ++ openBrace :: (textBytes lockTag ++ closeBrace :: 0x5f :: textBytes name) := by
    simp [lockKey, textBytes_append, hopen, hclose]
  have hletters : textBytes lockTag = [0x72, 0x65, 0x64, 0x6c, 0x6f, 0x63, 0x6b] := by
    rw [textBytes_eq]
    rfl
  rw [hkey]
  refine .between (by simp) ?_ ?_
  · rw [hletters]
    decide
  · rw [hletters]
    decide

theorem hashTag_lockKey (name : String) : hashTag (textBytes (lockKey name)) = textBytes lockTag :=
  (lockKey_tagged name).hashTag_eq

/-- Lock keys have the slot of their tag. -/
theorem keySlot_lockKey (name : String) : keySlot (lockKey name) = keySlot lockTag := by
  have hidem := hashTag_idem (textBytes (lockKey name))
  rw [hashTag_lockKey] at hidem
  rw [keySlot, keySlot, slotOfBytes, slotOfBytes, hashTag_lockKey, hidem]

/-- How keys are placed by their tags.

A key with a tag is hashed by its tag, and a key without one as a whole. What is hashed of a key is
hashed as a whole itself, so it has the slot of the key. All lock keys have the same tag, whatever
the names of the locks are; so they have the same slot, and the same node owns them, in every store
in memory and in every view of a cluster. -/
theorem tags_place_keys :
    (∀ key tag, Tagged key tag → hashTag key = tag) ∧
    (∀ key, (¬ ∃ tag, Tagged key tag) → hashTag key = key) ∧
    (∀ key, hashTag (hashTag key) = hashTag key ∧ slotOfBytes (hashTag key) = slotOfBytes key) ∧
    ∀ name, hashTag (textBytes (lockKey name)) = textBytes lockTag ∧
      ∀ other, keySlot (lockKey name) = keySlot (lockKey other) ∧
        (∀ m : Memory, m.nodeOwning (lockKey name) = m.nodeOwning (lockKey other)) ∧
        ∀ v : Redis.ClusterView, v.nodeOwning (lockKey name) = v.nodeOwning (lockKey other) := by
  refine ⟨fun key tag => Tagged.hashTag_eq, fun key => hashTag_eq_self_iff.2, ?_, ?_⟩
  · intro key
    have hidem := hashTag_idem key
    exact ⟨hidem, by rw [slotOfBytes, slotOfBytes, hidem]⟩
  · refine fun name => ⟨hashTag_lockKey name, fun other => ?_⟩
    have hslot : keySlot (lockKey name) = keySlot (lockKey other) := by
      rw [keySlot_lockKey, keySlot_lockKey]
    exact ⟨hslot, fun m => by rw [Memory.nodeOwning, Memory.nodeOwning, hslot],
      fun v => by rw [Redis.ClusterView.nodeOwning, Redis.ClusterView.nodeOwning, hslot]⟩

/-- An opening brace within a tag belongs to it, and so do all bytes of a key with nothing between
its first braces; and the braces of a name do not count. -/
theorem tags_place_keys_nested :
    hashTag [closeBrace, openBrace, 0x61, openBrace, 0x62, closeBrace, 0x63, closeBrace] =
        [0x61, openBrace, 0x62] ∧
      hashTag [openBrace, closeBrace, openBrace, 0x61, closeBrace] =
        [openBrace, closeBrace, openBrace, 0x61, closeBrace] ∧
      keySlot (lockKey "orders") = keySlot (lockKey "\x7d\x7bé\x7d") := by
  obtain ⟨htagged, hwhole, -, hlocks⟩ := tags_place_keys
  have hnested : Tagged
      ([closeBrace] ++ openBrace :: ([0x61, openBrace, 0x62] ++ closeBrace :: [0x63, closeBrace]))
      [0x61, openBrace, 0x62] :=
    .between (by decide) (by decide) (by decide)
  exact ⟨htagged _ _ hnested, hwhole _ (hashTag_eq_self_iff.1 (by decide)),
    ((hlocks _).2 _).1⟩

end Latchkey
