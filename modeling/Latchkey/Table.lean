/-!
# Finite maps

A finite map as a list of bindings in which no key stands twice. The view of a map is its look-up
function `find?`: the lemmas say what each operation does to it.
-/

namespace Latchkey

/-- A finite map. -/
structure Table (κ ν : Type) where
  /-- The bindings. -/
  entries : List (κ × ν)
  /-- No key stands twice. -/
  nodup : (entries.map (·.1)).Nodup := by simp

namespace Table

variable {κ ν : Type}

instance [Repr κ] [Repr ν] : Repr (Table κ ν) := ⟨fun t n => reprPrec t.entries n⟩

/-- The map without bindings. -/
def empty : Table κ ν := ⟨[], by simp⟩

instance : EmptyCollection (Table κ ν) := ⟨empty⟩

instance : Inhabited (Table κ ν) := ⟨empty⟩

/-- The bindings whose key and value pass a test. -/
def filter (t : Table κ ν) (p : κ → ν → Bool) : Table κ ν :=
  ⟨t.entries.filter fun e => p e.1 e.2, t.nodup.sublist (List.filter_sublist.map _)⟩

/-- The number of bindings. -/
def size (t : Table κ ν) : Nat := t.entries.length

/-- The keys bound. -/
def keys (t : Table κ ν) : List κ := t.entries.map (·.1)

variable [DecidableEq κ]

/-- The value bound to a key. -/
def find? (t : Table κ ν) (k : κ) : Option ν :=
  (t.entries.find? fun e => e.1 = k).map (·.2)

/-- Whether a key is bound. -/
def contains (t : Table κ ν) (k : κ) : Bool := (t.find? k).isSome

/-- The map without a key. -/
def erase (t : Table κ ν) (k : κ) : Table κ ν := t.filter fun k' _ => decide (k' ≠ k)

/-- The map with a key bound to a value. -/
def insert (t : Table κ ν) (k : κ) (v : ν) : Table κ ν :=
  ⟨(k, v) :: (t.erase k).entries, by
    have h := (t.erase k).nodup
    simp only [List.map_cons, List.nodup_cons]
    refine ⟨?_, h⟩
    simp [erase, filter]⟩

/-- The map with the value of a key changed, where none stands for a key that is not bound. -/
def alter (t : Table κ ν) (k : κ) (f : Option ν → Option ν) : Table κ ν :=
  match f (t.find? k) with
  | some v => t.insert k v
  | none => t.erase k

/-! ## The view and the bindings -/

theorem mem_keys {t : Table κ ν} {k : κ} : k ∈ t.keys ↔ t.contains k = true := by
  simp [keys, contains, find?]

theorem mem_entries {t : Table κ ν} {k : κ} {v : ν} :
    (k, v) ∈ t.entries ↔ t.find? k = some v := by
  obtain ⟨es, hnd⟩ := t
  simp only [find?]
  induction es with
  | nil => simp
  | cons e es ih =>
    obtain ⟨k', v'⟩ := e
    obtain ⟨hnew, hnd'⟩ := List.nodup_cons.1 hnd
    by_cases hk : k' = k
    · subst hk
      have hold : (k', v) ∉ es := fun hmem => hnew (List.mem_map.2 ⟨_, hmem, rfl⟩)
      simp [hold, eq_comm]
    · have hk' : ¬ k = k' := fun h => hk h.symm
      simpa [hk, hk'] using ih hnd'

/-! ## What the operations do to the view -/

@[simp] theorem find?_empty (k : κ) : (empty : Table κ ν).find? k = none := rfl

theorem find?_filter_key (t : Table κ ν) (p : κ → Bool) (k : κ) :
    (t.filter fun k' _ => p k').find? k = if p k then t.find? k else none := by
  obtain ⟨es, h⟩ := t
  simp only [find?, filter]
  clear h
  induction es with
  | nil => simp
  | cons e es ih =>
    obtain ⟨k', v⟩ := e
    by_cases hp : p k'
    · by_cases hk : k' = k
      · simp [hp, ← hk]
      · simpa [hp, hk] using ih
    · by_cases hk : k' = k
      · subst hk
        simpa [hp] using ih
      · simpa [hp, hk] using ih

@[simp] theorem find?_erase (t : Table κ ν) (k k' : κ) :
    (t.erase k).find? k' = if k' = k then none else t.find? k' := by
  rw [erase, find?_filter_key t (fun k'' => decide (k'' ≠ k))]
  by_cases h : k' = k <;> simp [h]

@[simp] theorem find?_insert (t : Table κ ν) (k : κ) (v : ν) (k' : κ) :
    (t.insert k v).find? k' = if k' = k then some v else t.find? k' := by
  by_cases h : k' = k
  · subst h
    simp [find?, insert]
  · have h' : ¬ k = k' := fun e => h e.symm
    have : (t.insert k v).find? k' = (t.erase k).find? k' := by
      simp [find?, insert, h']
    rw [this, find?_erase]
    simp [h]

@[simp] theorem find?_alter (t : Table κ ν) (k : κ) (f : Option ν → Option ν) (k' : κ) :
    (t.alter k f).find? k' = if k' = k then f (t.find? k) else t.find? k' := by
  unfold alter
  split
  next v hv => by_cases h : k' = k <;> simp [h, hv]
  next hv => by_cases h : k' = k <;> simp [h, hv]

end Table

end Latchkey
