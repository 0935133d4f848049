import Latchkey.Lock.Key
import Latchkey.Lock.Registry
import Latchkey.Store.Keyspace

/-!
# Tokens and lock keys

Different serial numbers give different tokens, different lock names give different keys, and a
stored value is the text of at most one token.
-/

namespace Latchkey

/-! ## Serial numbers -/

/-- The value of a lower-case hexadecimal digit. -/
def hexValue (c : Char) : Nat := if c.toNat < 58 then c.toNat - 48 else c.toNat - 87

/-- The number written by hexadecimal digits, the highest first, after the digits of `start`. -/
def hexNumber (start : Nat) (digits : List Char) : Nat :=
  digits.foldl (fun v c => 16 * v + hexValue c) start

theorem hexValue_digitChar {n : Nat} (h : n < 16) : hexValue (Nat.digitChar n) = n := by
  have : ∀ i : Fin 16, hexValue (Nat.digitChar i.val) = i.val := by decide
  exact this ⟨n, h⟩

theorem hexNumber_append (start : Nat) (a b : List Char) :
    hexNumber start (a ++ b) = hexNumber (hexNumber start a) b := by
  simp [hexNumber]

theorem hexNumber_replicate_zero (k : Nat) : hexNumber 0 (List.replicate k '0') = 0 := by
  induction k with
  | zero => rfl
  | succ k ih => simpa [List.replicate_succ, hexNumber, hexValue] using ih

theorem hexNumber_toDigits (n : Nat) : hexNumber 0 (Nat.toDigits 16 n) = n := by
  induction n using Nat.strongRecOn with
  | _ n ih =>
    rw [Nat.toDigits_eq_if (by decide)]
    split
    · next h => simp [hexNumber, hexValue_digitChar h]
    · next h =>
      have hdiv : n / 16 < n := Nat.div_lt_self (by omega) (by decide)
      have hmod : n % 16 < 16 := Nat.mod_lt _ (by decide)
      rw [hexNumber_append, ih _ hdiv]
      simp only [hexNumber, List.foldl_cons, List.foldl_nil, hexValue_digitChar hmod]
      omega

theorem Token.ofSerial_inj {m n : Nat} : Token.ofSerial m = Token.ofSerial n ↔ m = n := by
  refine ⟨fun h => ?_, fun h => h ▸ rfl⟩
  have h : hexNumber 0 (Token.ofSerial m).toList = hexNumber 0 (Token.ofSerial n).toList := by
    rw [h]
  simpa [Token.ofSerial, hexNumber_append, hexNumber_replicate_zero, hexNumber_toDigits] using h

/-! ## Texts and keys -/

theorem Entry.ofText_inj {s t : String} : Entry.ofText s = Entry.ofText t ↔ s = t := by
  refine ⟨fun h => ?_, fun h => h ▸ rfl⟩
  have h : s.toByteArray.data = t.toByteArray.data := by simpa [Entry.ofText] using h
  exact String.toByteArray_inj.1 (ByteArray.ext h)

theorem Entry.holds_iff {e : Entry} {s : String} : e.holds s = true ↔ e.bytes = Entry.ofText s := by
  simp [Entry.holds]

/-- A value is the text of at most one token. -/
theorem Entry.holds_unique {e : Entry} {s t : String} (hs : e.holds s = true)
    (ht : e.holds t = true) : s = t :=
  Entry.ofText_inj.1 ((Entry.holds_iff.1 hs).symm.trans (Entry.holds_iff.1 ht))

theorem lockKey_inj {a b : String} : lockKey a = lockKey b ↔ a = b := by
  refine ⟨fun h => ?_, fun h => h ▸ rfl⟩
  have h : (lockKey a).toList = (lockKey b).toList := by rw [h]
  simp only [lockKey, String.toList_append, List.append_cancel_left_eq] at h
  exact String.toList_inj.1 h

end Latchkey
