/-!
# SHA-1

The secure hash of 160 bits. The message is filled up to blocks of sixteen words of 32 bits; five
words absorb the blocks one after the other.
-/

namespace Latchkey.Hash.Sha1

/-- The bits of `x` moved `n` places to the left, those that fall out coming in on the right. -/
def rotate (x n : UInt32) : UInt32 := (x <<< n) ||| (x >>> (32 - n))

/-- The five words. -/
structure State where
  /-- The first word. -/
  a : UInt32
  /-- The second word. -/
  b : UInt32
  /-- The third word. -/
  c : UInt32
  /-- The fourth word. -/
  d : UInt32
  /-- The fifth word. -/
  e : UInt32
  deriving Repr, DecidableEq

/-- The words before the first block. -/
def State.initial : State := ⟨0x67452301, 0xefcdab89, 0x98badcfe, 0x10325476, 0xc3d2e1f0⟩

/-- The sums of two states, word by word. -/
def State.add (s t : State) : State := ⟨s.a + t.a, s.b + t.b, s.c + t.c, s.d + t.d, s.e + t.e⟩

/-- The bytes of a number, the most significant one first. -/
def bigEndian (count n : Nat) : List UInt8 :=
  (List.range count).reverse.map fun i => UInt8.ofNat (n / Nat.pow 256 i)

/-- The message with a one, zeros and its length in bits behind it, as whole blocks. -/
def padded (message : List UInt8) : List UInt8 :=
  let zeros := (119 - message.length % 64) % 64
  message ++ [0x80] ++ List.replicate zeros 0 ++ bigEndian 8 (8 * message.length)

/-- The words of bytes, the most significant byte first. -/
def words : List UInt8 → List UInt32
  | b₀ :: b₁ :: b₂ :: b₃ :: rest =>
    ((b₀.toUInt32 <<< 24) ||| (b₁.toUInt32 <<< 16) ||| (b₂.toUInt32 <<< 8) ||| b₃.toUInt32)
      :: words rest
  | _ => []

/-- The schedule of a block: its words, each of which leads to one more sixteen places later. -/
def schedule : (count : Nat) → List UInt32 → List UInt32
  | 0, _ => []
  | count + 1, ws =>
    match ws with
    | w₀ :: w₁ :: w₂ :: rest =>
      let new := rotate (rest.getD 10 0 ^^^ rest.getD 5 0 ^^^ w₂ ^^^ w₀) 1
      w₀ :: schedule count (w₁ :: w₂ :: rest ++ [new])
    | _ => []

/-- The function and the constant of a round. -/
def mixing (round : Nat) (s : State) : UInt32 × UInt32 :=
  if round < 20 then ((s.b &&& s.c) ||| ((~~~ s.b) &&& s.d), 0x5a827999)
  else if round < 40 then (s.b ^^^ s.c ^^^ s.d, 0x6ed9eba1)
  else if round < 60 then ((s.b &&& s.c) ||| (s.b &&& s.d) ||| (s.c &&& s.d), 0x8f1bbcdc)
  else (s.b ^^^ s.c ^^^ s.d, 0xca62c1d6)

/-- One round. -/
def round (s : State) (w : UInt32 × Nat) : State :=
  let (f, k) := mixing w.2 s
  ⟨rotate s.a 5 + f + s.e + k + w.1, s.a, rotate s.b 30, s.c, s.d⟩

/-- Absorbs one block. -/
def absorb (s : State) (block : List UInt8) : State :=
  s.add ((schedule 80 (words block)).zipIdx.foldl round s)

/-- Absorbs so many blocks. -/
def absorbAll (s : State) : (blocks : Nat) → List UInt8 → State
  | 0, _ => s
  | blocks + 1, bytes => absorbAll (absorb s (bytes.take 64)) blocks (bytes.drop 64)

/-- Eight digits for a word. -/
def wordText (w : UInt32) : List Char :=
  let ds := Nat.toDigits 16 w.toNat
  List.replicate (8 - ds.length) '0' ++ ds

/-- The hash of a message, written with forty digits. -/
def hex (message : List UInt8) : String :=
  let bytes := padded message
  let s := absorbAll .initial (bytes.length / 64) bytes
  String.ofList ([s.a, s.b, s.c, s.d, s.e].flatMap wordText)

end Latchkey.Hash.Sha1
