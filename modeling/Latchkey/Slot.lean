import Latchkey.Hash.Crc16

/-!
# Key slots

A sharded store divides its keys into slots. The slot of a key is a checksum of the key's *tag*: the
part between the first opening brace and the first closing brace after it, or the whole key if there
is no such part or if it is empty. Keys with the same tag therefore live on the same node.
-/

namespace Latchkey

/-- The number of slots of a sharded store. -/
def slotCount : Nat := 16384

/-- The byte of an opening brace. -/
def openBrace : UInt8 := 0x7b

/-- The byte of a closing brace. -/
def closeBrace : UInt8 := 0x7d

/-- The part of a key that decides its slot. -/
def hashTag (key : List UInt8) : List UInt8 :=
  match key.dropWhile (· != openBrace) with
  | [] => key
  | _ :: afterOpen =>
    match afterOpen.dropWhile (· != closeBrace) with
    | [] => key
    | _ :: _ =>
      let tag := afterOpen.takeWhile (· != closeBrace)
      if tag.isEmpty then key else tag

/-- The slot of a key given as bytes. -/
def slotOfBytes (key : List UInt8) : Nat :=
  (Hash.crc16 (hashTag key)).toNat % slotCount

/-- The bytes of a text. -/
def textBytes (s : String) : List UInt8 := s.toUTF8.toList

/-- The slot of a key. -/
def keySlot (key : String) : Nat := slotOfBytes (textBytes key)

end Latchkey
