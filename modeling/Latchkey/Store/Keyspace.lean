import Latchkey.Slot
import Latchkey.Table

/-!
# Keyspaces

The keys of an in-memory store with their values. A value is a string of bytes and may have a
deadline: from that time on it is as if it were not there, although it may still be stored. All
operations are given the present time. Bit `o` of a value is the bit of weight `2 ^ (7 - o % 8)` in
its byte `o / 8`.
-/

namespace Latchkey

/-- A stored value. -/
structure Entry where
  /-- The bytes. -/
  bytes : Array UInt8
  /-- The time from which on the value is gone. -/
  deadline : Option Nat
  deriving Repr, DecidableEq

namespace Entry

/-- Whether the value is there at a time. -/
def isLive (e : Entry) (now : Nat) : Bool := e.deadline.all fun d => decide (now < d)

/-- The bytes of a text. -/
def ofText (s : String) : Array UInt8 := s.toUTF8.data

/-- Whether the value is a text. -/
def holds (e : Entry) (s : String) : Bool := e.bytes == ofText s

/-- The weight of a bit in its byte. -/
def mask (offset : Nat) : UInt8 := 0x80 >>> (UInt8.ofNat (offset % 8))

/-- A bit of the value; bits behind its end are not set. -/
def bit (e : Entry) (offset : Nat) : Bool :=
  match e.bytes[offset / 8]? with
  | some b => b &&& mask offset != 0
  | none => false

/-- The bytes, filled up with zeros so that there is a byte at an index. -/
def grown (bytes : Array UInt8) (index : Nat) : Array UInt8 :=
  if bytes.size ≤ index then bytes ++ Array.replicate (index + 1 - bytes.size) 0 else bytes

/-- A byte with the bits of a mask set or cleared. -/
def withMask (b m : UInt8) (bit : Bool) : UInt8 := if bit then b ||| m else b &&& ~~~m

/-- The value with a bit written, long enough to hold it. -/
def setBit (e : Entry) (offset : Nat) (bit : Bool) : Entry :=
  { e with
    bytes := (grown e.bytes (offset / 8)).modify (offset / 8) fun b =>
      withMask b (mask offset) bit }

end Entry

/-- The keys of a store with their values. -/
abbrev Keyspace := Table String Entry

namespace Keyspace

/-- The value of a key, if it is there at a time. -/
def live? (ks : Keyspace) (now : Nat) (key : String) : Option Entry :=
  (ks.find? key).filter fun e => e.isLive now

/-- Whether a key has a value. -/
def present (ks : Keyspace) (now : Nat) (key : String) : Bool := (ks.live? now key).isSome

/-- Writes a value with a lifetime, perhaps only if the key has none. -/
def set (ks : Keyspace) (now : Nat) (key value : String) (ttl : Nat) (onlyIfAbsent : Bool) :
    Keyspace × Bool :=
  if onlyIfAbsent && ks.present now key then (ks, false)
  else (ks.insert key ⟨Entry.ofText value, some (now + ttl)⟩, true)

/-- Deletes a key that has the expected value. -/
def compareAndDelete (ks : Keyspace) (now : Nat) (key expected : String) : Keyspace × Bool :=
  match ks.live? now key with
  | some e => if e.holds expected then (ks.erase key, true) else (ks, false)
  | none => (ks, false)

/-- Gives a key that has the expected value a new lifetime. -/
def compareAndExpire (ks : Keyspace) (now : Nat) (key expected : String) (ttl : Nat) :
    Keyspace × Bool :=
  match ks.live? now key with
  | some e =>
    if e.holds expected then (ks.insert key { e with deadline := some (now + ttl) }, true)
    else (ks, false)
  | none => (ks, false)

/-- Gives a key that has a value a new lifetime. -/
def expire (ks : Keyspace) (now : Nat) (key : String) (ttl : Nat) : Keyspace × Bool :=
  match ks.live? now key with
  | some e => (ks.insert key { e with deadline := some (now + ttl) }, true)
  | none => (ks, false)

/-- A bit of the value of a key. -/
def getBit (ks : Keyspace) (now : Nat) (key : String) (offset : Nat) : Bool :=
  match ks.live? now key with
  | some e => e.bit offset
  | none => false

/-- Writes a bit, starting from an empty value without a deadline where there is none, and tells
what the bit was. -/
def setBit (ks : Keyspace) (now : Nat) (key : String) (offset : Nat) (bit : Bool) :
    Keyspace × Bool :=
  let e := (ks.live? now key).getD ⟨#[], none⟩
  (ks.insert key (e.setBit offset bit), e.bit offset)

/-- The rest of the lifetime of a key. -/
def remaining (ks : Keyspace) (now : Nat) (key : String) : Option Nat :=
  (ks.live? now key).bind fun e => e.deadline.map (· - now)

/-- The number of keys that have a value. -/
def count (ks : Keyspace) (now : Nat) : Nat := (ks.filter fun _ e => e.isLive now).size

/-- Removes what is gone, and tells how many entries that were. -/
def purge (ks : Keyspace) (now : Nat) : Keyspace × Nat :=
  let kept := ks.filter fun _ e => e.isLive now
  (kept, ks.size - kept.size)

end Keyspace

end Latchkey
