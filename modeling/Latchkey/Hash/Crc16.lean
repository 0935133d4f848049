/-!
# Sixteen-bit cyclic redundancy check

The checksum with polynomial `x¹⁶ + x¹² + x⁵ + 1`, an initial value of zero, bits taken from the
most significant end and no final inversion.
-/

namespace Latchkey.Hash

/-- One bit of the division by the check polynomial. -/
def crc16Bit (crc : UInt16) : UInt16 :=
  if crc &&& 0x8000 = 0 then crc <<< 1 else (crc <<< 1) ^^^ 0x1021

/-- The checksum after one more byte. -/
def crc16Byte (crc : UInt16) (byte : UInt8) : UInt16 :=
  (List.range 8).foldl (fun c _ => crc16Bit c) (crc ^^^ (byte.toUInt16 <<< 8))

/-- The checksum of a byte string. -/
def crc16 (bytes : List UInt8) : UInt16 :=
  bytes.foldl crc16Byte 0

end Latchkey.Hash
