import BundlePacker.Text.Utf8

/-!
# The checksum of archives

The 32-bit cyclic redundancy check with the reflected polynomial of archives, taken bit by bit.
-/

namespace BundlePacker.Checksum

/-- The generator polynomial, lowest power in the highest bit. -/
def polynomial : UInt32 :=
  0xEDB88320

/-- Divide the given number of low bits out of the register. -/
def shiftBits : Nat → UInt32 → UInt32
  | 0, register => register
  | count + 1, register =>
    shiftBits count (if register &&& 1 = 0 then register >>> 1 else (register >>> 1) ^^^ polynomial)

/-- Take one byte into the register. -/
def absorb (register : UInt32) (byte : UInt8) : UInt32 :=
  shiftBits 8 (register ^^^ byte.toUInt32)

/-- The checksum of a byte sequence. -/
def ofBytes (bytes : Bytes) : UInt32 :=
  bytes.foldl absorb 0xFFFFFFFF ^^^ 0xFFFFFFFF

end BundlePacker.Checksum
