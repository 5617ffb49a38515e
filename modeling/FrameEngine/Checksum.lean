import FrameEngine.Octets

/-!
# FrameEngine.Checksum

The 32-bit cyclic redundancy check of IEEE 802.3: reflected polynomial `0xEDB88320`, register
preset to ones and inverted at the end. The register takes in one octet at a time (`absorb`), so
the check of a concatenation is a fold that goes on where the first part ended
(`absorbAll_append`).
-/

namespace FrameEngine
namespace Checksum

/-- One shift of the register: the bit that falls out decides whether the polynomial is added. -/
def shift (r : UInt32) : UInt32 :=
  if r &&& 1 = 1 then (r >>> 1) ^^^ 0xEDB88320 else r >>> 1

def absorb (r : UInt32) (b : UInt8) : UInt32 :=
  shift (shift (shift (shift (shift (shift (shift (shift (r ^^^ b.toUInt32))))))))

def absorbAll (r : UInt32) (data : Octets) : UInt32 := data.foldl absorb r

def crc32 (data : Octets) : UInt32 := absorbAll 0xFFFFFFFF data ^^^ 0xFFFFFFFF

theorem absorbAll_append (r : UInt32) (x y : Octets) :
    absorbAll r (x ++ y) = absorbAll (absorbAll r x) y := List.foldl_append ..

/-- The check value of the digits one to nine. -/
example : crc32 [0x31, 0x32, 0x33, 0x34, 0x35, 0x36, 0x37, 0x38, 0x39] = 0xCBF43926 := by
  decide +kernel

end Checksum
end FrameEngine
