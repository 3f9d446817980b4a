namespace Parcel.Bytes

def slice? (bytes : List UInt8) (offset length : Nat) : Option (List UInt8) :=
  if offset + length ≤ bytes.length then some ((bytes.drop offset).take length) else none

/-- The least byte comes first. -/
def ofNat : Nat → Nat → List UInt8
  | 0, _ => []
  | width + 1, n => .ofNat n :: ofNat width (n / 256)

def toNat : List UInt8 → Nat
  | [] => 0
  | b :: bytes => b.toNat + 256 * toNat bytes

end Parcel.Bytes
