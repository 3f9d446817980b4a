import Parcel.Text.Units

namespace Parcel.Size

def word : UInt32 := 4

def longWord : UInt32 := 8

def binder : UInt32 := 20

def largest : Nat := 4294967295

/-- Above the last multiple of four there is nothing to round up to, and that multiple stands. -/
def padded (n : UInt32) : UInt32 :=
  if n.toNat + 3 ≤ largest then .ofNat ((n.toNat + 3) / 4 * 4) else .ofNat (largest / 4 * 4)

def grown (capacity stop : Nat) : Nat :=
  if stop ≤ capacity then capacity else min (stop * 3 / 2) largest

def text : Option String → UInt32
  | none => word
  | some s => .ofNat (min (4 + 2 * (Text.units16 s + 1)) largest)

end Parcel.Size
