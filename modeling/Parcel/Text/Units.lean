namespace Parcel.Text

/-- A character outside the basic plane takes two units. -/
def charUnits16 (c : Char) : Nat :=
  if c.toNat < 0x10000 then 1 else 2

def units16 (s : String) : Nat :=
  s.toList.foldr (fun c n => charUnits16 c + n) 0

end Parcel.Text
