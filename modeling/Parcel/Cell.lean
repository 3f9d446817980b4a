import Parcel.Error

namespace Parcel

structure Cell where
  size : UInt32
  value : Value
deriving DecidableEq

namespace Cell

def sized (size : UInt32) (value : Value) : Except Fault Cell :=
  if size % 4 = 0 then .ok ⟨size, value⟩ else .error (.unalignedCell size)

def equal (a b : Cell) : Bool :=
  a.size = b.size && a.value.equal b.value

end Cell

end Parcel
