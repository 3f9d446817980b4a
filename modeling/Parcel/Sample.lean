import Parcel.Buffer.Item

namespace Parcel.Sample

def values : List Value := [
  .byte (-7),
  .int 42,
  .int (-2147483648),
  .long (-1),
  .long 9223372036854775807,
  .float 0x3fc00000,
  .float 0x7fc00000,
  .double 0x8000000000000000,
  .double 0x400921fb54442d18,
  .string (some "hi"),
  .string (some ""),
  .string (some "héllo 😀"),
  .string none,
  .byteArray [1, 2, 3, 4, 5],
  .byteArray [],
  .binder (some 77),
  .binder none]

def mixedValue (i : Nat) : Value :=
  match i % 8 with
  | 0 => .byte (.ofInt i)
  | 1 => .int (.ofInt i)
  | 2 => .long (.ofInt (i * 1000003))
  | 3 => .float (Float32.ofNat i * 0.5).toBits
  | 4 => .double (Float.ofNat i / 3).toBits
  | 5 => .string (some (String.ofList (List.replicate (i % 16) 'x')))
  | 6 => .byteArray (List.replicate (i % 16) (.ofNat i))
  | _ => .binder (some (.ofNat i))

def mixed (count : Nat) : List Value :=
  (List.range count).map mixedValue

/-- A buffer under the usual rules, with its cursor at the start. -/
def filled (items : List Item) : Action σ Error Buffer := do
  let ((), b) ← Action.apart (Buffer.empty {}) do
    Action.each Buffer.put items
    Buffer.seek 0
  pure b

def ints (count : Nat) : Action σ Error Buffer :=
  filled ((List.range count).map fun (i : Nat) => .int (.ofInt i))

end Parcel.Sample
