import Parcel.Value.Text

/-!
An `Error` is a refusal: the caller asked for what the state does not allow. A `Fault` is a broken promise
inside the library or in the code of the caller; no sequence of calls should lead to one.
-/
namespace Parcel

inductive Fault
  | danglingCell (id : Nat)
  | missingSlot (offset : Nat)
  | missingStorage (capacity size : Nat)
  | unalignedCell (size : UInt32)
  | emptyCell (offset : Nat)
  | unequalLength (place segment : Nat)
  | strayCursor (position size : Nat)
  | positionOverflow (position : Nat)
  /-- The caller broke off while it held a buffer. -/
  | abandoned
deriving DecidableEq

inductive Bounded
  | dataPosition | appendRangeEnd | arrayRangeEnd | arrayLength | nextHandle | payloadLength
  | decodeRangeEnd
  | noted (name : String)
deriving DecidableEq

def Bounded.name : Bounded → String
  | dataPosition => "data position"
  | appendRangeEnd => "append source range end"
  | arrayRangeEnd => "byte array range end"
  | arrayLength => "byte array length"
  | nextHandle => "next handle"
  | payloadLength => "payload length"
  | decodeRangeEnd => "unmarshall range end"
  | noted name => name

inductive Error
  | handleNotFound (handle : UInt64)
  | outOfBounds (what : Bounded) (value limit : Nat)
  | uninitializedRead (position : Nat)
  /-- The cell at `position`, of text `expected`, is interrupted at `offset` by a cell of text `found`,
  or by nothing. -/
  | tornRead (wanted : Option Tag) (position : Nat) (expected : String) (size : UInt32)
      (found : Option String) (offset : Nat)
  | typeMismatch (position : Nat) (expected found : Tag)
  | missingReposition (position : Nat)
  | appendNotAtEnd (position size : Nat)
  | lengthMismatch (announced : Int) (actual : Nat)
  | capacityExceeded (requested : Nat) (limit : UInt32)
  | interfaceMismatch (expected : String) (found : Option String)
  /-- An earlier caller broke off while it held the buffer. -/
  | poisoned
deriving DecidableEq

def nothingFound : String :=
  "uninitialized data or the end of the buffer"

def Error.message : Error → String
  | handleNotFound handle => s!"handle {handle.toNat} not found"
  | outOfBounds what value limit => s!"{what.name} {value} out of bounds (limit {limit})"
  | uninitializedRead position => s!"reading uninitialized data at position {position}"
  | tornRead wanted position expected size found offset =>
    let sought := (wanted.map Tag.name).getD "value"
    let obstacle := found.getD nothingFound
    s!"looking for {sought} at position {position}, found [{expected}] taking {size.toNat} bytes, "
      ++ s!"but [{obstacle}] interrupts it at position {offset}"
  | typeMismatch position expected found =>
    s!"type mismatch at position {position}: expected {expected.name}, found {found.name}"
  | missingReposition position =>
    s!"read past the end at position {position} right after writing; "
      ++ "did you forget to set the data position to 0?"
  | appendNotAtEnd position size =>
    s!"append requested at position {position} but data size is {size}; "
      ++ "appends are only reliable at the end"
  | lengthMismatch announced actual =>
    s!"byte array length prefix is {announced} but real length is {actual}"
  | capacityExceeded requested limit =>
    s!"buffer capacity exceeded: requested {requested} bytes, max {limit.toNat} bytes"
  | interfaceMismatch expected found =>
    "binder invocation to an incorrect interface: expected " ++ Text.quoted expected
      ++ ", found " ++ (found.map Text.quoted).getD "none"
  | poisoned => "handle registry lock poisoned"

inductive Failure (ε : Type)
  | refused (error : ε)
  | broken (fault : Fault)
deriving DecidableEq

def Failure.map (f : ε → ε') : Failure ε → Failure ε'
  | refused e => refused (f e)
  | broken fault => broken fault

def trust : Except Fault α → Except (Failure ε) α :=
  Except.mapError .broken

end Parcel
