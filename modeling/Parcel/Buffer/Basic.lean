import Parcel.Action
import Parcel.Arena
import Parcel.Config

/-!
Storage in which every byte names the cell that it belongs to. The data are the first `size` bytes of it.
-/
namespace Parcel

structure Buffer where
  rules : Buffer.Rules
  arena : Arena
  slots : Slots
  position : Nat
  size : Nat
  /-- A write has extended the data, and since then neither the cursor nor the size was set. -/
  justExtended : Bool
deriving DecidableEq

namespace Buffer

def empty (rules : Rules) : Buffer :=
  ⟨rules, #[], #[], 0, 0, false⟩

def capacity (b : Buffer) : Nat := b.slots.size

def slot (b : Buffer) (offset : Nat) : Option Nat :=
  if offset < b.size then b.slots[offset]?.join else none

def cellAt (b : Buffer) (offset : Nat) : Except Fault (Option Cell) :=
  match b.slot offset with
  | none => .ok none
  | some id => some <$> b.arena.cell id

def advanced (position count : Nat) : Except Fault Nat :=
  if Size.largest < position + count then .error (.positionOverflow (position + count))
  else .ok (position + count)

def available : Action Buffer ε Nat :=
  Action.inspect fun b =>
    if b.size < b.position then .error (.broken (.strayCursor b.position b.size))
    else .ok (b.size - b.position)

def checkStorage (b : Buffer) : Except (Failure ε) Unit :=
  if b.capacity < b.size then .error (.broken (.missingStorage b.capacity b.size)) else .ok ()

def checkLimit (stop : Nat) : Action Buffer Error Unit := do
  let limit ← Action.gets fun b => b.rules.maxCapacity
  if limit.toNat < stop then Action.refuse (.capacityExceeded stop limit)

def seek (position : Nat) : Action Buffer Error Unit := do
  let size ← Action.gets Buffer.size
  if size < position then Action.refuse (.outOfBounds .dataPosition position size)
  else Action.modify fun b => { b with position, justExtended := false }

def extended (b : Buffer) (capacity : Nat) : Buffer :=
  { b with slots := b.slots ++ Array.replicate (capacity - b.capacity) none }

def clamped (b : Buffer) (capacity : Nat) : Buffer :=
  { b with size := min b.size capacity, position := min b.position (min b.size capacity) }

/-- It never shrinks. -/
def reserve (capacity : Nat) : Action Buffer Error Unit := do
  let before ← Action.gets Buffer.capacity
  if before < capacity then
    checkLimit capacity
    Action.emit (.grown before capacity)
    Action.modify fun b => (b.clamped capacity).extended capacity

def cutAt (b : Buffer) (start : Nat) : Buffer :=
  { b with slots := b.slots.fill none start (b.size - start) }

/-- What is cut off is gone, what is added is empty, and the cursor stays within. -/
def resize (size : Nat) : Action Buffer Error Unit := do
  checkLimit size
  Action.inspect checkStorage
  Action.modify fun b => b.cutAt size
  reserve size
  Action.modify fun b => { b with size, position := min b.position size, justExtended := false }

def clear : Action Buffer ε Unit :=
  Action.modify fun b => empty b.rules

end Buffer

end Parcel
