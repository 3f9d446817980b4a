import Parcel.Buffer.Basic

/-!
A write puts a cell over whatever the bytes at the cursor belonged to. Cells that lose bytes that way are
torn, which only a read finds out.
-/
namespace Parcel.Buffer

def slack : Nat := 1024

def isOvergrown (b : Buffer) : Bool :=
  2 * b.capacity + slack < b.arena.size

def compacted (b : Buffer) : Except (Failure ε) (Arena × Slots) :=
  trust (b.arena.compact b.slots)

def tidy : Action Buffer Error Unit := do
  if ← Action.gets isOvergrown then
    let before ← Action.gets fun b => b.arena.size
    let (arena, slots) ← Action.inspect compacted
    Action.modify fun b => { b with arena, slots }
    Action.emit (.compacted before arena.size)

def placed (b : Buffer) (cell : Cell) : Buffer :=
  let stop := b.position + cell.size.toNat
  { b with
    arena := b.arena.push cell
    slots := b.slots.fill (some b.arena.next) b.position cell.size.toNat
    position := stop
    size := max b.size stop
    justExtended := b.justExtended || b.size < stop }

def place (cell : Cell) : Action Buffer Error Unit := do
  let start ← Action.gets Buffer.position
  let capacity ← Action.gets Buffer.capacity
  if capacity < start + cell.size.toNat then Action.fault (.missingSlot capacity)
  else
    Action.emit (.written start cell.size cell.value.tag)
    Action.modify fun b => b.placed cell

def store (size : UInt32) (value : Value) : Action Buffer Error Unit := do
  let cell ← Action.lift (trust (Cell.sized size value))
  let stop ← Action.gets fun b => b.position + size.toNat
  checkLimit stop
  reserve (← Action.gets fun b => min (Size.grown b.capacity stop) b.rules.maxCapacity.toNat)
  place cell

/-- A write of no bytes does nothing. -/
def write (size : UInt32) (value : Value) : Action Buffer Error Unit := do
  let size := Size.padded size
  if size ≠ 0 then
    store size value
    tidy

def ofCells (rules : Rules) (cells : List Cell) : Action σ Error Buffer := do
  let ((), b) ← Action.apart (empty rules) do
    Action.each (fun cell => write cell.size cell.value) cells
    seek 0
  pure b

end Parcel.Buffer
