import Parcel.Buffer.Basic

namespace Parcel.Buffer

/-- The first of `count` offsets from `offset` on that does not belong to the cell `id`. -/
def firstBreak (b : Buffer) (id offset : Nat) : Nat → Option Nat
  | 0 => none
  | count + 1 => if b.slot offset = some id then b.firstBreak id (offset + 1) count else some offset

def torn (b : Buffer) (wanted : Option Tag) (start : Nat) (cell : Cell) (offset : Nat) :
    Failure Error :=
  match b.cellAt offset with
  | .error fault => .broken fault
  | .ok found =>
    .refused (.tornRead wanted start cell.value.text cell.size (found.map (·.value.text)) offset)

/-- Offsets are 32-bit numbers, so no cell is followed beyond the last of them. -/
def wholeCell (b : Buffer) (wanted : Option Tag) (start : Nat) : Except (Failure Error) Cell := do
  b.checkStorage
  match b.slot start with
  | none => .error (.refused (.uninitializedRead start))
  | some id =>
    let cell ← trust (b.arena.cell id)
    match b.firstBreak id start (min (start + cell.size.toNat) Size.largest - start) with
    | none => .ok cell
    | some offset => .error (b.torn wanted start cell offset)

/-- At the end of the data a read that follows a write without a move of the cursor is refused. -/
def peek (b : Buffer) (wanted : Tag) : Except (Failure Error) (Option (Cell × Nat)) :=
  if b.size ≤ b.position then
    if b.justExtended && b.rules.detectsMissingReposition then
      .error (.refused (.missingReposition b.position))
    else .ok none
  else do
    let cell ← b.wholeCell (some wanted) b.position
    let stop ← trust (advanced b.position cell.size.toNat)
    pure (some (cell, min b.size stop))

/-- A value of another kind is passed over and refused. -/
def next (wanted : Tag) : Action Buffer Error (Option Value) := do
  let start ← Action.gets Buffer.position
  match ← Action.inspect (·.peek wanted) with
  | none => pure none
  | some (cell, stop) =>
    Action.modify fun b => { b with position := stop }
    if cell.value.tag = wanted then pure (some cell.value)
    else Action.refuse (.typeMismatch start wanted cell.value.tag)

def readOr (fallback : Value) (wanted : Tag) : Action Buffer Error Value := do
  pure ((← next wanted).getD fallback)

def cellsFrom (b : Buffer) (start : Nat) : Except (Failure Error) (List Cell) :=
  if start < b.size then do
    let cell ← b.wholeCell none start
    let stop ← trust (advanced start cell.size.toNat)
    if stop ≤ start then .error (.broken (.emptyCell start))
    else
      let cells ← b.cellsFrom stop
      pure (cell :: cells)
  else .ok []
termination_by b.size - start

def cells (b : Buffer) : Except (Failure Error) (List Cell) :=
  b.cellsFrom 0

end Parcel.Buffer
