import Parcel.Proofs.Calls

/-!
Tapes: what buffers are meant to do, said byte by byte. Every byte of a tape remembers which write it
comes from and which byte of that write it is, so nothing has to be inferred from its neighbours.
`Machine` is what buffers and tapes have in common, and programs run on either.
-/
namespace Parcel

/-- A byte of the write number `write`, `index` bytes behind the first of them. -/
structure Mark where
  write : Nat
  index : Nat
  cell : Cell
deriving DecidableEq

structure Tape where
  rules : Buffer.Rules
  marks : Nat → Option Mark
  /-- The number that the next write gets. -/
  writes : Nat
  capacity : Nat
  position : Nat
  size : Nat
  justExtended : Bool

namespace Tape

def blank (rules : Buffer.Rules) : Tape :=
  ⟨rules, fun _ => none, 0, 0, 0, 0, false⟩

def limit (t : Tape) : Nat := t.rules.maxCapacity.toNat

def cellAt (t : Tape) (offset : Nat) : Option Cell :=
  (t.marks offset).map Mark.cell

def seek (position : Nat) : Action Tape Error Unit := do
  let t ← Action.get
  if t.size < position then Action.refuse (.outOfBounds .dataPosition position t.size)
  else Action.set { t with position, justExtended := false }

def reserve (capacity : Nat) : Action Tape Error Unit := do
  let t ← Action.get
  if t.capacity < capacity then
    if t.limit < capacity then Action.refuse (.capacityExceeded capacity t.rules.maxCapacity)
    else Action.set { t with capacity }

def resized (t : Tape) (size : Nat) : Tape :=
  { t with
    marks := fun i => if i < size then t.marks i else none
    capacity := max t.capacity size
    position := min t.position size
    size
    justExtended := false }

def resize (size : Nat) : Action Tape Error Unit := do
  let t ← Action.get
  if t.limit < size then Action.refuse (.capacityExceeded size t.rules.maxCapacity)
  else Action.set (t.resized size)

def written (t : Tape) (cell : Cell) : Tape :=
  let stop := t.position + cell.size.toNat
  { t with
    marks := fun i =>
      if t.position ≤ i ∧ i < stop then some ⟨t.writes, i - t.position, cell⟩ else t.marks i
    writes := t.writes + 1
    capacity := max t.capacity (min (Size.grown t.capacity stop) t.limit)
    position := stop
    size := max t.size stop
    justExtended := t.justExtended || t.size < stop }

/-- Puts a value over the least number of whole words that holds `size` bytes, none if there are none. -/
def write (size : UInt32) (value : Value) : Action Tape Error Unit := do
  let cell : Cell := ⟨Size.padded size, value⟩
  if cell.size ≠ 0 then
    let t ← Action.get
    let stop := t.position + cell.size.toNat
    if t.limit < stop then Action.refuse (.capacityExceeded stop t.rules.maxCapacity)
    else Action.set (t.written cell)

/-- The writes of the source are writes of their own in the copy. -/
def appended (t source : Tape) (offset length : Nat) : Tape :=
  let stop := t.size + length
  { t with
    marks := fun i =>
      if t.size ≤ i ∧ i < stop then
        (source.marks (offset + (i - t.size))).map fun m => { m with write := t.writes + m.write }
      else t.marks i
    writes := t.writes + source.writes
    capacity := max t.capacity stop
    position := stop
    size := stop
    justExtended := false }

def append (source : Tape) (offset length : Nat) : Action Tape Error Unit := do
  let t ← Action.get
  if t.position ≠ t.size then Action.refuse (.appendNotAtEnd t.position t.size)
  else if source.capacity < offset + length then
    Action.refuse (.outOfBounds .appendRangeEnd (offset + length) source.capacity)
  else if t.limit < t.size + length then
    Action.refuse (.capacityExceeded (t.size + length) t.rules.maxCapacity)
  else Action.set (t.appended source offset length)

def clear : Action Tape Error Unit :=
  Action.modify fun t => blank t.rules

/-- From `start` on, in the data, stand all the bytes of one write in their order. -/
def Covers (t : Tape) (start : Nat) (write : Nat) (cell : Cell) : Prop :=
  ∀ k < cell.size.toNat, start + k < t.size ∧ t.marks (start + k) = some ⟨write, k, cell⟩

instance (t : Tape) (start write : Nat) (cell : Cell) : Decidable (t.Covers start write cell) :=
  inferInstanceAs (Decidable (∀ k < cell.size.toNat, _ ∧ _))

/-- The first of `count` offsets from `offset` on that is not of the write, the one behind them if all
are. -/
def stray (t : Tape) (write offset : Nat) : Nat → Nat
  | 0 => offset
  | count + 1 =>
    if (t.marks offset).map Mark.write = some write then t.stray write (offset + 1) count else offset

def wholeCell (t : Tape) (wanted : Option Tag) (start : Nat) : Except (Failure Error) Cell :=
  match t.marks start with
  | none => .error (.refused (.uninitializedRead start))
  | some m =>
    if t.Covers start m.write m.cell then .ok m.cell
    else
      let offset := t.stray m.write start m.cell.size.toNat
      .error (.refused (.tornRead wanted start m.cell.value.text m.cell.size
        ((t.cellAt offset).map (·.value.text)) offset))

def read (fallback : Value) (wanted : Tag) : Action Tape Error Value := do
  let t ← Action.get
  if t.position < t.size then
    let cell ← Action.lift (t.wholeCell (some wanted) t.position)
    Action.set { t with position := t.position + cell.size.toNat }
    if cell.value.tag = wanted then pure cell.value
    else Action.refuse (.typeMismatch t.position wanted cell.value.tag)
  else if t.justExtended && t.rules.detectsMissingReposition then
    Action.refuse (.missingReposition t.position)
  else pure fallback

def cellsFrom (t : Tape) (start : Nat) : Except (Failure Error) (List Cell) :=
  if start < t.size then do
    let cell ← t.wholeCell none start
    let cells ← t.cellsFrom (start + max 1 cell.size.toNat)
    pure (cell :: cells)
  else .ok []
termination_by t.size - start

end Tape

/-- What programs do to a buffer or a tape. -/
structure Machine (σ : Type) where
  write : UInt32 → Value → Action σ Error Unit
  seek : Nat → Action σ Error Unit
  resize : Nat → Action σ Error Unit
  reserve : Nat → Action σ Error Unit
  clear : Action σ Error Unit
  append : σ → Nat → Nat → Action σ Error Unit
  read : Value → Tag → Action σ Error Value
  cells : Action σ Error (List Cell)

def Buffer.machine : Machine Buffer where
  write := Buffer.write
  seek := Buffer.seek
  resize := Buffer.resize
  reserve := Buffer.reserve
  clear := Buffer.clear
  append := Buffer.append
  read := Buffer.readOr
  cells := Action.inspect Buffer.cells

def Tape.machine : Machine Tape where
  write := Tape.write
  seek := Tape.seek
  resize := Tape.resize
  reserve := Tape.reserve
  clear := Tape.clear
  append := Tape.append
  read := Tape.read
  cells := Action.inspect (Tape.cellsFrom · 0)

/-- One step of a program on numbered buffers or tapes. -/
inductive Step
  | write (target : Nat) (size : UInt32) (value : Value)
  | seek (target position : Nat)
  | resize (target size : Nat)
  | reserve (target capacity : Nat)
  | clear (target : Nat)
  | append (target source offset length : Nat)
  /-- Puts a clone in the place of the target. -/
  | clone (target source : Nat)
  | read (target : Nat) (fallback : Value) (wanted : Tag)
  | cells (target : Nat)
deriving DecidableEq

def Step.target : Step → Nat
  | write target .. | seek target .. | resize target .. | reserve target .. | clear target
  | append target .. | clone target .. | read target .. | cells target => target

namespace Machine
open Buffer (Answer)

def perform (m : Machine σ) (states : Nat → σ) : Step → Action σ Error Answer
  | .write _ size value => (fun _ => .done) <$> m.write size value
  | .seek _ position => (fun _ => .done) <$> m.seek position
  | .resize _ size => (fun _ => .done) <$> m.resize size
  | .reserve _ capacity => (fun _ => .done) <$> m.reserve capacity
  | .clear _ => (fun _ => .done) <$> m.clear
  | .append _ source offset length => (fun _ => .done) <$> m.append (states source) offset length
  | .clone _ source => (fun _ => .done) <$> Action.set (states source)
  | .read _ fallback wanted => .value <$> m.read fallback wanted
  | .cells _ => .cells <$> m.cells

/-- The answers to one step after the other, failed ones included, and the states behind them. -/
def run (m : Machine σ) (states : Nat → σ) :
    List Step → List (Except (Failure Error) Answer) × (Nat → σ)
  | [] => ([], states)
  | step :: steps =>
    let ran := m.perform states step (states step.target)
    let (rest, last) := m.run (fun n => if n = step.target then ran.state else states n) steps
    (ran.result :: rest, last)

end Machine

end Parcel
