import Parcel.Cell

/-!
Arenas number the cells that they own, and slots name them by these numbers, one slot for each byte.
-/
namespace Parcel

abbrev Arena := Array Cell

abbrev Slots := Array (Option Nat)

/-- Identities are 32-bit numbers, so an arena may hold 2^32 cells at most. Nothing here checks that, and
the sizes of buffers do not see to it. -/
def Arena.next (arena : Arena) : Nat := arena.size

def Arena.cell (arena : Arena) (id : Nat) : Except Fault Cell :=
  match arena[id]? with
  | some cell => .ok cell
  | none => .error (.danglingCell id)

def Slots.fill (slots : Slots) (id : Option Nat) (start : Nat) : Nat → Slots
  | 0 => slots
  | count + 1 => Slots.fill (slots.setIfInBounds start id) id (start + 1) count

def Slots.spliced (slots : Slots) (start : Nat) (run : Slots) : Slots :=
  slots.extract 0 start ++ run ++ slots.extract (start + run.size) slots.size

def Slots.span (slots : Slots) (start stop : Nat) : Except Fault Nat :=
  if slots.size < stop then .error (.missingSlot slots.size) else .ok (stop - start)

structure Segment where
  cells : Arena
  slots : Slots
deriving DecidableEq

namespace Segment

def empty : Segment := ⟨#[], #[]⟩

def length (s : Segment) : Nat := s.slots.size

/-- `renamed` has the new identity of every old one that has one yet. -/
structure Draft where
  cells : Arena
  slots : Slots
  renamed : Array (Option Nat)

def Draft.push (arena : Arena) (d : Draft) : Option Nat → Except Fault Draft
  | none => .ok { d with slots := d.slots.push none }
  | some id =>
    match d.renamed[id]? with
    | some (some new) => .ok { d with slots := d.slots.push (some new) }
    | _ =>
      match arena.cell id with
      | .error fault => .error fault
      | .ok cell => .ok {
          cells := d.cells.push cell
          slots := d.slots.push (some d.cells.size)
          renamed := d.renamed.setIfInBounds id (some d.cells.size) }

def take (arena : Arena) (slots : Slots) : Except Fault Segment := do
  let draft ← slots.toList.foldlM (Draft.push arena) ⟨#[], #[], .replicate arena.size none⟩
  pure ⟨draft.cells, draft.slots⟩

def slotsBehind (s : Segment) (count : Nat) : Slots :=
  s.slots.map (Option.map (count + ·))

def put (s : Segment) (arena : Arena) (place : Nat) : Except Fault (Arena × Slots) :=
  if place = s.length then .ok (arena ++ s.cells, s.slotsBehind arena.next)
  else .error (.unequalLength place s.length)

end Segment

namespace Arena

/-- `order` has the old identities in the order of their new ones. -/
structure Renumbering where
  slots : Slots
  order : Array Nat
  renamed : Array (Option Nat)

def Renumbering.push (n : Renumbering) : Option Nat → Except Fault Renumbering
  | none => .ok { n with slots := n.slots.push none }
  | some id =>
    match n.renamed[id]? with
    | none => .error (.danglingCell id)
    | some (some new) => .ok { n with slots := n.slots.push (some new) }
    | some none => .ok {
        slots := n.slots.push (some n.order.size)
        order := n.order.push id
        renamed := n.renamed.setIfInBounds id (some n.order.size) }

/-- The cells that were moved so far leave nothing in their places. -/
structure Removal where
  rest : Array (Option Cell)
  kept : Arena

def Removal.take (r : Removal) (id : Nat) : Except Fault Removal :=
  match r.rest[id]? with
  | none => .error (.danglingCell id)
  | some none => .ok r
  | some (some cell) => .ok ⟨r.rest.setIfInBounds id none, r.kept.push cell⟩

/-- Renumbers the slots and then moves the cells that they name, in the order in which they name them. -/
def compact (arena : Arena) (slots : Slots) : Except Fault (Arena × Slots) := do
  let numbered ← slots.toList.foldlM Renumbering.push ⟨#[], #[], .replicate arena.size none⟩
  let removal ← numbered.order.toList.foldlM Removal.take ⟨arena.map some, #[]⟩
  pure (removal.kept, numbered.slots)

end Arena

end Parcel
