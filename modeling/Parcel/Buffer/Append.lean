import Parcel.Buffer.Basic

namespace Parcel.Buffer

/-- Takes a range out of the storage, slots behind the data included. -/
def copy (b : Buffer) (offset length : Nat) : Except (Failure Error) Segment :=
  let stop := offset + length
  if b.capacity < stop then .error (.refused (.outOfBounds .appendRangeEnd stop b.capacity))
  else trust (Segment.take b.arena (b.slots.extract offset stop))

def checkAtEnd : Action Buffer Error Unit :=
  Action.inspect fun b =>
    if b.position = b.size then .ok () else .error (.refused (.appendNotAtEnd b.position b.size))

def paste (s : Segment) : Action Buffer Error Unit := do
  checkAtEnd
  let start ← Action.gets Buffer.size
  resize (start + s.length)
  let place ← Action.inspect fun b => trust (b.slots.span start b.size)
  let (arena, run) ← Action.inspect fun b => trust (s.put b.arena place)
  Action.modify fun b => { b with arena, slots := b.slots.spliced start run }
  let position ← Action.inspect fun b => trust (advanced b.position s.length)
  Action.modify fun b => { b with position }

def append (source : Buffer) (offset length : Nat) : Action Buffer Error Unit := do
  checkAtEnd
  paste (← Action.lift (source.copy offset length))

end Parcel.Buffer
