import Parcel.Buffer.Read
import Parcel.Buffer.Write
import Parcel.Marshal.Decode

namespace Parcel.Buffer

/-- The bytes of the cells of the data, all of which must be whole. -/
def encode : Action Buffer Marshal.Error (List UInt8) := do
  let cells ← Action.mapError .buffer (Action.inspect cells)
  let ((), sink) ← Action.apart (.bounded none) (Marshal.encodeEntries cells)
  Action.emit (.encoded cells.length sink.written.size)
  pure sink.written.toList

def decodeCells (bytes : List UInt8) : Action σ Marshal.Error (List Cell) := do
  let (cells, rest) ← Action.apart bytes Marshal.decodeEntries
  if rest.isEmpty then pure cells
  else Action.refuse (.malformed (.trailing rest.length cells.length))

def decode (rules : Rules) (bytes : List UInt8) : Action σ Marshal.Error Buffer := do
  let cells ← decodeCells bytes
  let b ← Action.mapError .buffer (ofCells rules cells)
  Action.emit (.decoded cells.length b.size)
  pure b

end Parcel.Buffer
