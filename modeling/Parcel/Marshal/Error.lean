import Parcel.Error
import Parcel.Text.Utf8

namespace Parcel

/-- The error types in which the refusal of a buffer has a place. -/
class Reports (ε : Type) where
  report : Error → ε

instance : Reports Error := ⟨id⟩

namespace Marshal

inductive Defect
  | emptyCell
  | unalignedCell (size : UInt32)
  | presenceFlag (flag : UInt8)
  | shortPayload (announced rest : Nat)
  | notText (place : Text.IllFormed)
  | trailing (bytes entries : Nat)
  | longPayload (bytes : Nat)
  | manyEntries (entries : Nat)
  | noted (text : String)
deriving DecidableEq

def Defect.message : Defect → String
  | emptyCell => "cell size 0 covers no slots"
  | unalignedCell size => s!"cell size {size.toNat} is not 4-byte aligned"
  | presenceFlag flag => s!"invalid presence flag {flag.toNat}"
  | shortPayload announced rest =>
    s!"length prefix {announced} exceeds remaining input of {rest} bytes"
  | notText place => s!"invalid UTF-8 string: {place.message}"
  | trailing bytes entries => s!"{bytes} trailing bytes after {entries} entries"
  | longPayload bytes => s!"payload of {bytes} bytes is too long"
  | manyEntries entries => s!"{entries} entries do not fit a u32 count"
  | noted text => text

inductive Transfer
  | unfilled
  | unwritten
deriving DecidableEq

def Transfer.message : Transfer → String
  | unfilled => "failed to fill whole buffer"
  | unwritten => "failed to write whole buffer"

inductive Error
  | transfer (cause : Transfer)
  | malformed (defect : Defect)
  | unknownTag (tag : UInt8)
  | buffer (error : Parcel.Error)
deriving DecidableEq

namespace Error

def message : Error → String
  | transfer cause => "I/O error: " ++ cause.message
  | malformed defect => "malformed entry: " ++ defect.message
  | unknownTag tag => s!"unknown value tag {tag.toNat}"
  | buffer error => "buffer error: " ++ error.message

/-- The messages of the errors behind this one, the nearest first. -/
def sources : Error → List String
  | transfer cause => [cause.message]
  | buffer error => [error.message]
  | malformed _ | unknownTag _ => []

end Error

instance : Reports Error := ⟨.buffer⟩

end Marshal

end Parcel
