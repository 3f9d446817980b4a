import Parcel.Buffer.Read
import Parcel.Buffer.Write
import Parcel.Bytes

/-!
What callers write and read, made up of one cell or two. A byte array is an int that announces its length
and one cell with all its bytes; an absent one announces -1 and an empty one has no second cell.
-/
namespace Parcel

inductive Item
  | byte (v : Int8)
  | int (v : Int32)
  | long (v : Int64)
  | float (bits : UInt32)
  | double (bits : UInt64)
  | string (s : Option String)
  | binder (ref : Option UInt64)
  | array (bytes : Option (List UInt8))
  | token (interface : String)
deriving DecidableEq

namespace Item

def absent : Int32 := -1

def longestArray : Nat := 2147483647

def values : Item → List Value
  | byte v => [.byte v]
  | int v => [.int v]
  | long v => [.long v]
  | float bits => [.float bits]
  | double bits => [.double bits]
  | string s => [.string s]
  | binder ref => [.binder ref]
  | array none => [.int absent]
  | array (some []) => [.int 0]
  | array (some bytes) => [.int (.ofNat bytes.length), .byteArray bytes]
  | token interface => [.int 0, .string (some interface)]

def arrayLength : Item → Nat
  | array (some bytes) => bytes.length
  | _ => 0

def ofValue : Value → Item
  | .byte v => byte v
  | .int v => int v
  | .long v => long v
  | .float bits => float bits
  | .double bits => double bits
  | .string s => string s
  | .byteArray bytes => array (some bytes)
  | .binder ref => binder ref

end Item

namespace Buffer

def writeValue (v : Value) : Action Buffer Error Unit :=
  write v.size v

def put (item : Item) : Action Buffer Error Unit :=
  if Item.longestArray < item.arrayLength then
    Action.refuse (.outOfBounds .arrayLength item.arrayLength Item.longestArray)
  else Action.each writeValue item.values

def putArray (bytes : Option (List UInt8)) (offset length : Nat) : Action Buffer Error Unit :=
  match bytes with
  | none => put (.array none)
  | some bytes =>
    match Bytes.slice? bytes offset length with
    | none => Action.refuse (.outOfBounds .arrayRangeEnd (offset + length) bytes.length)
    | some part => put (.array (some part))

def read (wanted : Tag) : Action Buffer Error Value :=
  readOr (Value.zero wanted) wanted

def readAnnounced (length : Int) : Action Buffer Error (List UInt8) := do
  let bytes := match ← next .byteArray with
    | some (.byteArray bytes) => bytes
    | _ => []
  if bytes.length = length then pure bytes
  else Action.refuse (.lengthMismatch length bytes.length)

def readArray : Action Buffer Error (Option (List UInt8)) := do
  match ← next .int with
  | some (.int n) =>
    if n = Item.absent then pure none
    else if n = 0 then pure (some [])
    else some <$> readAnnounced n.toInt
  | _ => pure (some [])

def readArrayOf (length : Nat) : Action Buffer Error (List UInt8) := do
  match ← readArray with
  | some bytes =>
    if bytes.length = length then pure bytes
    else Action.refuse (.lengthMismatch length bytes.length)
  | none => Action.refuse (.lengthMismatch Item.absent.toInt length)

def readArrayInto : Action (Buffer × List UInt8) Error Unit := do
  let dest ← Action.gets Prod.snd
  let bytes ← Action.first (readArrayOf dest.length)
  Action.modify fun (b, _) => (b, bytes)

def readBlob : Action Buffer Error (Option (List UInt8)) :=
  readArray

def enforce (interface : String) : Action Buffer Error Unit := do
  let _ ← next .int
  let found := match ← next .string with
    | some (.string s) => s
    | _ => none
  if found ≠ some interface then Action.refuse (.interfaceMismatch interface found)

/-- An absent byte array counts as an empty one. -/
def readValue (wanted : Tag) : Action Buffer Error Value :=
  if wanted = .byteArray then do
    pure (.byteArray ((← readArray).getD []))
  else read wanted

end Buffer

end Parcel
