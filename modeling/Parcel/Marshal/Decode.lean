import Parcel.Marshal.Encode

namespace Parcel.Marshal

abbrev Decoder := Action (List UInt8) Error

def take (count : Nat) : Decoder (List UInt8) := do
  let front ← Action.gets (·.take count)
  if front.length = count then
    Action.modify (·.drop count)
    pure front
  else Action.refuse (.transfer .unfilled)

def takeByte : Decoder UInt8 := do
  pure (.ofNat (Bytes.toNat (← take 1)))

def takeWord : Decoder UInt32 := do
  pure (.ofNat (Bytes.toNat (← take 4)))

def takeLongWord : Decoder UInt64 := do
  pure (.ofNat (Bytes.toNat (← take 8)))

def takeSized : Decoder (List UInt8) := do
  let count := (← takeWord).toNat
  let front ← Action.gets (·.take count)
  if front.length = count then take count
  else Action.refuse (.malformed (.shortPayload count front.length))

def takeText : Decoder String := do
  match Text.ofUtf8 (← takeSized) with
  | .ok s => pure s
  | .error place => Action.refuse (.malformed (.notText place))

def takePresence : Decoder Bool := do
  let flag ← takeByte
  if flag = presence false then pure false
  else if flag = presence true then pure true
  else Action.refuse (.malformed (.presenceFlag flag))

def takeOptional (payload : Decoder α) : Decoder (Option α) := do
  if ← takePresence then some <$> payload else pure none

def tagOf (n : UInt8) : Except Error Tag :=
  match n with
  | 0 => .ok .byte
  | 1 => .ok .int
  | 2 => .ok .long
  | 3 => .ok .float
  | 4 => .ok .double
  | 5 => .ok .string
  | 6 => .ok .byteArray
  | 7 => .ok .binder
  | n => .error (.unknownTag n)

def takeTag : Decoder Tag := do
  match tagOf (← takeByte) with
  | .ok tag => pure tag
  | .error e => Action.refuse e

def decodeValue : Tag → Decoder Value
  | .byte => do pure (.byte (← takeByte).toInt8)
  | .int => do pure (.int (← takeWord).toInt32)
  | .long => do pure (.long (← takeLongWord).toInt64)
  | .float => do pure (.float (← takeWord))
  | .double => do pure (.double (← takeLongWord))
  | .string => do pure (.string (← takeOptional takeText))
  | .byteArray => do pure (.byteArray (← takeSized))
  | .binder => do pure (.binder (← takeOptional takeLongWord))

/-- Its size must be some whole words. -/
def decodeEntry : Decoder Cell := do
  let size ← takeWord
  if size = 0 then Action.refuse (.malformed .emptyCell)
  else if size % 4 ≠ 0 then Action.refuse (.malformed (.unalignedCell size))
  else
    let tag ← takeTag
    let value ← decodeValue tag
    Action.lift (trust (Cell.sized size value))

def decodeCells : Nat → Decoder (List Cell)
  | 0 => pure []
  | count + 1 => do
    let cell ← decodeEntry
    let cells ← decodeCells count
    pure (cell :: cells)

def decodeEntries : Decoder (List Cell) := do
  decodeCells (← takeWord).toNat

end Parcel.Marshal
