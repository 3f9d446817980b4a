import Parcel.Buffer.Append
import Parcel.Buffer.Item
import Parcel.Marshal.Snapshot

namespace Parcel

structure Registry.Entry where
  handle : UInt64
  buffer : Buffer
  poisoned : Bool
deriving DecidableEq

structure Registry where
  rules : Registry.Rules
  nextHandle : UInt64
  live : List Registry.Entry
deriving DecidableEq

namespace Registry

def empty (rules : Rules) : Registry :=
  ⟨rules, rules.firstHandle, []⟩

def new (rules : Rules) : Except Misconfiguration Registry := do
  rules.check
  pure (empty rules)

def entry? (r : Registry) (handle : UInt64) : Option Entry :=
  r.live.find? (·.handle = handle)

def contains (r : Registry) (handle : UInt64) : Bool :=
  (r.entry? handle).isSome

def count (r : Registry) : Nat := r.live.length

def handles (r : Registry) : List UInt64 := r.live.map (·.handle)

def describe (r : Registry) : String :=
  Text.record "HandleRegistry" [
    ("config", r.rules.describe),
    ("live", Text.applied "Some" (toString r.count))]

/-- The largest handle. It is never given out, as no handle could follow it. -/
def lastHandle : UInt64 := 18446744073709551615

def create : Action Registry Error UInt64 := do
  let r ← Action.get
  let handle := r.nextHandle
  if handle = lastHandle then
    Action.refuse (.outOfBounds .nextHandle handle.toNat (lastHandle.toNat - 1))
  else
    Action.modify fun r => { r with
      nextHandle := handle + 1
      live := r.live ++ [⟨handle, Buffer.empty r.rules.buffers, false⟩] }
    Action.emit (.created handle (r.count + 1))
    pure handle

def lookup (handle : UInt64) : Action Registry Error Unit := do
  if ¬ (← Action.gets (·.contains handle)) then Action.refuse (.handleNotFound handle)

def without (r : Registry) (handle : UInt64) : Registry :=
  { r with live := r.live.filter (·.handle ≠ handle) }

/-- The rules say whether a handle that is not live is refused or passed over. -/
def destroy (handle : UInt64) : Action Registry Error Unit := do
  let r ← Action.get
  if r.contains handle then
    Action.modify (·.without handle)
    Action.emit (.destroyed handle (r.without handle).count)
  else
    match r.rules.strictness with
    | .strict => Action.refuse (.handleNotFound handle)
    | .lenient => Action.emit (.strayDestroy handle)

def replaced (r : Registry) (handle : UInt64) (buffer : Buffer) (poisoned : Bool) : Registry :=
  { r with live := r.live.map fun e =>
      if e.handle = handle then { e with buffer, poisoned } else e }

def isBroken : Except (Failure ε) α → Bool
  | .error (.broken _) => true
  | _ => false

/-- A fault poisons the buffer: nobody gets to it again, while its handle lives on until it is destroyed. -/
def withBuffer [Reports ε] (handle : UInt64) (m : Action Buffer ε α) : Action Registry ε α := fun r =>
  match r.entry? handle with
  | none => ⟨.error (.refused (Reports.report (.handleNotFound handle))), r, []⟩
  | some ⟨_, _, true⟩ => ⟨.error (.refused (Reports.report .poisoned)), r, []⟩
  | some ⟨_, buffer, false⟩ =>
    match m buffer with
    | ⟨result, buffer', events⟩ => ⟨result, r.replaced handle buffer' (isBroken result), events⟩

/-- The two buffers are held one after the other, so that they may be the same. -/
def append (handle source : UInt64) (offset length : Nat) : Action Registry Error Unit := do
  let s ← withBuffer source (Action.inspect (·.copy offset length))
  withBuffer handle (Buffer.paste s)

def encode (handle : UInt64) : Action Registry Marshal.Error (List UInt8) :=
  withBuffer handle Buffer.encode

def decode (handle : UInt64) (bytes : List UInt8) (offset length : Nat) :
    Action Registry Marshal.Error Unit := do
  match Bytes.slice? bytes offset length with
  | none => Action.refuse (.buffer (.outOfBounds .decodeRangeEnd (offset + length) bytes.length))
  | some part =>
    let rules ← Action.gets (·.rules.buffers)
    withBuffer handle do
      let b ← Buffer.decode rules part
      Action.set b
      Action.emit (.replaced handle b.size)

end Registry

end Parcel
