import Parcel.Value

/-!
Events: what an action reports about its work while it goes on. An event has a level, a message and
named fields, all of them text.
-/
namespace Parcel

inductive Level
  | trace | debug | warn
deriving DecidableEq

def Level.name : Level → String
  | trace => "trace"
  | debug => "debug"
  | warn => "warn"

inductive Event
  | written (position : Nat) (size : UInt32) (tag : Tag)
  | grown (before after : Nat)
  | compacted (before after : Nat)
  | encoded (entries bytes : Nat)
  | decoded (entries size : Nat)
  | replaced (handle : UInt64) (size : Nat)
  | created (handle : UInt64) (live : Nat)
  | destroyed (handle : UInt64) (live : Nat)
  | strayDestroy (handle : UInt64)
  | batchStopped (handle : UInt64) (index : Nat) (command error : String)
deriving DecidableEq

namespace Event

def level : Event → Level
  | written .. | compacted .. | encoded .. | decoded .. => .trace
  | grown .. | replaced .. | created .. | destroyed .. => .debug
  | strayDestroy .. | batchStopped .. => .warn

def message : Event → String
  | written .. => "write"
  | grown .. => "growing buffer capacity"
  | compacted .. => "compacted cell arena"
  | encoded .. => "marshalled buffer"
  | decoded .. => "unmarshalled buffer"
  | replaced .. => "unmarshalled into buffer"
  | created .. => "created buffer"
  | destroyed .. => "destroyed buffer"
  | strayDestroy .. => "destroy of unknown handle ignored"
  | batchStopped .. => "batch stopped"

def fields : Event → List (String × String)
  | written position size tag =>
    [("position", toString position), ("size_bytes", toString size.toNat), ("tag", tag.name)]
  | grown before after => [("from", toString before), ("to", toString after)]
  | compacted before after => [("before", toString before), ("after", toString after)]
  | encoded entries bytes => [("entries", toString entries), ("bytes", toString bytes)]
  | decoded entries size => [("entries", toString entries), ("size", toString size)]
  | replaced handle size => [("handle", toString handle.toNat), ("size", toString size)]
  | created handle live | destroyed handle live =>
    [("handle", toString handle.toNat), ("live", toString live)]
  | strayDestroy handle => [("handle", toString handle.toNat)]
  | batchStopped handle index command error =>
    [("handle", toString handle.toNat), ("index", toString index), ("op", command), ("error", error)]

end Event

end Parcel
