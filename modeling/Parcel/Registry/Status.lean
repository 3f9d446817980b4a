import Parcel.Registry.Command

/-!
Status codes: one number for every way in which a call can end, 0 for success and negative for the rest.
-/
namespace Parcel

inductive Status
  | ok | handleNotFound | outOfBounds | uninitializedRead | tornRead | typeMismatch
  | missingReposition | appendNotAtEnd | lengthMismatch | capacityExceeded | interfaceMismatch
  | malformedData | configError | internalError
deriving DecidableEq

namespace Status

def code : Status → Int
  | ok => 0
  | handleNotFound => -1
  | outOfBounds => -2
  | uninitializedRead => -3
  | tornRead => -4
  | typeMismatch => -5
  | missingReposition => -6
  | appendNotAtEnd => -7
  | lengthMismatch => -8
  | capacityExceeded => -9
  | interfaceMismatch => -10
  | malformedData => -11
  | configError => -12
  | internalError => -20

def title : Status → String
  | ok => "Ok"
  | handleNotFound => "HandleNotFound"
  | outOfBounds => "OutOfBounds"
  | uninitializedRead => "UninitializedRead"
  | tornRead => "TornRead"
  | typeMismatch => "TypeMismatch"
  | missingReposition => "MissingReposition"
  | appendNotAtEnd => "AppendNotAtEnd"
  | lengthMismatch => "LengthMismatch"
  | capacityExceeded => "CapacityExceeded"
  | interfaceMismatch => "InterfaceMismatch"
  | malformedData => "MalformedData"
  | configError => "ConfigError"
  | internalError => "InternalError"

end Status

def Error.status : Error → Status
  | handleNotFound .. => .handleNotFound
  | outOfBounds .. => .outOfBounds
  | uninitializedRead .. => .uninitializedRead
  | tornRead .. => .tornRead
  | typeMismatch .. => .typeMismatch
  | missingReposition .. => .missingReposition
  | appendNotAtEnd .. => .appendNotAtEnd
  | lengthMismatch .. => .lengthMismatch
  | capacityExceeded .. => .capacityExceeded
  | interfaceMismatch .. => .interfaceMismatch
  | poisoned => .internalError

def Marshal.Error.status : Marshal.Error → Status
  | buffer error => error.status
  | transfer _ | malformed _ | unknownTag _ => .malformedData

def Misconfiguration.status (_ : Misconfiguration) : Status := .configError

def Command.Error.status : Command.Error → Status
  | buffer error => error.status
  | marshal error => error.status

end Parcel
