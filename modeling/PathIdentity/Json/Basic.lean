import PathIdentity.NameMap
import PathIdentity.Number.Double

/-!
# JSON values

A JSON number is an integer where it is written without point and exponent and fits into 64 bits,
signed or not; any other number is a double. The fields of an object stand in ascending order of
their names, one for each name.
-/

namespace PathIdentity

/-- A JSON value. -/
inductive Json where
  | null
  | bool (b : Bool)
  | int (n : Int)
  | float (x : Double)
  | string (s : String)
  | array (items : List Json)
  | object (fields : List (String × Json))

namespace Json

/-- The value of a field of an object. -/
def field? (name : String) : Json → Option Json
  | object fields => NameMap.get? name fields
  | _ => none

/-- The object of named values. -/
def ofFields (fields : List (String × Json)) : Json := object (NameMap.ofList fields)

end Json

end PathIdentity
