import PathIdentity.Clock.Uncertainty
import PathIdentity.Decoding
import PathIdentity.Exception
import PathIdentity.Json.Basic

/-!
# Identities as JSON

`Coded α` writes values of `α` as JSON values and reads them back. Ids are numbers, named values are
strings, and records are objects. Reading is wider than writing: a record may also be an array of
its fields in order of declaration, a named value a map from its name to null, and fields of an
object that a record does not have are passed over.

Of several faults in an object the first in the order of the field names is reported, then the first
missing field in order of declaration; in an array it is the first in order, and an array that is
too long is reported after its fields.
-/

namespace PathIdentity

/-- Types with a JSON form. -/
class Coded (α : Type) where
  encode : α → Json
  decode : Json → Decoded α

export Coded (encode decode)

namespace Json

variable {α : Type}

/-- JSON failures write doubles with an exponent below `10^-5` and from `10^16` on, there with a
plus before the power. -/
def floatStyle : FloatStyle := ⟨.toEven, some ⟨-5, 16, "+"⟩⟩

/-- A JSON value as something found. -/
def found : Json → Found
  | null => .null
  | bool b => .boolean b
  | int n => .integer n
  | float x => .float x
  | string s => .string s
  | array _ => .sequence
  | object _ => .map

/-! ## Parts of decoders -/

/-- The decoded value of a field of an object, if the field is there. -/
def member? [Coded α] (name : String) (fields : List (String × Json)) : Decoded (Option α) :=
  (NameMap.get? name fields).mapM decode

/-- The decoded value of a field that shall be there. -/
def required (name : String) : Option α → Decoded α
  | some a => .ok a
  | none => .error (.missingField name)

/-- The decoded element of an array that is read as a record of `count` fields. -/
def element [Coded α] (record : String) (count index : Nat) (items : List Json) : Decoded α :=
  match items[index]? with
  | some j => decode j
  | none => .error (.invalidLength index (.elements record count))

/-- Refuses arrays of more than `count` elements. -/
def noMoreThan (count : Nat) (items : List Json) : Decoded Unit :=
  if count < items.length then .error (.invalidLength items.length .fewerElements) else .ok ()

/-- The value of a name. -/
def decodeName (α : Type) [Enumerated α] (name : String) : Decoded α :=
  match Enumerated.ofName? α name with
  | some a => .ok a
  | none => .error (.unknownVariant name (Enumerated.names α))

end Json

open Json

/-! ## Simple values -/

instance : Coded UInt32 where
  encode n := .int n.toNat
  decode
    | .int n =>
      if 0 ≤ n ∧ n < Int.pow 2 32 then .ok (UInt32.ofNat n.toNat)
      else .error (.invalidValue (.integer n) .word32)
    | j => .error (.invalidType j.found .word32)

instance : Coded Double where
  encode := .float
  decode
    | .float x => .ok x
    | .int n => .ok (.ofInt n)
    | j => .error (.invalidType j.found .double)

instance {α : Type} [Coded α] : Coded (Option α) where
  encode
    | none => .null
    | some a => encode a
  decode
    | .null => .ok none
    | j => some <$> decode j

instance {kind : IdKind} : Coded (Id kind) where
  encode a := encode a.number
  decode j := Id.mk <$> decode j

instance {α : Type} [Enumerated α] : Coded α where
  encode a := .string (Enumerated.name a)
  decode
    | .string name => decodeName α name
    | .object [(name, j)] => do
      let a ← decodeName α name
      match j with
      | .null => return a
      | j => throw (.invalidType j.found .unit)
    | .object _ => .error (.invalidValue .map .singleKeyMap)
    | j => .error (.invalidType j.found .stringOrMap)

/-! ## Records -/

instance : Coded PathRef where
  encode a := .ofFields [("vertex", encode a.vertex), ("tag_index", encode a.tagIndex)]
  decode
    | .object fields => do
      let tagIndex ← member? "tag_index" fields
      let vertex ← member? "vertex" fields
      let vertex ← required "vertex" vertex
      let tagIndex ← required "tag_index" tagIndex
      return ⟨vertex, tagIndex⟩
    | .array items => do
      let vertex ← element "PathRef" 2 0 items
      let tagIndex ← element "PathRef" 2 1 items
      noMoreThan 2 items
      return ⟨vertex, tagIndex⟩
    | j => .error (.invalidType j.found (.record "PathRef"))

instance : Coded MatcherState where
  encode s := .ofFields
    [("exception", encode s.exception), ("kind", encode s.kind), ("index", encode s.index)]
  decode
    | .object fields => do
      let exception ← member? "exception" fields
      let index ← member? "index" fields
      let kind ← member? "kind" fields
      let exception ← required "exception" exception
      let kind ← required "kind" kind
      let index ← required "index" index
      return ⟨exception, kind, index⟩
    | .array items => do
      let exception ← element "MatcherState" 3 0 items
      let kind ← element "MatcherState" 3 1 items
      let index ← element "MatcherState" 3 2 items
      noMoreThan 3 items
      return ⟨exception, kind, index⟩
    | j => .error (.invalidType j.found (.record "MatcherState"))

/-- A missing field of the object form is an absent uncertainty. -/
instance : Coded ClockUncertainties where
  encode u := .ofFields [("min", encode u.min), ("max", encode u.max)]
  decode
    | .object fields => do
      let max ← member? "max" fields
      let min ← member? "min" fields
      return ⟨min.join, max.join⟩
    | .array items => do
      let min ← element "ClockUncertainties" 2 0 items
      let max ← element "ClockUncertainties" 2 1 items
      noMoreThan 2 items
      return ⟨min, max⟩
    | j => .error (.invalidType j.found (.record "ClockUncertainties"))

end PathIdentity
