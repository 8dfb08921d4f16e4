import PathIdentity.Toml.Basic

/-!
# Search settings

A configuration has three tables of one setting each: `crpr.enabled`, `clock.uncertainty` and
`pool.initial_capacity`. `SearchSettings.ofDocument` decodes a document. A setting, or a whole
table, that is missing has its default; a key that does not belong is refused, in a table and
outside; of several faults the first in the document is reported. In place of a table an array may
hold its setting; elements after the first are passed over.
-/

namespace PathIdentity

/-- The settings of a path search. -/
structure SearchSettings where
  /-- Whether pessimism removal is switched on. -/
  crprEnabled : Bool := false
  /-- Whether clock uncertainties are switched on. -/
  uncertaintyEnabled : Bool := true
  /-- The number of distinct hashes for which a new pool makes room. -/
  poolCapacity : Nat := 0
deriving DecidableEq

namespace SearchSettings

open Toml (Value Document)

/-- A switch. -/
def decodeSwitch : Value → Decoded Bool
  | .boolean b => .ok b
  | v => .error (.invalidType v.found .boolean)

/-- A count. -/
def decodeCount : Value → Decoded Nat
  | .integer n =>
    if 0 ≤ n then .ok n.toNat else .error (.invalidValue (.integer n) .count)
  | v => .error (.invalidType v.found .count)

/-- The setting `key` of a table that has no other, or the default. The table is called `record` in
failures. -/
def decodeTable {α : Type} (record key : String) (decode : Value → Decoded α) (default : α) :
    Value → Decoded α
  | .table entries =>
    entries.foldlM
      (fun _ (k, v) => if k = key then decode v else .error (.unknownField k [key])) default
  | .array items =>
    match items with
    | [] => .ok default
    | v :: _ => decode v
  | .dateTime _ => .error (.unknownField Toml.dateTimeKey [key])
  | v => .error (.invalidType v.found (.record record))

/-- The names of the tables. -/
def tableNames : List String := ["crpr", "clock", "pool"]

/-- The settings with those of one more table. -/
def addTable (s : SearchSettings) (name : String) (v : Value) : Decoded SearchSettings :=
  if name = "crpr" then do
    return { s with crprEnabled := ← decodeTable "CrprConfig" "enabled" decodeSwitch false v }
  else if name = "clock" then do
    return { s with
      uncertaintyEnabled := ← decodeTable "ClockConfig" "uncertainty" decodeSwitch true v }
  else if name = "pool" then do
    return { s with
      poolCapacity := ← decodeTable "PoolConfig" "initial_capacity" decodeCount 0 v }
  else .error (.unknownField name tableNames)

/-- The settings of a document. -/
def ofDocument (document : Document) : Decoded SearchSettings :=
  document.foldlM (fun s (name, v) => s.addTable name v) {}

/-- The greatest capacity that is accepted, `2^24`. -/
def greatestCapacity : Nat := Nat.pow 2 24

end SearchSettings

end PathIdentity
