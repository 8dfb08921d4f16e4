/-!
# Types with a fixed list of named values

`Enumerated α` lists the values of `α` with a name for each, the name that external text uses.
`ofName?` looks a value up by its name.
-/

namespace PathIdentity

/-- Types whose values are listed and named. -/
class Enumerated (α : Type) where
  /-- Every value, in order of declaration. -/
  values : List α
  /-- The external name of a value. -/
  name : α → String

namespace Enumerated

variable (α : Type) [Enumerated α]

/-- The names in order of declaration. -/
def names : List String := (values : List α).map name

/-- The value of a name. -/
def ofName? (s : String) : Option α := values.find? fun a => name a == s

end Enumerated

end PathIdentity
