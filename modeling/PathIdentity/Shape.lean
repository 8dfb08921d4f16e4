/-!
# Diagnostic text of values

A `Shape` is the outline of a value for diagnostics: records, tuples, lists and sets over atoms.
It has two written forms, one line (`Shape.inline`) and one item per line with four more blanks at
each level (`Shape.block`). Types with a diagnostic text give their outline as `shape`.
-/

namespace PathIdentity

/-- The outline of a value. -/
inductive Shape where
  /-- A text as it stands. -/
  | atom (text : String)
  /-- A named value with named fields. -/
  | record (name : String) (fields : List (String × Shape))
  /-- A named value with unnamed fields. -/
  | tuple (name : String) (fields : List Shape)
  | list (items : List Shape)
  | set (items : List Shape)

/-- Types with a diagnostic text. -/
class HasShape (α : Type) where
  shape : α → Shape

export HasShape (shape)

instance : HasShape Bool := ⟨fun b => .atom (toString b)⟩
instance : HasShape Nat := ⟨fun n => .atom (toString n)⟩
instance : HasShape UInt32 := ⟨fun n => .atom (toString n.toNat)⟩

instance {α : Type} [HasShape α] : HasShape (List α) := ⟨fun items => .list (items.map shape)⟩

instance {α : Type} [HasShape α] : HasShape (Option α) where
  shape
    | none => .atom "None"
    | some a => .tuple "Some" [shape a]

namespace Shape

/-! ## One line -/

/-- Items between two marks, separated by commas. -/
def enclose (opening closing : String) (items : List String) : String :=
  opening ++ ", ".intercalate items ++ closing

mutual

/-- The text on one line. -/
def inline : Shape → String
  | atom text => text
  | record name fields => enclose (name ++ " \x7b ") " \x7d" (inlineFields fields)
  | tuple name fields => enclose (name ++ "(") ")" (inlineItems fields)
  | list items => enclose "[" "]" (inlineItems items)
  | set items => enclose "\x7b" "\x7d" (inlineItems items)

/-- The texts of items on one line. -/
def inlineItems : List Shape → List String
  | [] => []
  | item :: items => item.inline :: inlineItems items

/-- The texts of named fields on one line. -/
def inlineFields : List (String × Shape) → List String
  | [] => []
  | (name, item) :: fields => (name ++ ": " ++ item.inline) :: inlineFields fields

end

/-! ## One item per line -/

/-- Line start at a level of nesting. -/
def indent (level : Nat) : String := "".pushn ' ' (4 * level)

/-- Items between two marks, each on its own line and followed by a comma; no lines between the
marks where there are no items. -/
def encloseLines (level : Nat) (opening closing : String) (items : List String) : String :=
  if items.isEmpty then opening ++ closing
  else
    let lines := items.map fun item => indent (level + 1) ++ item ++ ",\n"
    opening ++ "\n" ++ String.join lines ++ indent level ++ closing

mutual

/-- The text with one item per line, its first line standing at `level`. -/
def blockAt (level : Nat) : Shape → String
  | atom text => text
  | record name fields =>
    encloseLines level (name ++ " \x7b") "\x7d" (blockFields (level + 1) fields)
  | tuple name fields => encloseLines level (name ++ "(") ")" (blockItems (level + 1) fields)
  | list items => encloseLines level "[" "]" (blockItems (level + 1) items)
  | set items => encloseLines level "\x7b" "\x7d" (blockItems (level + 1) items)

/-- The texts of items, one item per line. -/
def blockItems (level : Nat) : List Shape → List String
  | [] => []
  | item :: items => item.blockAt level :: blockItems level items

/-- The texts of named fields, one item per line. -/
def blockFields (level : Nat) : List (String × Shape) → List String
  | [] => []
  | (name, item) :: fields => (name ++ ": " ++ item.blockAt level) :: blockFields level fields

end

/-- The text with one item per line. -/
def block (s : Shape) : String := s.blockAt 0

end Shape

end PathIdentity
