/-!
# Readers

A `Reader α` takes an `α` off the front of a text and leaves the rest, or fails and takes nothing.
Repetition needs no bound of its own: `Reader.commaItems` and `Reader.many` run at most once for
each character that is left, which is enough for items that take a character each.
-/

namespace PathIdentity

/-- A reader of `α` from the front of a text. -/
abbrev Reader (α : Type) := StateT (List Char) Option α

namespace Reader

variable {α : Type}

/-- The next character, left where it is. -/
def next? : Reader (Option Char) := fun cs => some (cs.head?, cs)

/-- Succeeds at the end of the text only. -/
def atEnd : Reader Unit
  | [] => some ((), [])
  | _ :: _ => none

/-- A character that satisfies a test. -/
def satisfy (test : Char → Bool) : Reader Char
  | c :: cs => if test c then some (c, cs) else none
  | [] => none

/-- A given character. -/
def char (c : Char) : Reader Unit := do
  let _ ← satisfy (· == c)

/-- A given text. -/
def text (s : String) : Reader Unit := s.toList.forM char

/-- The longest run of characters that satisfy a test. -/
def takeWhile (test : Char → Bool) : Reader (List Char) := fun cs => some (cs.span test)

/-- The longest run of characters that satisfy a test, of one at least. -/
def takeWhile1 (test : Char → Bool) : Reader (List Char) := do
  let run ← takeWhile test
  if run.isEmpty then failure else pure run

/-- Exactly `n` characters that satisfy a test. -/
def exactly (n : Nat) (test : Char → Bool) : Reader (List Char) :=
  (List.replicate n ()).mapM fun _ => satisfy test

/-- Rounds of `many`, one at most for each character of `fuel`, after those that gave `found` in
reverse order. -/
def manyWithin (item : Reader α) :
    (fuel : List Char) → (found : List α) → List Char → List α × List Char
  | [], found, cs => (found.reverse, cs)
  | _ :: fuel, found, cs =>
    match item cs with
    | none => (found.reverse, cs)
    | some (a, rest) => manyWithin item fuel (a :: found) rest

/-- As many items as there are. -/
def many (item : Reader α) : Reader (List α) := fun cs => some (manyWithin item cs [] cs)

/-- Rounds of `commaItems`, one at most for each character of `fuel`. -/
def commaItemsWithin (blank : Reader Unit) (item : Reader α) (closing : Char) (trailing : Bool) :
    (fuel : List Char) → Reader (List α)
  | [] => failure
  | _ :: fuel => do
    let a ← item
    blank
    match ← next? with
    | some ',' => do
      char ','
      blank
      if trailing && (← next?) == some closing then
        char closing
        return [a]
      else return a :: (← commaItemsWithin blank item closing trailing fuel)
    | _ => do
      char closing
      return [a]

/-- Items with commas between them up to a closing mark, `blank` being skipped around each; a comma
may stand before the closing mark where `trailing` says so. -/
def commaItems (blank : Reader Unit) (item : Reader α) (closing : Char) (trailing : Bool) :
    Reader (List α) := do
  blank
  if (← next?) == some closing then
    char closing
    return []
  else fun cs => commaItemsWithin blank item closing trailing cs cs

/-- The value of a whole text. -/
def run? (reader : Reader α) (s : String) : Option α :=
  (reader s.toList).bind fun (a, rest) => if rest.isEmpty then some a else none

/-! ## Digits -/

/-- The value of a digit in bases up to 36, in either case. -/
def digitValue? (c : Char) : Option Nat :=
  if '0' ≤ c ∧ c ≤ '9' then some (c.toNat - '0'.toNat)
  else if 'a' ≤ c ∧ c ≤ 'z' then some (c.toNat - 'a'.toNat + 10)
  else if 'A' ≤ c ∧ c ≤ 'Z' then some (c.toNat - 'A'.toNat + 10)
  else none

/-- Whether a character is a digit of a base. -/
def isDigitOf (base : Nat) (c : Char) : Bool := (digitValue? c).any (· < base)

/-- Whether a character is a decimal digit. -/
def isDecimal (c : Char) : Bool := isDigitOf 10 c

/-- The number that digits of a base write. -/
def numberOf (base : Nat) (digits : List Char) : Nat :=
  digits.foldl (fun n c => n * base + (digitValue? c).getD 0) 0

/-- The character of a code; surrogates and numbers above the last code have none. -/
def ofCode? (code : Nat) : Option Char :=
  if h : code.isValidChar then some (Char.ofNatAux code h) else none

end Reader

end PathIdentity
