import PathIdentity.Toml.Blank

/-!
# Strings and keys of TOML

Strings stand between double quotes, where a backslash escapes, or between single ones, where it is
a character like others; three quotes on each side allow line ends within. In such a string the line
end right after the opening quotes is left out, every other is a line feed, and one or two quotes
may stand anywhere, also just before the closing ones. A key is a bare word or a one-line string,
and dots make a path of keys.
-/

namespace PathIdentity.Toml

open Reader

/-- Whether a character may stand in a string of a given quote as it is. -/
def isPlain (quote c : Char) : Bool :=
  isCommentChar c && c ≠ quote && (quote ≠ '"' || c ≠ '\\')

/-- The character of a hexadecimal code of so many digits. -/
def codeOf (count : Nat) : Reader Char := do
  match ofCode? (numberOf 16 (← exactly count (isDigitOf 16))) with
  | some c => pure c
  | none => failure

/-- What follows a backslash. -/
def escape : Reader Char := do
  match ← satisfy fun _ => true with
  | 'b' => pure '\x08'
  | 't' => pure '\t'
  | 'n' => pure '\n'
  | 'f' => pure '\x0c'
  | 'r' => pure '\x0d'
  | '"' => pure '"'
  | '\\' => pure '\\'
  | 'u' => codeOf 4
  | 'U' => codeOf 8
  | _ => failure

/-- A plain or escaped character between double quotes. -/
def basicChar : Reader Char :=
  satisfy (isPlain '"') <|> (do
    char '\\'
    escape)

/-- A string between double quotes. -/
def basicString : Reader (List Char) := do
  char '"'
  let cs ← many basicChar
  char '"'
  return cs

/-- A string between single quotes. -/
def literalString : Reader (List Char) := do
  char '\''
  let cs ← takeWhile (isPlain '\'')
  char '\''
  return cs

/-! ## Several lines -/

/-- A line end within a string, which is a line feed. -/
def lineFeed : Reader (List Char) := do
  newline
  return ['\n']

/-- A backslash at the end of a line, with the blanks and line ends up to the next character. -/
def continuation : Reader (List Char) := do
  char '\\'
  skipBlanks
  newline
  let _ ← many ((do let _ ← takeWhile1 isBlank) <|> newline)
  return []

/-- A piece of a string of several lines, the quotes apart. -/
def linesPiece (quote : Char) : Reader (List Char) :=
  (do return [← satisfy (isPlain quote)]) <|> lineFeed <|>
    if quote = '"' then continuation <|> (do return [← basicChar]) else failure

/-- A single quote mark within a string of several lines: one that is not the first of three. -/
def loneQuote (quote : Char) : Reader (List Char) := fun cs =>
  if cs.take 3 = [quote, quote, quote] then none
  else (do
    char quote
    return [quote] : Reader (List Char)) cs

/-- A string between three quotes on each side. Of five quotes in a row the first two belong to the
string, of four the first. -/
def linesString (quote : Char) : Reader (List Char) := do
  let mark := String.ofList [quote, quote, quote]
  text mark
  let _ ← optional newline
  let pieces ← many (linesPiece quote <|> loneQuote quote)
  let extra ← takeWhile (· = quote)
  if 3 ≤ extra.length ∧ extra.length ≤ 5 then
    return pieces.flatten ++ extra.drop 3
  else failure

/-- A string of any form. -/
def stringText : Reader String :=
  String.ofList <$> (linesString '"' <|> basicString <|> linesString '\'' <|> literalString)

/-! ## Keys -/

/-- Whether a character may stand in a bare key. -/
def isBare (c : Char) : Bool :=
  ('a' ≤ c && c ≤ 'z') || ('A' ≤ c && c ≤ 'Z') || isDecimal c || c = '-' || c = '_'

/-- A key without dots. -/
def simpleKey : Reader String :=
  String.ofList <$> (basicString <|> literalString <|> takeWhile1 isBare)

/-- A path has fewer keys than this. -/
def pathLimit : Nat := 80

/-- Keys with dots between them, blanks around each: the keys before the last dot, and the last. -/
def keyPath : Reader (List String × String) := do
  let spaced : Reader String := do
    skipBlanks
    let key ← simpleKey
    skipBlanks
    return key
  let first ← spaced
  let others ← many do
    char '.'
    spaced
  let keys := first :: others
  if keys.length < pathLimit then
    return (keys.dropLast, keys.getLastD first)
  else failure

end PathIdentity.Toml
