import PathIdentity.Text.Reader

/-!
# Blanks, line ends and comments of TOML

Blanks are spaces and tabulators. A line ends with a line feed, before which a carriage return may
stand, but a carriage return ends nothing alone. A comment runs to the end of its line and holds no
control characters but tabulators.
-/

namespace PathIdentity.Toml

open Reader

/-- Whether a character is a blank. -/
def isBlank (c : Char) : Bool := c = ' ' || c = '\t'

/-- Whether a character may stand in a comment: no control character of ASCII but the tabulator. -/
def isCommentChar (c : Char) : Bool := c = '\t' || (0x20 ≤ c.toNat && c.toNat ≠ 0x7f)

/-- Blanks. -/
def skipBlanks : Reader Unit := do
  let _ ← takeWhile isBlank

/-- The end of a line. -/
def newline : Reader Unit := text "\n" <|> text "\x0d\n"

/-- A comment without the end of its line. -/
def comment : Reader Unit := do
  char '#'
  let _ ← takeWhile isCommentChar

/-- What may stand behind a statement: blanks, a comment, and the end of the line or document. -/
def restOfLine : Reader Unit := do
  skipBlanks
  let _ ← optional comment
  newline <|> atEnd

/-- A run of blanks, the end of a line, or a comment with the end of its line. -/
def layoutPiece : Reader Unit :=
  (do let _ ← takeWhile1 isBlank) <|> newline <|> (do
    comment
    newline)

/-- Blanks, line ends and comments, as they may stand between the elements of an array. -/
def skipLayout : Reader Unit := do
  let _ ← many layoutPiece

end PathIdentity.Toml
