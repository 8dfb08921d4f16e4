import PathIdentity.Text.Unprintable

/-!
# Quoted text

`quoted s` is the text of a string in diagnostics: between double quotes, with a backslash before
quotes and backslashes, short escapes for the tabulator, the line ends and NUL, and the code in
hexadecimal between braces for every other character that would not show.
-/

namespace PathIdentity

/-- The code of a character in hexadecimal, between braces. -/
def codeEscape (c : Char) : List Char :=
  "\\u\x7b".toList ++ Nat.toDigits 16 c.toNat ++ ['\x7d']

/-- The characters that stand for a character between quotes. -/
def escaped (c : Char) : List Char :=
  if c = '"' then ['\\', '"']
  else if c = '\\' then ['\\', '\\']
  else if c = '\t' then ['\\', 't']
  else if c = '\r' then ['\\', 'r']
  else if c = '\n' then ['\\', 'n']
  else if c.toNat = 0 then ['\\', '0']
  else if c.toNat < 0x20 ∨ c.toNat = 0x7f then codeEscape c
  else if c.toNat < 0x80 then [c]
  else if isEscapedAboveAscii c then codeEscape c
  else [c]

/-- A string between quotes. -/
def quoted (s : String) : String :=
  String.ofList ('"' :: s.toList.flatMap escaped ++ ['"'])

end PathIdentity
