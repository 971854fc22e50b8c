import NullGuard.Text.Printable

/-!
# Quoted text

`quote` writes a text as a quoted literal that reads back as the same text: single quotes,
unless the text holds a single quote and no double quote; the backslash and the chosen quote
escaped; tab, newline and carriage return as `\t`, `\n`, `\r`; every other character that is
not printable as a hexadecimal escape of two, four or eight digits (`\x..`, `\u....`,
`\U........`), the shortest that holds its code point.
-/

namespace NullGuard.Text

/-- The lower-case hexadecimal digits of `n`, padded with zeros to at least `width` digits. -/
def hexPadded (width n : Nat) : String :=
  let digits := Nat.toDigits 16 n
  String.ofList (List.replicate (width - digits.length) '0' ++ digits)

/-- The escape that stands for a non-printable character. -/
def hexEscape (c : Char) : String :=
  let n := c.toNat
  if n < 0x100 then "\\x" ++ hexPadded 2 n
  else if n < 0x10000 then "\\u" ++ hexPadded 4 n
  else "\\U" ++ hexPadded 8 n

/-- How one character of a quoted text is written, given the quote character in use. -/
def quoteChar (q c : Char) : String :=
  if c == q || c == '\\' then String.ofList ['\\', c]
  else if c == '\t' then "\\t"
  else if c == '\n' then "\\n"
  else if c == '\r' then "\\r"
  else if c.toNat < 0x20 || c.toNat == 0x7f then hexEscape c
  else if c.toNat < 0x7f then String.singleton c
  else if isPrintable c then String.singleton c
  else hexEscape c

/-- The quote character for a text: a double quote only when the text holds a single quote
and no double quote. -/
def quoteFor (s : String) : Char :=
  if s.contains '\'' && !s.contains '"' then '"' else '\''

/-- The text as a quoted literal. -/
def quote (s : String) : String :=
  let q := quoteFor s
  String.singleton q ++ String.join (s.toList.map (quoteChar q)) ++ String.singleton q

end NullGuard.Text
