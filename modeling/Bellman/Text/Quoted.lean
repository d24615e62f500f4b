import Bellman.Text.Printable
import Bellman.Text.Surrogate

/-!
# Quoted literals

A text is quoted with single quotes, or with double quotes if it holds a single and no double one.
Inside, the quote in use and the backslash are escaped, line breaks and tabs have letters, and other
characters that cannot be shown, as well as halves of surrogate pairs, are written by their code
with two, four or eight hexadecimal digits.
-/

namespace Bellman.Text

/-- Lower-case hexadecimal digits, padded with zeros to a width. -/
def hex (width n : Nat) : List Char :=
  let ds := Nat.toDigits 16 n
  List.replicate (width - ds.length) '0' ++ ds

/-- The quote that surrounds a literal. -/
def quoteFor (cs : List Char) : Char :=
  if cs.contains '\'' && !cs.contains '"' then '"' else '\''

/-- The form of one character inside a literal. -/
def escapeChar (quote c : Char) : List Char :=
  if c = quote || c = '\\' then ['\\', c]
  else if c = '\n' then ['\\', 'n']
  else if c = '\t' then ['\\', 't']
  else if c = '\r' then ['\\', 'r']
  else if isPrintable c then [c]
  else
    let code := (halfCode? c).getD c.toNat
    if code < 0x100 then '\\' :: 'x' :: hex 2 code
    else if code < 0x10000 then '\\' :: 'u' :: hex 4 code
    else '\\' :: 'U' :: hex 8 code

def quoted (s : String) : String :=
  let cs := s.toList
  let quote := quoteFor cs
  String.ofList (quote :: cs.flatMap (escapeChar quote) ++ [quote])

/-- The quoted literal of a string of bytes, marked by a leading `b`. -/
def quotedBytes (bytes : List UInt8) : String :=
  let cs := bytes.map fun b => Char.ofNat b.toNat
  let quote := quoteFor cs
  let escape (c : Char) : List Char :=
    if c.toNat < 0x7F then escapeChar quote c else '\\' :: 'x' :: hex 2 c.toNat
  String.ofList ('b' :: quote :: cs.flatMap escape ++ [quote])

end Bellman.Text
