import Bellman.Yaml.Cursor

/-!
# Tags

A tag says what kind of value a node is. The kinds of the standard have names under one address; any
other tag is kept as it is. A plain scalar without a tag is tagged by its text.
-/

namespace Bellman.Yaml

/-- The kind of value that a node is. -/
inductive Tag where
  | null
  | bool
  | int
  | float
  | timestamp
  | binary
  | text
  | sequence
  | mapping
  | set
  | orderedMapping
  | pairs
  /-- The key whose value is merged into its mapping. -/
  | merge
  /-- The key whose value stands for its mapping. -/
  | value
  | other (name : String)
  deriving DecidableEq, Repr

namespace Tag

/-- What the names of the standard kinds begin with. -/
def standard : String :=
  "tag:yaml.org,2002:"

def ofName (name : String) : Tag :=
  if name = standard ++ "null" then null
  else if name = standard ++ "bool" then bool
  else if name = standard ++ "int" then int
  else if name = standard ++ "float" then float
  else if name = standard ++ "timestamp" then timestamp
  else if name = standard ++ "binary" then binary
  else if name = standard ++ "str" then text
  else if name = standard ++ "seq" then sequence
  else if name = standard ++ "map" then mapping
  else if name = standard ++ "set" then set
  else if name = standard ++ "omap" then orderedMapping
  else if name = standard ++ "pairs" then pairs
  else if name = standard ++ "merge" then merge
  else if name = standard ++ "value" then value
  else other name

/-- Characters without a line feed at their end. -/
def withoutFinalBreak (cs : List Char) : List Char :=
  if cs.getLast? = some '\n' then cs.dropLast else cs

def unsigned : List Char → List Char
  | '+' :: cs => cs
  | '-' :: cs => cs
  | cs => cs

def isDigitOrGap (c : Char) : Bool :=
  c.isDigit || c = '_'

/-- Whether characters are a digit that may be followed by more, with underscores between them. -/
def isDigits : List Char → Bool
  | [] => false
  | c :: cs => c.isDigit && cs.all isDigitOrGap

/-- Whether characters are a number below sixty in one or two digits. -/
def isSixtieth : List Char → Bool
  | [a] => a.isDigit
  | [a, b] => '0' ≤ a && a ≤ '5' && b.isDigit
  | _ => false

/-- Whether characters are nothing or an exponent with its sign. -/
def isExponent : List Char → Bool
  | [] => true
  | e :: s :: d :: ds => (e = 'e' || e = 'E') && (s = '+' || s = '-') && (d :: ds).all Char.isDigit
  | _ => false

/-- Whether a text is a whole number: binary, octal, decimal, hexadecimal or in base sixty. -/
def isWhole (cs : List Char) : Bool :=
  match unsigned cs with
  | '0' :: 'b' :: ds => !ds.isEmpty && ds.all fun c => c = '0' || c = '1' || c = '_'
  | '0' :: 'x' :: ds =>
    !ds.isEmpty && ds.all fun c =>
      isDigitOrGap c || ('a' ≤ c && c ≤ 'f') || ('A' ≤ c && c ≤ 'F')
  | '0' :: ds => ds.all fun c => ('0' ≤ c && c ≤ '7') || c = '_'
  | d :: ds =>
    d.isDigit &&
      match (d :: ds).splitOn ':' with
      | first :: sixtieths => isDigits first && sixtieths.all isSixtieth
      | [] => false
  | [] => false

def isPointed (cs : List Char) : Bool :=
  let body := unsigned cs
  let beforePoint := body.takeWhile (· ≠ '.')
  match body.dropWhile (· ≠ '.') with
  | [] => false
  | _ :: afterPoint =>
    let digits := afterPoint.takeWhile isDigitOrGap
    let rest := afterPoint.dropWhile isDigitOrGap
    match beforePoint with
    | [] =>
      ["inf".toList, "Inf".toList, "INF".toList].contains afterPoint ||
        (body.length = cs.length &&
          ((isDigits digits && isExponent rest) ||
            ["nan".toList, "NaN".toList, "NAN".toList].contains afterPoint))
    | _ =>
      if beforePoint.contains ':' then
        rest.isEmpty &&
          match beforePoint.splitOn ':' with
          | first :: sixtieths => isDigits first && sixtieths.all isSixtieth
          | [] => false
      else isDigits beforePoint && isExponent rest

/-- Whether a text begins like a date of four, two and two digits and has nothing after it. -/
def isDay (cs : List Char) : Bool :=
  match cs with
  | [a, b, c, d, m, e, f, n, g, h] =>
    [a, b, c, d, e, f, g, h].all Char.isDigit && m = '-' && n = '-'
  | _ => false

end Tag

end Bellman.Yaml
