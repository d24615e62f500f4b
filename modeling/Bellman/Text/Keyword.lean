import Bellman.Text.Blank

/-!
# Keywords

A keyword is recognised whatever the case of its letters. Letters are compared by their upper case,
and a few characters outside ASCII have an upper case inside it: the long s, the dotless i, the
sharp s and the Latin ligatures. Keywords are ASCII, so no other character can take part in a match
and is kept as it is.
-/

namespace Bellman.Text

/-- The upper case of a character as far as it lies within ASCII; any other character unchanged. -/
def upperAscii (c : Char) : List Char :=
  match c with
  | 'ß' => ['S', 'S']
  | 'ı' => ['I']
  | 'ſ' => ['S']
  | 'ﬀ' => ['F', 'F']
  | 'ﬁ' => ['F', 'I']
  | 'ﬂ' => ['F', 'L']
  | 'ﬃ' => ['F', 'F', 'I']
  | 'ﬄ' => ['F', 'F', 'L']
  | 'ﬅ' => ['S', 'T']
  | 'ﬆ' => ['S', 'T']
  | c => [c.toUpper]

/-- The upper-case form by which a keyword is recognised. -/
def keyword (s : String) : String :=
  String.ofList (s.toList.flatMap upperAscii)

def trimmedKeyword (s : String) : String :=
  String.ofList ((trim isBlank s.toList).flatMap upperAscii)

end Bellman.Text
