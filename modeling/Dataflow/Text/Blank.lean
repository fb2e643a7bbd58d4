/-!
White space as the Unicode property `White_Space` has it, and the two things done with it: trimming a text and cutting
it into words.
-/

namespace Dataflow.Text

/-- the code points of the Unicode property `White_Space` -/
def isBlank (c : Char) : Bool :=
  let n := c.toNat
  (9 ≤ n && n ≤ 13) || n == 0x20 || n == 0x85 || n == 0xA0 || n == 0x1680 || (0x2000 ≤ n && n ≤ 0x200A) ||
    n == 0x2028 || n == 0x2029 || n == 0x202F || n == 0x205F || n == 0x3000

def trim (s : String) : String :=
  String.ofList ((s.toList.dropWhile isBlank).reverse.dropWhile isBlank).reverse

/-- the words of a text given as characters, the current one collected backwards -/
def wordsFrom : List Char → List Char → List String
  | [], [] => []
  | [], current => [String.ofList current.reverse]
  | c :: rest, current =>
    if isBlank c then
      if current.isEmpty then wordsFrom rest [] else String.ofList current.reverse :: wordsFrom rest []
    else wordsFrom rest (c :: current)

/-- the stretches of a text between white space -/
def words (s : String) : List String := wordsFrom s.toList []

end Dataflow.Text
