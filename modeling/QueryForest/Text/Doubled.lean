set_option autoImplicit false

/-!
# Text between quotation marks

A text is enclosed in a quotation mark by writing the mark before it, after it, and twice wherever
it occurs inside. A single mark inside the written form therefore always ends it.
-/

namespace QueryForest.Text

/-- The characters of a text with every `mark` written twice. -/
def doubled (mark : Char) : List Char → List Char
  | [] => []
  | c :: cs => if c = mark then mark :: mark :: doubled mark cs else c :: doubled mark cs

/-- A text between two `mark`s, the marks inside it doubled. -/
def enclosed (mark : Char) (s : String) : String :=
  String.ofList (mark :: doubled mark s.toList ++ [mark])

end QueryForest.Text
