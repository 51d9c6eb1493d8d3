/-
  EdgeFields/Text/Pieces.lean
  ===========================
  **Texts cut into pieces and respelled.**

  A text is the sequence of the pieces between the occurrences of a separator; a text
  without the separator is one piece.
-/

namespace EdgeFields.Text

/-- The pieces of a text between its separators. -/
def pieces (separator : Char) : List Char → List (List Char)
  | [] => [[]]
  | c :: cs =>
    if c = separator then [] :: pieces separator cs
    else match pieces separator cs with
      | p :: ps => (c :: p) :: ps
      | [] => [[c]]

/-- The lines of a text, without the carriage returns before their ends. -/
def lines (cs : List Char) : List (List Char) :=
  (pieces '\n' cs).map fun l => if l.getLast? = some '\r' then l.dropLast else l

/-- Every adjacent pair `a`, `b`, from the left, becomes `c`. -/
def replacePair (a b c : Char) : List Char → List Char
  | x :: y :: rest =>
    if x = a ∧ y = b then c :: replacePair a b c rest else x :: replacePair a b c (y :: rest)
  | cs => cs

end EdgeFields.Text
