/-
  EdgeFields/Text/Blank.lean
  ==========================
  **White space.**

  The characters with the Unicode property White_Space: 25 code points in ten
  ranges. They separate the words of a filter expression and are trimmed from the
  ends of configured paths.
-/

namespace EdgeFields.Text

/-- Whether a code point lies in one of the closed ranges. -/
def inRanges (ranges : List (Nat × Nat)) (n : Nat) : Bool :=
  ranges.any fun r => r.1 ≤ n && n ≤ r.2

/-- The ranges of white space, ascending and apart. -/
def blankRanges : List (Nat × Nat) :=
  [(0x09, 0x0D), (0x20, 0x20), (0x85, 0x85), (0xA0, 0xA0), (0x1680, 0x1680), (0x2000, 0x200A),
   (0x2028, 0x2029), (0x202F, 0x202F), (0x205F, 0x205F), (0x3000, 0x3000)]

def isBlank (c : Char) : Bool := inRanges blankRanges c.toNat

/-- A text without the characters that satisfy `p` at its start. -/
def trimStart (p : Char → Bool) (s : String) : String :=
  String.ofList (s.toList.dropWhile p)

/-- A text without the characters that satisfy `p` at its end. -/
def trimEnd (p : Char → Bool) (s : String) : String :=
  String.ofList (s.toList.reverse.dropWhile p).reverse

/-- A text without the characters that satisfy `p` at either end. -/
def trimBoth (p : Char → Bool) (s : String) : String := trimEnd p (trimStart p s)

end EdgeFields.Text
