/-
  EdgeFields/Settings/Variable.lean
  =================================
  **Settings in environment variables.**

  The name of a variable is the path of a setting, its value is a value in a small notation:
  `true` and `false`, numbers, strings in double quotes, single characters in single quotes,
  lists in square brackets, and tables of `key=value` in braces. Any other word is a text. A
  value that is not in this notation throughout stands for itself as a text, blanks included.
-/
import EdgeFields.Settings.Literal
import EdgeFields.Text.Blank
import EdgeFields.Text.Pieces

namespace EdgeFields.Variable

/-! ### Values -/

/-- The blanks between the parts of a value. -/
def isSpace (c : Char) : Bool := Json.isSpace c || c == '\x0c'

def skipSpaces (cs : List Char) : List Char := cs.dropWhile isSpace

/-- The characters of a word. -/
def inWord (c : Char) : Bool := !(",\x7b\x7d[]".toList.contains c)

/-- The characters of a key without quotes. -/
def inKey (c : Char) : Bool := c.isAlphanum || c == '_' || c == '-'

/-- An integer: without a minus sign below `2 ^ 64`, with one at least `-2 ^ 63`. -/
def integer? (cs : List Char) : Option Int :=
  let (negative, ds) := Literal.splitSign cs
  ((Literal.natural? 10 ds).map fun n => if negative then -(n : Int) else (n : Int)).filter
    fun i => Number.InRange i

/-- The value of a word. With a point in it, it may be a decimal number. -/
def word (cs : List Char) : Json :=
  let w := Text.trimBoth Text.isBlank (String.ofList cs)
  if w.toList.contains '.' && (Literal.decimal? w.toList).isSome then Literal.otherNumber
  else match integer? w.toList with
    | some i => Literal.ofInt i
    | none => .str w

def scanKey (cs : List Char) : Option (String × List Char) :=
  match cs with
  | '"' :: rest => (Literal.scanQuoted rest).map fun (k, r) => (String.ofList k, r)
  | cs =>
    match cs.span inKey with
    | ([], _) => none
    | (k, rest) => some (String.ofList k, rest)

mutual

/-- Reads a value and the blanks around it. Each step takes a character or goes one level
    down. -/
def scanValue : Nat → List Char → Option (Json × List Char)
  | 0, _ => none
  | steps + 1, cs => (scanBare steps (skipSpaces cs)).map fun (v, r) => (v, skipSpaces r)

def scanBare : Nat → List Char → Option (Json × List Char)
  | 0, _ => none
  | steps + 1, cs =>
    match cs with
    | 't' :: 'r' :: 'u' :: 'e' :: rest => some (.bool true, rest)
    | 'f' :: 'a' :: 'l' :: 's' :: 'e' :: rest => some (.bool false, rest)
    | '\x7b' :: rest => (scanMembers steps rest).map fun (ms, r) => (.object ms, r)
    | '[' :: rest => (scanItems steps rest).map fun (xs, r) => (.arr xs, r)
    | '"' :: rest => (Literal.scanQuoted rest).map fun (s, r) => (.str (String.ofList s), r)
    | '\'' :: c :: '\'' :: rest => some (.str (String.ofList [c]), rest)
    | '\'' :: _ => none
    | cs => let (w, rest) := cs.span inWord; some (word w, rest)

/-- Reads the items of a list up to its closing bracket; a comma may stand before that. -/
def scanItems : Nat → List Char → Option (List Json × List Char)
  | 0, _ => none
  | _, ']' :: rest => some ([], rest)
  | steps + 1, cs => do
    let (v, rest) ← scanValue steps cs
    match rest with
    | ',' :: rest => (scanItems steps rest).map fun (vs, r) => (v :: vs, r)
    | ']' :: rest => some ([v], rest)
    | _ => none

/-- Reads the members of a table up to its closing brace; a comma may stand before that. -/
def scanMembers : Nat → List Char → Option (List (String × Json) × List Char)
  | 0, _ => none
  | _, '\x7d' :: rest => some ([], rest)
  | steps + 1, cs => do
    let (k, rest) ← scanKey (skipSpaces cs)
    match skipSpaces rest with
    | '=' :: rest => do
      let (v, rest) ← scanValue steps rest
      match rest with
      | ',' :: rest => (scanMembers steps rest).map fun (ms, r) => ((k, v) :: ms, r)
      | '\x7d' :: rest => some ([(k, v)], rest)
      | _ => none
    | _ => none

end

/-- The value of a variable. -/
def value (s : String) : Json :=
  let cs := s.toList
  match scanValue (3 * cs.length + 3) cs with
  | some (v, []) => v
  | _ => .str s

/-! ### Names -/

/-- Every pair of underscores, from the left, becomes a point. -/
def dotted (cs : List Char) : List Char := Text.replacePair '_' '_' '.' cs

/-- The path that the name of a variable stands for: what follows the application's name and
    an underscore, in any case, with its parts separated by two underscores or a point. -/
def path? (application name : String) : Option (List String) :=
  let front := (application ++ "_").toLower.toList
  let cs := name.toLower.toList
  if front.isPrefixOf cs then
    let parts := Text.pieces '.' (dotted (cs.drop front.length))
    if parts.any List.isEmpty then none else some (parts.map String.ofList)
  else none

/-- An object with a value at a path. -/
def nest (value : Json) : List String → Json
  | [] => value
  | k :: ks => .obj [(k, nest value ks)]

/-- The document of one variable, if its name stands for a path. -/
def document? (application : String) (entry : String × String) : Option Members :=
  match path? application entry.1 with
  | some (k :: ks) => some [(k, nest (value entry.2) ks)]
  | _ => none

end EdgeFields.Variable
