/-!
# Pieces between top-level separators

A text is cut at the separators that stand outside every bracket. The depth counts opening and
closing brackets of all four kinds alike and never drops below zero, so a closing bracket without
a partner is ordinary text. A bracket is never a separator.
-/

namespace ClassDiagram.Text

/-- Brackets that open a nested part. -/
def isOpening (c : Char) : Bool := c == '<' || c == '(' || c == '[' || c == '{'

/-- Brackets that close a nested part. -/
def isClosing (c : Char) : Bool := c == '>' || c == ')' || c == ']' || c == '}'

/-- The bracket depth after the character `c`, read at depth `depth`. -/
def depthAfter (depth : Nat) (c : Char) : Nat :=
  if isOpening c then depth + 1 else if isClosing c then depth - 1 else depth

/-- Puts a character in front of the first piece. -/
def extendFirst (c : Char) : List (List Char) → List (List Char)
  | [] => [[c]]
  | piece :: rest => (c :: piece) :: rest

/-- The pieces of a text that begins at bracket depth `depth`. -/
def piecesFrom (separator : Char) : Nat → List Char → List (List Char)
  | _, [] => [[]]
  | depth, c :: cs =>
    if c == separator && depth == 0 && !isOpening c && !isClosing c then
      [] :: piecesFrom separator 0 cs
    else extendFirst c (piecesFrom separator (depthAfter depth c) cs)

/-- The pieces between the top-level separators. -/
def pieces (separator : Char) (cs : List Char) : List (List Char) := piecesFrom separator 0 cs

theorem extendFirst_ne_nil (c : Char) (ps : List (List Char)) : extendFirst c ps ≠ [] := by
  cases ps with
  | nil => simp [extendFirst]
  | cons p ps => simp [extendFirst]

theorem piecesFrom_ne_nil (separator : Char) (depth : Nat) (cs : List Char) :
    piecesFrom separator depth cs ≠ [] := by
  cases cs with
  | nil => simp [piecesFrom]
  | cons c cs =>
    unfold piecesFrom
    split
    · simp
    · exact extendFirst_ne_nil _ _

/-- There is always at least one piece. -/
theorem pieces_ne_nil (separator : Char) (cs : List Char) : pieces separator cs ≠ [] :=
  piecesFrom_ne_nil separator 0 cs

end ClassDiagram.Text
