import ClassDiagram.Text.CharClass

/-!
# Blanks around and between words

Trimming, and the words of a text: its maximal runs of characters that are not blank.
-/

namespace ClassDiagram.Text

/-- The text without its leading blanks. -/
def trimStart (cs : List Char) : List Char := cs.dropWhile isBlank

/-- The text without its trailing blanks. -/
def trimEnd (cs : List Char) : List Char := (cs.reverse.dropWhile isBlank).reverse

/-- The text without the blanks at its two ends. -/
def trim (cs : List Char) : List Char := trimEnd (trimStart cs)

/-- The words of a text after the characters `held`, in reverse, of a word already begun. -/
def wordsFrom : List Char → List Char → List (List Char)
  | [], [] => []
  | held, [] => [held.reverse]
  | held, c :: cs =>
    if isBlank c then
      match held with
      | [] => wordsFrom [] cs
      | _ => held.reverse :: wordsFrom [] cs
    else wordsFrom (c :: held) cs

/-- The words of a text, in order. -/
def words (cs : List Char) : List (List Char) := wordsFrom [] cs

end ClassDiagram.Text
