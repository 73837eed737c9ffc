import ClassDiagram.Text.Age
import ClassDiagram.Text.Alphabetic
import ClassDiagram.Text.Mark
import ClassDiagram.Text.Number

/-!
# Character classes of source text

* `isBlank`: white space, which separates words;
* `isWord`: the characters of a word, so that a word starts where none of them comes before;
* `isNameStart`, `isNameChar`: the first character of a declared name and the ones after it;
* `isPathChar`: the characters of a possibly qualified name;
* `isAlphanumeric`, `isTypeNameChar`: the characters of a name inside a type expression;
* `continuesIdentifier`: the characters that keep an identifier going after its first one.

A declared name starts with an ASCII letter; beyond that all classes know the whole of Unicode.
Words, and with them declared and qualified names, keep to version 16; the names inside a type
expression and identifiers follow version 17. A character assigned in version 17 thus ends a word,
but not a name inside a type expression.
-/

namespace ClassDiagram.Text

/-- The Unicode property `White_Space`. -/
def whiteSpace : Ranges :=
  [(0x9, 0xd), (0x20, 0x20), (0x85, 0x85), (0xa0, 0xa0), (0x1680, 0x1680), (0x2000, 0x200a),
   (0x2028, 0x2029), (0x202f, 0x202f), (0x205f, 0x205f), (0x3000, 0x3000)]

/-- The general category `Connector_Punctuation`: the underscore and its relatives. -/
def connector : Ranges :=
  [(0x5f, 0x5f), (0x203f, 0x2040), (0x2054, 0x2054), (0xfe33, 0xfe34), (0xfe4d, 0xfe4f),
   (0xff3f, 0xff3f)]

/-- The Unicode property `Join_Control`. -/
def joinControl : Ranges := [(0x200c, 0x200d)]

/-- The alphabetic characters that are symbols: circled and squared letters. -/
def letterSymbol : Ranges :=
  [(0x24b6, 0x24e9), (0x1f130, 0x1f149), (0x1f150, 0x1f169), (0x1f170, 0x1f189)]

/-- Characters that an identifier may go on with although no general category admits them. -/
def identifierExtra : Ranges :=
  [(0xb7, 0xb7), (0x387, 0x387), (0x1369, 0x1371), (0x19da, 0x19da), (0x200c, 0x200d),
   (0x2118, 0x2118), (0x212e, 0x212e), (0x30fb, 0x30fb), (0xff65, 0xff65)]

/-- Letters that no identifier holds, because compatibility normalisation would break it. -/
def identifierGap : Ranges :=
  [(0x37a, 0x37a), (0x2e2f, 0x2e2f), (0xfc5e, 0xfc63), (0xfdfa, 0xfdfb), (0xfe70, 0xfe70),
   (0xfe72, 0xfe72), (0xfe74, 0xfe74), (0xfe76, 0xfe76), (0xfe78, 0xfe78), (0xfe7a, 0xfe7a),
   (0xfe7c, 0xfe7c), (0xfe7e, 0xfe7e)]

/-- White space. -/
def isBlank (c : Char) : Bool := whiteSpace.holds c.toNat

/-- Characters of a word: alphabetic characters, marks, decimal digits, connectors and joiners, as
of version 16. -/
def isWord (c : Char) : Bool :=
  let n := c.toNat
  let admitted :=
    alphabetic.holds n || mark.holds n || decimalNumber.holds n || connector.holds n ||
      joinControl.holds n
  admitted && !age17.holds n

/-- The first character of a declared name. -/
def isNameStart (c : Char) : Bool := c.isAlpha || c == '_' || c == '$'

/-- A later character of a declared name. -/
def isNameChar (c : Char) : Bool := isWord c || c == '$'

/-- A character of a possibly qualified name. -/
def isPathChar (c : Char) : Bool := isNameChar c || c == '.'

/-- Alphabetic characters and numbers of every kind. -/
def isAlphanumeric (c : Char) : Bool :=
  let n := c.toNat
  alphabetic.holds n || decimalNumber.holds n || otherNumber.holds n

/-- A character of a type parameter's name. -/
def isTypeParameterChar (c : Char) : Bool := isAlphanumeric c || c == '_' || c == '$'

/-- A character of a name inside a type expression. -/
def isTypeNameChar (c : Char) : Bool := isTypeParameterChar c || c == '.'

/-- A character that an identifier may hold after its first one (the property `XID_Continue`). -/
def continuesIdentifier (c : Char) : Bool :=
  let n := c.toNat
  let admitted :=
    (alphabetic.holds n && !letterSymbol.holds n) || (mark.holds n && !enclosingMark.holds n) ||
      decimalNumber.holds n || connector.holds n || identifierExtra.holds n
  admitted && !identifierGap.holds n

end ClassDiagram.Text
