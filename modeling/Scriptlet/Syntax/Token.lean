/-!
# Tokens

The scanner cuts source text into tokens. A token has a kind, the text it was read from, the
offset (in characters) where it starts and, for a numeral, its form: whether it denotes an
integer or a real and in which notation it is written.

Operators carry a binding precedence, a function of the kind alone, so the parser needs no table
of its own. From loosest to tightest: `=` (1), `||` (4), `&&` (5), `|` (6), `&` (7), `==` (8),
the comparisons (9), `+ -` (10), `* /` (20). Prefix signs bind at 30. Every other token,
`=>` included, has precedence 0, which never continues an expression.
-/

namespace Scriptlet.Syntax

/-- The kinds of token. -/
inductive TokenKind where
  | identifier
  | numericLiteral
  | stringLiteral
  | openParen
  | closeParen
  | openCurly
  | closeCurly
  | openBracket
  | closeBracket
  | comma
  | dot
  | colon
  | semicolon
  | plus
  | minus
  | asterisk
  | slash
  | equal
  | equalEqual
  | equalGreaterThan
  | lessThan
  | lessThanEqual
  | greaterThan
  | greaterThanEqual
  | ampersand
  | ampersandAmpersand
  | bar
  | barBar
  | newLine
  | eof
deriving DecidableEq, Repr, Inhabited

namespace TokenKind

/-- The name of a kind as messages print it. -/
def name : TokenKind → String
  | identifier => "Identifier"
  | numericLiteral => "NumericLiteral"
  | stringLiteral => "StringLiteral"
  | openParen => "OpenParen"
  | closeParen => "CloseParen"
  | openCurly => "OpenCurly"
  | closeCurly => "CloseCurly"
  | openBracket => "OpenBracket"
  | closeBracket => "CloseBracket"
  | comma => "Comma"
  | dot => "Dot"
  | colon => "Colon"
  | semicolon => "Semicolon"
  | plus => "Plus"
  | minus => "Minus"
  | asterisk => "Asterisk"
  | slash => "Slash"
  | equal => "Equal"
  | equalEqual => "EqualEqual"
  | equalGreaterThan => "EqualGreaterThan"
  | lessThan => "LessThan"
  | lessThanEqual => "LessThanEqual"
  | greaterThan => "GreaterThan"
  | greaterThanEqual => "GreaterThanEqual"
  | ampersand => "Ampersand"
  | ampersandAmpersand => "AmpersandAmpersand"
  | bar => "Bar"
  | barBar => "BarBar"
  | newLine => "NewLine"
  | eof => "Eof"

/-- The binding precedence of an operator kind; 0 for every kind that continues no
expression. -/
def precedence : TokenKind → Nat
  | equal => 1
  | barBar => 4
  | ampersandAmpersand => 5
  | bar => 6
  | ampersand => 7
  | equalEqual => 8
  | lessThan | lessThanEqual | greaterThan | greaterThanEqual => 9
  | plus | minus => 10
  | asterisk | slash => 20
  | _ => 0

end TokenKind

/-- The precedence at which an assignment's right side is read, one below that of `=`, so that
`a = b = c` groups to the right. -/
def assignmentRhsPrecedence : Nat := 0

/-- The precedence at which the operand of a prefix sign is read: tighter than every binary
operator, so `-a * b` is `(-a) * b`. -/
def prefixPrecedence : Nat := 30

/-- Whether a numeral denotes an integer or a real. -/
inductive NumeralClass where
  | integer
  | real
deriving DecidableEq, Repr, Inhabited

/-- The notation a numeral is written in. -/
inductive NumeralStyle where
  | decimal
  | hex
  | binary
  | scientific
deriving DecidableEq, Repr, Inhabited

/-- The form of a numeral: what it denotes and how it is written. -/
structure NumeralForm where
  /-- Integer or real. -/
  cls : NumeralClass
  /-- Decimal, hexadecimal, binary or with an exponent. -/
  style : NumeralStyle
deriving DecidableEq, Repr, Inhabited

/-- The name of a numeral class as descriptions print it. -/
def NumeralClass.name : NumeralClass → String
  | .integer => "Integer"
  | .real => "Real"

/-- The name of a numeral style as descriptions print it. -/
def NumeralStyle.name : NumeralStyle → String
  | .decimal => "Decimal"
  | .hex => "Hex"
  | .binary => "Binary"
  | .scientific => "Scientific"

/-- The radix of the digits of a numeral written in this style. -/
def NumeralStyle.radix : NumeralStyle → Nat
  | .hex => 16
  | .binary => 2
  | _ => 10

/-- A token: its kind, the text it was read from (the body, for a string), the offset where it
starts, and the form of a numeral. -/
structure Token where
  /-- The kind. -/
  kind : TokenKind
  /-- The text; for a string literal the text between the quotes. -/
  text : String
  /-- The offset in characters of the first character of the token. -/
  position : Nat
  /-- The form, for a numeral; `none` for every other kind. -/
  form : Option NumeralForm := none
deriving DecidableEq, Repr, Inhabited

namespace Token

/-- The binding precedence of the token, that of its kind. -/
def precedence (t : Token) : Nat := t.kind.precedence

/-- Whether the token is the identifier `word`: keywords are identifiers told apart by their
text. -/
def isWord (t : Token) (word : String) : Bool :=
  t.kind == .identifier && t.text == word

/-- The text of a token as its description shows it: a line feed as `\n` and a tab as `\t`,
everything else as it is. -/
def shownText (t : Token) : String :=
  String.ofList (t.text.toList.flatMap fun c =>
    if c = '\n' then ['\\', 'n'] else if c = '\t' then ['\\', 't'] else [c])

/-- The one-line description of a token, such as `<Token text='+' kind='Plus'>`; a numeral adds
`specialization='Integer/Decimal'`. -/
def describe (t : Token) : String :=
  match t.form with
  | some f =>
    "<Token text='" ++ t.shownText ++ "' kind='" ++ t.kind.name ++ "' specialization='" ++
      f.cls.name ++ "/" ++ f.style.name ++ "'>"
  | none => "<Token text='" ++ t.shownText ++ "' kind='" ++ t.kind.name ++ "'>"

end Token

end Scriptlet.Syntax
