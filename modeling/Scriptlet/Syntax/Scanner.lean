import Scriptlet.Syntax.Token
import Scriptlet.Text.Quoted

/-!
# The scanner

`Scanner.next` reads one token from the input not yet read. Spaces, tabs and carriage returns
between tokens are skipped; a line feed is a token of its own, since it ends statements. The kind
of token is chosen by its first character, and each kind takes the longest run of characters it
can:

* an identifier starts with an ASCII letter or `_` and goes on with letters, digits and `_`;
* a string starts with `'`, `"` or a backquote and runs to the next occurrence of the same
  character, line feeds included; it has no escapes;
* a numeral is `0x` or `0b` followed by at least one hexadecimal or binary digit, or else
  decimal digits without a leading zero, then `.digits` only when a digit follows the dot, then
  optionally `e` or `E`, an optional sign and at least one digit;
* an operator is one of `== => && || <= >=` when the next two characters spell it, else one
  character.

At the end of the input every call answers end of input at the same offset and marks the
scanner exhausted. A character that starts no token, a string that does not end, and a
malformed numeral are faults (`LexError`); the scanner's index then shows where reading stopped.

## Main definitions

* `Scanner.next`: one token, or the fault.
* `Scanner.run`: the tokens up to and including the end of input, or up to the fault.
* `TokenStream`: what the parser reads, the tokens before the end and how the input ends.
-/

namespace Scriptlet.Syntax

/-- Why the input could not be cut into tokens. Each carries the offset it is reported at. -/
inductive LexError where
  /-- The character starts no token. -/
  | unexpectedCharacter (c : Char) (offset : Nat)
  /-- The string starting at the offset has no closing quote. -/
  | unterminatedString (offset : Nat)
  /-- The numeral at the offset starts with `0` followed by a decimal digit. -/
  | leadingZero (offset : Nat)
  /-- The numeral at the offset has no digit after its radix marker `0x` or `0b`. -/
  | missingRadixDigit (marker : String) (offset : Nat)
  /-- The numeral at the offset has no digit in its exponent. -/
  | missingExponentDigits (offset : Nat)
deriving DecidableEq, Repr

namespace LexError

/-- The name of the class of the fault, as reports print it. -/
def className : LexError → String
  | unexpectedCharacter .. => "TzUnexpectedCharacter"
  | unterminatedString .. => "TzUnterminatedString"
  | leadingZero .. | missingRadixDigit .. | missingExponentDigits .. => "TzInvalidNumber"

/-- The message of the fault: what went wrong, then `(at offset P)`. -/
def message : LexError → String
  | unexpectedCharacter c p =>
    "unexpected character: " ++ Text.literal (String.singleton c) ++ " (at offset " ++
      toString p ++ ")"
  | unterminatedString p => "unterminated string (at offset " ++ toString p ++ ")"
  | leadingZero p => "invalid number: leading zero (at offset " ++ toString p ++ ")"
  | missingRadixDigit m p =>
    "invalid number: expected a digit after " ++ Text.literal m ++ " (at offset " ++
      toString p ++ ")"
  | missingExponentDigits p =>
    "invalid number: missing exponent digits (at offset " ++ toString p ++ ")"

end LexError

/-! ## Character classes -/

/-- Space, tab and carriage return separate tokens and are skipped. -/
def isBlank (c : Char) : Bool := c = ' ' ∨ c = '\t' ∨ c = '\r'

/-- The ASCII decimal digits. -/
def isDecimalDigit (c : Char) : Bool := '0' ≤ c ∧ c ≤ '9'

/-- The ASCII hexadecimal digits, in either case. -/
def isHexDigit (c : Char) : Bool :=
  isDecimalDigit c ∨ ('a' ≤ c ∧ c ≤ 'f') ∨ ('A' ≤ c ∧ c ≤ 'F')

/-- The binary digits. -/
def isBinaryDigit (c : Char) : Bool := c = '0' ∨ c = '1'

/-- An identifier starts with an ASCII letter or `_`. -/
def isWordStart (c : Char) : Bool := ('a' ≤ c ∧ c ≤ 'z') ∨ ('A' ≤ c ∧ c ≤ 'Z') ∨ c = '_'

/-- An identifier goes on with ASCII letters, digits and `_`. -/
def isWordChar (c : Char) : Bool := isWordStart c ∨ isDecimalDigit c

/-- The three characters that open (and close) a string. -/
def isQuote (c : Char) : Bool := c = '\'' ∨ c = '"' ∨ c = '`'

/-- The two-character operators, by their two characters. -/
def pairKind : Char → Char → Option TokenKind
  | '=', '=' => some .equalEqual
  | '=', '>' => some .equalGreaterThan
  | '&', '&' => some .ampersandAmpersand
  | '|', '|' => some .barBar
  | '<', '=' => some .lessThanEqual
  | '>', '=' => some .greaterThanEqual
  | _, _ => none

/-- The one-character tokens, by their character. -/
def singleKind : Char → Option TokenKind
  | '(' => some .openParen
  | ')' => some .closeParen
  | '{' => some .openCurly
  | '}' => some .closeCurly
  | '[' => some .openBracket
  | ']' => some .closeBracket
  | ',' => some .comma
  | '.' => some .dot
  | ':' => some .colon
  | ';' => some .semicolon
  | '+' => some .plus
  | '-' => some .minus
  | '*' => some .asterisk
  | '/' => some .slash
  | '=' => some .equal
  | '<' => some .lessThan
  | '>' => some .greaterThan
  | '&' => some .ampersand
  | '|' => some .bar
  | '\n' => some .newLine
  | _ => none

/-! ## Reading one token -/

/-- A token read from the input: the token and how many characters it took. -/
abbrev Read := Except (LexError × Nat) (Token × Nat)

/-- A numeral token of text `cs` at offset `pos`. -/
def numeral (cs : List Char) (pos : Nat) (cls : NumeralClass) (style : NumeralStyle) : Read :=
  .ok (⟨.numericLiteral, String.ofList cs, pos, some ⟨cls, style⟩⟩, cs.length)

/-- The numeral after a radix marker `m` (`0x` or `0b`) at offset `pos`: the longest run of
digits that `ok` accepts, of which there must be one. A fault stops reading after the marker. -/
def readRadix (ok : Char → Bool) (m : List Char) (style : NumeralStyle) (rest : List Char)
    (pos : Nat) : Read :=
  match rest.takeWhile ok with
  | [] => .error (.missingRadixDigit (String.ofList m) pos, pos + m.length)
  | ds => numeral (m ++ ds) pos .integer style

/-- The exponent part of a decimal numeral whose mantissa `mant` has been read: `e` or `E`
stands at the head of `rest`, then an optional sign, then at least one digit. `real` tells
whether the mantissa had a fraction (it does not matter: an exponent makes any numeral real). A
fault stops reading after the sign. -/
def readExponent (mant : List Char) (mark : Char) (rest : List Char) (pos : Nat) : Read :=
  let (sign, afterSign) : List Char × List Char :=
    match rest with
    | s :: r => if s = '+' ∨ s = '-' then ([s], r) else ([], rest)
    | [] => ([], [])
  match afterSign.takeWhile isDecimalDigit with
  | [] => .error (.missingExponentDigits pos, pos + mant.length + 1 + sign.length)
  | ds => numeral (mant ++ mark :: sign ++ ds) pos .real .scientific

/-- A decimal numeral whose first character `c` is a digit: its digits, a fraction when a dot is
followed by a digit, and an exponent when `e` or `E` follows. -/
def readDecimal (c : Char) (cs : List Char) (pos : Nat) : Read :=
  let whole := c :: cs.takeWhile isDecimalDigit
  let afterWhole := cs.dropWhile isDecimalDigit
  let (mant, real, afterMant) : List Char × Bool × List Char :=
    match afterWhole with
    | '.' :: d :: r =>
      if isDecimalDigit d then
        (whole ++ '.' :: d :: r.takeWhile isDecimalDigit, true, r.dropWhile isDecimalDigit)
      else (whole, false, afterWhole)
    | _ => (whole, false, afterWhole)
  match afterMant with
  | e :: r =>
    if e = 'e' ∨ e = 'E' then readExponent mant e r pos
    else numeral mant pos (if real then .real else .integer) .decimal
  | [] => numeral mant pos (if real then .real else .integer) .decimal

/-- A numeral whose first character `c` is a digit, at offset `pos`: a radix numeral after `0x`
or `0b`, a fault for `0` followed by a digit, else a decimal numeral. -/
def readNumeral (c : Char) (cs : List Char) (pos : Nat) : Read :=
  if c = '0' then
    match cs with
    | 'x' :: r => readRadix isHexDigit ['0', 'x'] .hex r pos
    | 'b' :: r => readRadix isBinaryDigit ['0', 'b'] .binary r pos
    | d :: _ =>
      if isDecimalDigit d then .error (.leadingZero pos, pos) else readDecimal c cs pos
    | [] => readDecimal c cs pos
  else readDecimal c cs pos

/-- An operator or punctuation token starting with `c`: a two-character operator when `c` and
the next character spell one, else a one-character token, else a fault at `c`. -/
def readSymbol (c : Char) (cs : List Char) (pos : Nat) : Read :=
  let single : Read :=
    match singleKind c with
    | some k => .ok (⟨k, String.singleton c, pos, none⟩, 1)
    | none => .error (.unexpectedCharacter c pos, pos)
  match cs with
  | d :: _ =>
    match pairKind c d with
    | some k => .ok (⟨k, String.ofList [c, d], pos, none⟩, 2)
    | none => single
  | [] => single

/-- A string opened by the quote `q` at offset `pos`: its body runs to the next `q`. Without a
closing quote reading stops at the end of the input. -/
def readString (q : Char) (cs : List Char) (pos : Nat) : Read :=
  let body := cs.takeWhile (· ≠ q)
  if body.length < cs.length then
    .ok (⟨.stringLiteral, String.ofList body, pos, none⟩, body.length + 2)
  else .error (.unterminatedString pos, pos + 1 + cs.length)

/-- The token that starts with the character `c` at offset `pos`, followed by `cs`. -/
def readToken (c : Char) (cs : List Char) (pos : Nat) : Read :=
  if isQuote c then readString c cs pos
  else if isWordStart c then
    let w := c :: cs.takeWhile isWordChar
    .ok (⟨.identifier, String.ofList w, pos, none⟩, w.length)
  else if isDecimalDigit c then readNumeral c cs pos
  else readSymbol c cs pos

/-! ## The scanner -/

/-- A scanner over a source text: the characters not yet read, the offset of the first of them,
the length of the whole source, and whether the end of input has been answered. -/
structure Scanner where
  /-- The characters not yet read. -/
  rest : List Char
  /-- The offset of the first character not yet read. -/
  index : Nat
  /-- The number of characters of the source. -/
  size : Nat
  /-- Whether end of input has been answered. -/
  exhausted : Bool := false
deriving Repr

namespace Scanner

/-- A fresh scanner at the start of `src`. -/
def ofString (src : String) : Scanner :=
  { rest := src.toList, index := 0, size := src.length }

/-- The next token, or the fault; the scanner moves past what it read, and after a fault stands
where reading stopped. At the end of input the answer is an end-of-input token at the end, and
the scanner is marked exhausted. -/
def next (s : Scanner) : Except LexError Token × Scanner :=
  let skipped := s.rest.takeWhile isBlank
  let pos := s.index + skipped.length
  match s.rest.dropWhile isBlank with
  | [] => (.ok ⟨.eof, "", pos, none⟩, { s with rest := [], index := pos, exhausted := true })
  | c :: cs =>
    match readToken c cs pos with
    | .ok (t, n) => (.ok t, { s with rest := (c :: cs).drop n, index := pos + n })
    | .error (e, stop) => (.error e, { s with rest := (c :: cs).drop (stop - pos), index := stop })

/-- The one-line description of a scanner's state. -/
def describe (s : Scanner) : String :=
  "<Lexer index=" ++ toString s.index ++ " size=" ++ toString s.size ++ " exhausted=" ++
    (if s.exhausted then "True" else "False") ++ ">"

/-- Calls `next` until it answers end of input (kept) or a fault, at most `fuel` times; the
tokens come out in order. `acc` holds the tokens read so far, last first. -/
def runFrom : Nat → List Token → Scanner → List Token × Option LexError × Scanner
  | 0, acc, s => (acc.reverse, none, s)
  | fuel + 1, acc, s =>
    match s.next with
    | (.error e, s') => (acc.reverse, some e, s')
    | (.ok t, s') =>
      if t.kind = .eof then ((t :: acc).reverse, none, s') else runFrom fuel (t :: acc) s'

/-- The tokens of the input, up to and including the end of input, or up to the fault, which
comes second. Every call before the end reads at least one character, so one call more than the
characters left is always enough. -/
def run (s : Scanner) : List Token × Option LexError × Scanner :=
  runFrom (s.rest.length + 1) [] s

/-- Calls `next` `n` more times, stopping at a fault. -/
def nextMany : Nat → Scanner → List Token × Option LexError × Scanner
  | 0, s => ([], none, s)
  | n + 1, s =>
    match s.next with
    | (.error e, s') => ([], some e, s')
    | (.ok t, s') =>
      let (ts, e, s'') := nextMany n s'
      (t :: ts, e, s'')

end Scanner

/-- What the parser reads: the tokens before the end of input, and how the input ends, with the
end-of-input token or with the fault that stopped the scanner. -/
structure TokenStream where
  /-- The tokens before the end. -/
  tokens : List Token
  /-- The end-of-input token, or the fault. -/
  finish : Except LexError Token

/-- The token stream of a source text. -/
def TokenStream.ofString (src : String) : TokenStream :=
  let (ts, fault, s) := (Scanner.ofString src).run
  match fault with
  | some e => ⟨ts, .error e⟩
  | none =>
    match ts.getLast? with
    | some t => ⟨ts.dropLast, .ok t⟩
    | none => ⟨[], .ok ⟨.eof, "", s.index, none⟩⟩

end Scriptlet.Syntax
