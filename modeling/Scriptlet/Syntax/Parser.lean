import Scriptlet.Syntax.Scanner
import Scriptlet.Syntax.Tree

/-!
# The parser

`Program.parse` reads a source text into a program by precedence climbing over its tokens.

* A program is a list of statements separated by runs of line feeds and `;`. A block is the same
  between braces. Separators may also open and close a block.
* A statement is a block, `let name [= expression]`, `if (condition) branch [else branch]`,
  `for (condition) branch`, or an expression. A branch is a block or a single statement. `else`
  binds to the nearest `if` whose branch ends right before it.
* An expression is a primary followed by binary operators: an operator continues the expression
  while its precedence exceeds the level being read; the right operand is read at the operator's
  own precedence, so operators group to the left, except `=`, whose right side is read at level
  0, so it groups to the right.
* A primary is a name, a numeral or a string, a parenthesised expression, or a function
  `(a, b) => { ... }`, each followed by any number of argument lists; or a prefix sign with an
  operand read at level 30.
* Inside parentheses, line feeds are skipped after `(`, around each item and after `,`.

The first error ends the reading. A fault of the scanner surfaces when the parser moves onto the
token that could not be read, so an earlier syntax error wins over it.

The parser counts how deeply its steps are nested and refuses input whose reading would go
beyond `nestingLimit` levels (`ParseError.tooDeep`), a parameter of the whole reading: the host's
recursion limit, `NestingLimit.host` unless set otherwise. Every rule runs one level below the rule that
started it; while it runs, some of its own steps reach a few levels further for a moment: testing
a token's kind one or two, building a node three, reporting a syntax error four, and reading the
next token five to seven, by the kind of that token (`Token.readDepth`). The first step, in the
order of reading, that would pass the limit ends the parse, so a syntax error met before it wins.

The parser also carries fuel, computed from the number of tokens, which is never used up: every
loop reads a token per round and every rule reads one within a bounded number of steps.

## Main definitions

* `Expectation`, `ParseError`: what the parser wanted, and why it stopped.
* `NestingLimit`: how deeply reading and evaluation may nest.
* `Cursor`: the current token and the tokens after it.
* `Program.parse`: a source text to a program.
-/

namespace Scriptlet

/-- The host's recursion limit: how many levels of nested steps may be in progress at once. Reading
and evaluation share it, as they share the host's stack; the host sets it before it runs a
program, and the error raised at the limit names it. -/
class NestingLimit where
  /-- The deepest level a step may run at. -/
  nestingLimit : Nat

export NestingLimit (nestingLimit)

/-- The limit the command-line host sets unless its environment asks for another. -/
instance NestingLimit.host : NestingLimit := ⟨10000⟩

end Scriptlet

namespace Scriptlet.Syntax

/-- What the parser expected where it stopped. -/
inductive Expectation where
  /-- A token of this kind. -/
  | kind (k : TokenKind)
  /-- A line feed or `;` after a statement. -/
  | separator
  /-- The start of an expression. -/
  | expression
  /-- A name that is not a reserved word, after `let`. -/
  | variableName
  /-- A statement, where `return` stands. -/
  | supportedStatement
  /-- A statement, where `else` stands without an `if` before it. -/
  | elseWithoutIf
  /-- Only names in a parameter list, before `=>`. -/
  | parameterNames
  /-- An expression after `,` in a parenthesised list. -/
  | expressionAfterComma
  /-- An infix operator, where a token binds tighter than the expression around it. -/
  | operator
deriving DecidableEq, Repr

/-- How an expectation is worded in a message. -/
def Expectation.describe : Expectation → String
  | .kind k => k.name
  | .separator => "newline or ';' between statements"
  | .expression => "an expression"
  | .variableName => "a variable name"
  | .supportedStatement => "a statement ('return' is not supported)"
  | .elseWithoutIf => "a statement ('else' without 'if')"
  | .parameterNames => "parameter names before '=>'"
  | .expressionAfterComma => "an expression after ','"
  | .operator => "an operator"

/-- Why a source text could not be parsed. -/
inductive ParseError where
  /-- The scanner could not read the next token. -/
  | lexical (e : LexError)
  /-- The token `found` stands where the parser wanted something else. -/
  | unexpected (found : Token) (wanted : Expectation)
  /-- The rules nest beyond `nestingLimit`. -/
  | tooDeep
  /-- The fuel ran out; no source text does this. -/
  | exhausted
deriving Repr

/-- The message of a lexical or syntax error: a syntax error reads
`expected E but got K 'TEXT' (at offset P)`. -/
def ParseError.message : ParseError → String
  | .lexical e => e.message
  | .unexpected t w =>
    "expected " ++ w.describe ++ " but got " ++ t.kind.name ++ " " ++ Text.literal t.text ++
      " (at offset " ++ toString t.position ++ ")"
  | .tooDeep => "maximum nesting depth exceeded"
  | .exhausted => "the parser ran out of steps"

/-- The words that cannot name a variable. -/
def reservedWords : List String := ["let", "if", "else", "for", "return"]

/-- Whether a word is reserved. -/
def isReserved (w : String) : Bool := reservedWords.contains w

variable [NestingLimit]

/-- The levels below a moving rule that reading token `t` reaches: five for a symbol, a line feed
or the end of input, six for a name, a string or a decimal numeral, seven for a hexadecimal or
binary numeral. -/
def Token.readDepth (t : Token) : Nat :=
  match t.kind, t.form with
  | .identifier, _ | .stringLiteral, _ => 6
  | .numericLiteral, some ⟨_, .hex⟩ | .numericLiteral, some ⟨_, .binary⟩ => 7
  | .numericLiteral, _ => 6
  | _, _ => 5

/-- The levels below a moving rule that finding fault `e` in the text reaches. -/
def LexError.readDepth : LexError → Nat
  | .missingRadixDigit .. => 6
  | _ => 5

/-- The separators between statements. -/
def separators : List TokenKind := [.newLine, .semicolon]

/-- The level at which a program read by itself is read. -/
def readLevel : Nat := 4

/-- The parser's position: the current token, the tokens after it, and how the input ends. -/
structure Cursor where
  /-- The token under the cursor. -/
  current : Token
  /-- The tokens after the current one, before the end of input. -/
  ahead : List Token
  /-- The end-of-input token, or the fault that stops the scanner. -/
  finish : Except LexError Token

/-- Reading with a cursor; a failure ends the whole parse. -/
abbrev Parse := StateT Cursor (Except ParseError)

namespace Parse

/-- The token under the cursor. -/
def current : Parse Token := do return (← get).current

/-- Fails if level `n` is beyond `nestingLimit`. -/
def reach (n : Nat) : Parse Unit :=
  if nestingLimit < n then throw .tooDeep else pure ()

/-- Fails with a syntax error at token `t`, raised by the rule at level `d`. -/
def failAt {α : Type} (d : Nat) (t : Token) (w : Expectation) : Parse α := do
  reach (d + 4)
  throw (.unexpected t w)

/-- Moves to the next token, from a rule at level `a`. At the end of input the cursor stays on the
end-of-input token; moving onto a token that could not be read fails with the scanner's fault. -/
def advance (a : Nat) : Parse Unit := do
  let c ← get
  match c.ahead with
  | t :: rest =>
    reach (a + t.readDepth)
    set { c with current := t, ahead := rest }
  | [] =>
    match c.finish with
    | .ok t =>
      reach (a + t.readDepth)
      set { c with current := t }
    | .error e =>
      reach (a + e.readDepth)
      throw (.lexical e)

/-- Takes the current token, which must be of kind `k`, in a rule at level `d`. -/
def eat (d : Nat) (k : TokenKind) : Parse Token := do
  reach d
  let t ← current
  if t.kind = k then
    advance (d + 1)
    return t
  else failAt d t (.kind k)

/-- Takes the current token, a keyword, in a rule at level `d`; recognising it takes two levels. -/
def keyword (d : Nat) : Parse Unit := do
  reach (d + 2)
  advance (d + 1)

/-- Moves past tokens whose kinds are in `ks`, in a rule at level `d`; testing a token takes a
level unless it is of the first kind of `ks`. `ks` never holds the end of input, so `fuel`
rounds, one more than the tokens ahead, are enough. -/
def skipFor (ks : List TokenKind) (d : Nat) : Nat → Parse Unit
  | 0 => pure ()
  | fuel + 1 => do
    let k := (← current).kind
    if ks.head? ≠ some k then reach (d + 1)
    if ks.contains k then
      advance (d + 1)
      skipFor ks d fuel
    else pure ()

/-- Moves past tokens whose kinds are in `ks`, in a rule at level `d`. -/
def skip (d : Nat) (ks : List TokenKind) : Parse Unit := do
  reach d
  skipFor ks d ((← get).ahead.length + 2)

/-- The parameter names of a parenthesised list, if every item is a name. -/
def paramNames : List Expr → Option (List String)
  | [] => some []
  | .ident n :: rest => (paramNames rest).map (n :: ·)
  | _ :: _ => none

mutual

/-- A block at level `d`: statements between braces, or, unbraced, up to the end of input. -/
def block : Nat → Nat → Bool → Parse (List Stmt)
  | 0, _, _ => throw .exhausted
  | fuel + 1, d, braced => do
    reach (d + 1)
    if braced then
      let _ ← eat (d + 1) .openCurly
    skip (d + 1) separators
    let body ← statements fuel d (if braced then .closeCurly else .eof) []
    if braced then
      let _ ← eat (d + 1) .closeCurly
    reach (d + 3)
    return body

/-- The statements of the block at level `d` up to the token of kind `stop` (not taken), with
separators between them; `acc` holds those read so far, last first. -/
def statements : Nat → Nat → TokenKind → List Stmt → Parse (List Stmt)
  | 0, _, _, _ => throw .exhausted
  | fuel + 1, d, stop, acc => do
    if (← current).kind = stop then return acc.reverse
    let s ← statement fuel (d + 1)
    let t ← current
    if t.kind = stop then return (s :: acc).reverse
    if t.kind ≠ .newLine then reach (d + 1)
    if t.kind = .newLine ∨ t.kind = .semicolon then
      skip (d + 1) separators
      statements fuel d stop (s :: acc)
    else failAt d t .separator

/-- A statement at level `d`: a block, a declaration, a conditional, a loop or an expression. The
choice is made one level down. -/
def statement : Nat → Nat → Parse Stmt
  | 0, _ => throw .exhausted
  | fuel + 1, d => do
    reach (d + 2)
    let t ← current
    if t.kind = .openCurly then return .block (← block fuel (d + 2) true)
    else if t.kind = .identifier then
      if t.text = "let" then letDecl fuel (d + 2)
      else if t.text = "if" then ifStmt fuel (d + 2)
      else if t.text = "for" then forStmt fuel (d + 2)
      else if t.text = "return" then failAt (d + 1) t .supportedStatement
      else if t.text = "else" then failAt (d + 1) t .elseWithoutIf
      else return .expr (← expression fuel (d + 1) 0)
    else return .expr (← expression fuel (d + 1) 0)

/-- A declaration `let name [= expression]` at level `d`, the cursor on `let`. -/
def letDecl : Nat → Nat → Parse Stmt
  | 0, _ => throw .exhausted
  | fuel + 1, d => do
    reach d
    keyword (d + 1)
    let name ← eat (d + 1) .identifier
    if isReserved name.text then failAt d name .variableName
    reach (d + 1)
    let init ← if (← current).kind = .equal then do
        advance (d + 1)
        some <$> expression fuel (d + 1) assignmentRhsPrecedence
      else pure none
    reach (d + 3)
    return .letDecl name.text init

/-- A condition `( expression )` at level `d`, line feeds allowed inside. -/
def condition : Nat → Nat → Parse Expr
  | 0, _ => throw .exhausted
  | fuel + 1, d => do
    reach d
    let _ ← eat (d + 1) .openParen
    skip (d + 1) [.newLine]
    let c ← expression fuel (d + 1) 0
    skip (d + 1) [.newLine]
    let _ ← eat (d + 1) .closeParen
    return c

/-- A branch at level `d`: a block, or a single statement. -/
def branch : Nat → Nat → Parse Stmt
  | 0, _ => throw .exhausted
  | fuel + 1, d => do
    reach (d + 1)
    if (← current).kind = .openCurly then return .block (← block fuel (d + 1) true)
    else statement fuel (d + 1)

/-- A conditional at level `d`, the cursor on `if`. -/
def ifStmt : Nat → Nat → Parse Stmt
  | 0, _ => throw .exhausted
  | fuel + 1, d => do
    reach d
    keyword (d + 1)
    let c ← condition fuel (d + 1)
    let th ← branch fuel (d + 1)
    reach (d + 2)
    let el ← if (← current).isWord "else" then do
        advance (d + 1)
        some <$> branch fuel (d + 1)
      else pure none
    reach (d + 3)
    return .ite c th el

/-- A loop at level `d`, the cursor on `for`. -/
def forStmt : Nat → Nat → Parse Stmt
  | 0, _ => throw .exhausted
  | fuel + 1, d => do
    reach d
    keyword (d + 1)
    let c ← condition fuel (d + 1)
    let b ← branch fuel (d + 1)
    reach (d + 3)
    return .loop c b

/-- An expression at level `d` whose operators all bind tighter than `minPrec`. -/
def expression : Nat → Nat → Nat → Parse Expr
  | 0, _, _ => throw .exhausted
  | fuel + 1, d, minPrec => do
    reach d
    let left ← primary fuel (d + 1)
    operators fuel d minPrec left

/-- Extends `left` by the operators that bind tighter than `minPrec`, for the expression at level
`d`; each operator is read by a rule one level down. -/
def operators : Nat → Nat → Nat → Expr → Parse Expr
  | 0, _, _, _ => throw .exhausted
  | fuel + 1, d, minPrec, left => do
    let t ← current
    if minPrec < t.kind.precedence then
      reach (d + 2)
      if t.kind = .equal then
        advance (d + 2)
        let value ← expression fuel (d + 2) assignmentRhsPrecedence
        reach (d + 4)
        operators fuel d minPrec (.assign left value)
      else
        match BinOp.ofKind? t.kind with
        | some op =>
          reach (d + 3)
          advance (d + 2)
          let rhs ← expression fuel (d + 2) op.precedence
          reach (d + 4)
          operators fuel d minPrec (.binary op t.position left rhs)
        | none =>
          -- no token that binds is neither `=` nor an infix operator
          reach (d + 3)
          failAt (d + 1) t .operator
    else return left

/-- A primary at level `d`: a name, literal, parenthesised expression or function with its
argument lists, or a signed operand. -/
def primary : Nat → Nat → Parse Expr
  | 0, _ => throw .exhausted
  | fuel + 1, d => do
    reach (d + 1)
    let t ← current
    match t.kind, t.form with
    | .identifier, _ =>
      if isReserved t.text then failAt d t .expression
      else
        advance (d + 1)
        reach (d + 3)
        calls fuel (d + 1) (.ident t.text)
    | .numericLiteral, some f =>
      advance (d + 1)
      reach (d + 3)
      calls fuel (d + 1) (.num t.text f t.position)
    | .stringLiteral, _ =>
      advance (d + 1)
      reach (d + 3)
      calls fuel (d + 1) (.str t.text)
    | .openParen, _ =>
      let e ← parenthesized fuel (d + 1)
      calls fuel (d + 1) e
    | k, _ =>
      reach (d + 2)
      match Sign.ofKind? k with
      | some s =>
        advance (d + 1)
        let x ← expression fuel (d + 1) prefixPrecedence
        reach (d + 3)
        return .unary s t.position x
      | none => failAt d t .expression

/-- Applies `callee` to each argument list that follows, at level `d`. -/
def calls : Nat → Nat → Expr → Parse Expr
  | 0, _, _ => throw .exhausted
  | fuel + 1, d, callee => do
    reach (d + 1)
    if (← current).kind = .openParen then
      reach (d + 1)
      let args ← items fuel (d + 2)
      reach (d + 3)
      calls fuel d (.call callee args)
    else return callee

/-- A parenthesised expression, or a function when `=>` follows the list, at level `d`. -/
def parenthesized : Nat → Nat → Parse Expr
  | 0, _ => throw .exhausted
  | fuel + 1, d => do
    reach d
    let es ← items fuel (d + 1)
    reach (d + 1)
    let t ← current
    if t.kind = .equalGreaterThan then
      reach (d + 1)
      let arrow ← eat (d + 2) .equalGreaterThan
      match paramNames es with
      | some ps =>
        let body ← block fuel (d + 2) true
        reach (d + 4)
        return .func ps body
      | none => failAt (d + 1) arrow .parameterNames
    else
      match es with
      | [e] => return e
      | _ => failAt d t (.kind .equalGreaterThan)

/-- A parenthesised, comma-separated list of expressions at level `d`. -/
def items : Nat → Nat → Parse (List Expr)
  | 0, _ => throw .exhausted
  | fuel + 1, d => do
    reach d
    let _ ← eat (d + 1) .openParen
    skip (d + 1) [.newLine]
    itemsFrom fuel d []

/-- The items of the list at level `d` from the cursor on, and its closing parenthesis; `acc`
holds the items read so far, last first. -/
def itemsFrom : Nat → Nat → List Expr → Parse (List Expr)
  | 0, _, _ => throw .exhausted
  | fuel + 1, d, acc => do
    reach (d + 1)
    if (← current).kind = .closeParen then
      let _ ← eat (d + 1) .closeParen
      return acc.reverse
    let e ← expression fuel (d + 1) 0
    skip (d + 1) [.newLine]
    reach (d + 1)
    if (← current).kind = .comma then
      advance (d + 1)
      skip (d + 1) [.newLine]
      reach (d + 1)
      let t ← current
      if t.kind = .closeParen then failAt d t .expressionAfterComma
      itemsFrom fuel d (e :: acc)
    else
      let _ ← eat (d + 1) .closeParen
      return (e :: acc).reverse

end

/-- A whole program read at level `q`: the first token is read three levels down, and the
statements up to the end of input form the block one level down. -/
def topLevel (fuel q : Nat) : Parse Program := do
  reach (q + 2 + (← current).readDepth)
  let p ← block fuel (q + 1) false
  reach (q + 2)
  return p

end Parse

/-- The cursor on the first token of a stream; fails if that token could not be read. -/
def Cursor.start (s : TokenStream) : Except ParseError Cursor :=
  match s.tokens with
  | t :: rest => .ok ⟨t, rest, s.finish⟩
  | [] =>
    match s.finish with
    | .ok t => .ok ⟨t, [], s.finish⟩
    | .error e => .error (.lexical e)

/-- Fuel enough to parse a stream of `n` tokens. -/
def parseFuel (n : Nat) : Nat := 16 * (n + 1)

/-- The program a token stream spells, read at level `q`. -/
def Program.ofTokens (s : TokenStream) (q : Nat) : Except ParseError Program := do
  let c ← Cursor.start s
  let (p, _) ← (Parse.topLevel (parseFuel s.tokens.length) q).run c
  return p

/-- The program a source text spells, read at level `q`. -/
def Program.parseAt (q : Nat) (src : String) : Except ParseError Program :=
  Program.ofTokens (TokenStream.ofString src) q

/-- The program a source text spells, read by itself. -/
def Program.parse (src : String) : Except ParseError Program :=
  Program.parseAt readLevel src

end Scriptlet.Syntax
