import Scriptlet.Syntax.Token

/-!
# Syntax trees

A program is a list of statements. Statements and expressions are two types, so the tree itself
says where a declaration, a conditional, a loop or a block may stand: as a statement of a block,
as a branch or loop body, or in a function body, and never inside an expression.

An operator keeps the offset of its token, and a numeral keeps its text, form and offset, so the
tokens of the tree can be given back exactly (`BinOp.token`, `Sign.token`, `Expr.numeralToken`).
The operator kinds themselves are fixed by the types: there are thirteen binary operators and two
prefix signs.

## Main definitions

* `BinOp`, `Sign`: the binary operators and the prefix signs, with their tokens.
* `Expr`, `Stmt`: expressions and statements.
* `Expr.nodeName`, `Stmt.nodeName`: the name of the kind of a node, as messages print it.
-/

namespace Scriptlet.Syntax

/-- The binary operators. Only the arithmetic and comparison operators have a meaning; the other
five parse but are refused when evaluated. -/
inductive BinOp where
  | add
  | sub
  | mul
  | div
  | lt
  | le
  | gt
  | ge
  | eq
  | and
  | or
  | bitAnd
  | bitOr
deriving DecidableEq, Repr, Inhabited

namespace BinOp

/-- The token kind of the operator. -/
def kind : BinOp → TokenKind
  | add => .plus
  | sub => .minus
  | mul => .asterisk
  | div => .slash
  | lt => .lessThan
  | le => .lessThanEqual
  | gt => .greaterThan
  | ge => .greaterThanEqual
  | eq => .equalEqual
  | and => .ampersandAmpersand
  | or => .barBar
  | bitAnd => .ampersand
  | bitOr => .bar

/-- How the operator is spelled. -/
def symbol : BinOp → String
  | add => "+"
  | sub => "-"
  | mul => "*"
  | div => "/"
  | lt => "<"
  | le => "<="
  | gt => ">"
  | ge => ">="
  | eq => "=="
  | and => "&&"
  | or => "||"
  | bitAnd => "&"
  | bitOr => "|"

/-- The binary operator a token kind stands for, if any. -/
def ofKind? : TokenKind → Option BinOp
  | .plus => some add
  | .minus => some sub
  | .asterisk => some mul
  | .slash => some div
  | .lessThan => some lt
  | .lessThanEqual => some le
  | .greaterThan => some gt
  | .greaterThanEqual => some ge
  | .equalEqual => some eq
  | .ampersandAmpersand => some and
  | .barBar => some or
  | .ampersand => some bitAnd
  | .bar => some bitOr
  | _ => none

/-- The binding precedence of the operator, that of its token kind. -/
def precedence (op : BinOp) : Nat := op.kind.precedence

/-- The token of the operator at offset `pos`. -/
def token (op : BinOp) (pos : Nat) : Token := ⟨op.kind, op.symbol, pos, none⟩

end BinOp

/-- The prefix signs. -/
inductive Sign where
  | neg
  | pos
deriving DecidableEq, Repr, Inhabited

namespace Sign

/-- The token kind of the sign. -/
def kind : Sign → TokenKind
  | neg => .minus
  | pos => .plus

/-- How the sign is spelled. -/
def symbol : Sign → String
  | neg => "-"
  | pos => "+"

/-- The sign a token kind stands for, if any. -/
def ofKind? : TokenKind → Option Sign
  | .minus => some neg
  | .plus => some pos
  | _ => none

/-- The token of the sign at offset `p`. -/
def token (s : Sign) (p : Nat) : Token := ⟨s.kind, s.symbol, p, none⟩

end Sign

mutual

/-- Expressions. -/
inductive Expr where
  /-- A name. -/
  | ident (name : String)
  /-- A numeral: its text, its form and the offset of its token. -/
  | num (text : String) (form : NumeralForm) (pos : Nat)
  /-- A string literal, by its body. -/
  | str (text : String)
  /-- A binary operation; `pos` is the offset of the operator. -/
  | binary (op : BinOp) (pos : Nat) (lhs rhs : Expr)
  /-- A prefix sign applied to an operand; `pos` is the offset of the sign. -/
  | unary (sign : Sign) (pos : Nat) (operand : Expr)
  /-- An assignment `target = value`. Any expression parses as a target; only a name can be
  assigned to, which evaluation checks. -/
  | assign (target value : Expr)
  /-- A call of `callee` on the arguments. -/
  | call (callee : Expr) (args : List Expr)
  /-- A function with its parameter names and the statements of its body. -/
  | func (params : List String) (body : List Stmt)
deriving Repr, Inhabited

/-- Statements. -/
inductive Stmt where
  /-- An expression standing as a statement. -/
  | expr (e : Expr)
  /-- A block `{ ... }` with its statements. -/
  | block (body : List Stmt)
  /-- A declaration `let name` or `let name = init`. -/
  | letDecl (name : String) (init : Option Expr)
  /-- A conditional with an optional else branch. -/
  | ite (cond : Expr) (thenBranch : Stmt) (elseBranch : Option Stmt)
  /-- A loop that runs its body while the condition holds. -/
  | loop (cond : Expr) (body : Stmt)
deriving Repr, Inhabited

end

/-- A program: the statements of its top level. -/
abbrev Program := List Stmt

/-- The token of a numeral with text `text`, form `form` at offset `pos`. -/
def Expr.numeralToken (text : String) (form : NumeralForm) (pos : Nat) : Token :=
  ⟨.numericLiteral, text, pos, some form⟩

/-- The name of the kind of an expression node. -/
def Expr.nodeName : Expr → String
  | .ident .. => "Identifier"
  | .num .. => "NumericLiteral"
  | .str .. => "StringLiteral"
  | .binary .. => "BinaryExpression"
  | .unary .. => "UnaryExpression"
  | .assign .. => "AssignmentExpression"
  | .call .. => "CallExpression"
  | .func .. => "FunctionExpression"

/-- The name of the kind of a statement node; an expression statement is named by its
expression. -/
def Stmt.nodeName : Stmt → String
  | .expr e => e.nodeName
  | .block .. => "BlockStatement"
  | .letDecl .. => "VariableDeclaration"
  | .ite .. => "IfStatement"
  | .loop .. => "ForStatement"

end Scriptlet.Syntax
