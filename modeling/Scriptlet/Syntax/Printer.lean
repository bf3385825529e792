import Scriptlet.Syntax.Tree

/-!
# Writing a program back as text

`Expr.render` writes an expression with the fewest parentheses the parser needs to read it back:

* a name or numeral as its text, a string between the first of `'`, `"` and the backquote that
  does not occur in it;
* a signed operand with the sign in front, the operand in parentheses when it is a binary
  operation or an assignment;
* `left op right`, the left operand in parentheses when it is an assignment or a binary operation
  of lower precedence, the right operand when it is an assignment or a binary operation of lower
  or equal precedence, since operators group to the left;
* `target = value`, the target in parentheses when it is an assignment, since `=` groups to the
  right;
* `callee(a1, ..., ak)`, the callee in parentheses when it is a binary operation, a signed
  operand or an assignment;
* `(p1, ..., pk) => block`.

`Stmt.render` writes a block as its statements between braces, one a line; `let`, `if`, `else`
and `for` are written with their conditions in parentheses.
-/

namespace Scriptlet.Syntax

/-- The quote for a string body: the first of `'`, `"` and the backquote not in it. -/
def quoteFor (text : String) : Char :=
  match ['\'', '"', '`'].find? (fun q => !text.toList.contains q) with
  | some q => q
  | none => '\''

/-- `s` in parentheses when `b`. -/
def parenthesizeIf (b : Bool) (s : String) : String := if b then "(" ++ s ++ ")" else s

namespace Expr

/-- Whether the expression is an assignment. -/
def isAssign : Expr → Bool
  | .assign .. => true
  | _ => false

/-- The precedence of a binary operation; `none` for any other expression. -/
def binaryPrecedence? : Expr → Option Nat
  | .binary op .. => some op.precedence
  | _ => none

/-- Whether the expression is a binary operation or an assignment. -/
def isOperation (e : Expr) : Bool := e.isAssign || e.binaryPrecedence?.isSome

/-- Whether the expression is a signed operand. -/
def isUnary : Expr → Bool
  | .unary .. => true
  | _ => false

/-- Whether the expression, as left operand of an operator of precedence `p`, needs
parentheses. -/
def needsParensLeft (e : Expr) (p : Nat) : Bool :=
  e.isAssign || (e.binaryPrecedence?.map (fun q => decide (q < p))).getD false

/-- Whether the expression, as right operand of an operator of precedence `p`, needs
parentheses. -/
def needsParensRight (e : Expr) (p : Nat) : Bool :=
  e.isAssign || (e.binaryPrecedence?.map (fun q => decide (q ≤ p))).getD false

end Expr

mutual

/-- The text of an expression, with the fewest parentheses that read back. -/
def Expr.render : Expr → String
  | .ident n => n
  | .num text _ _ => text
  | .str text =>
    let q := String.singleton (quoteFor text)
    q ++ text ++ q
  | .unary s _ e => s.symbol ++ parenthesizeIf e.isOperation e.render
  | .binary op _ l r =>
    parenthesizeIf (l.needsParensLeft op.precedence) l.render ++ " " ++ op.symbol ++ " " ++
      parenthesizeIf (r.needsParensRight op.precedence) r.render
  | .assign t v => parenthesizeIf t.isAssign t.render ++ " = " ++ v.render
  | .call c args =>
    parenthesizeIf (c.isOperation || c.isUnary) c.render ++ "(" ++ Expr.renderList args ++ ")"
  | .func ps body => "(" ++ ", ".intercalate ps ++ ") => " ++ Stmt.renderBlock body

/-- The texts of expressions separated by `, `. -/
def Expr.renderList : List Expr → String
  | [] => ""
  | [e] => e.render
  | e :: rest => e.render ++ ", " ++ Expr.renderList rest

/-- The text of a statement. -/
def Stmt.render : Stmt → String
  | .expr e => e.render
  | .block body => Stmt.renderBlock body
  | .letDecl n init => "let " ++ n ++ Stmt.renderInit init
  | .ite c th el => "if (" ++ c.render ++ ") " ++ th.render ++ Stmt.renderElse el
  | .loop c b => "for (" ++ c.render ++ ") " ++ b.render

/-- ` = value` for a declaration with an initializer, else nothing. -/
def Stmt.renderInit : Option Expr → String
  | some e => " = " ++ e.render
  | none => ""

/-- ` else branch` for a conditional with an else branch, else nothing. -/
def Stmt.renderElse : Option Stmt → String
  | some s => " else " ++ s.render
  | none => ""

/-- Statements between braces, each on a line of its own. -/
def Stmt.renderBlock (body : List Stmt) : String := "\x7b" ++ Stmt.renderLines body ++ "\n\x7d"

/-- Statements, each after a line feed. -/
def Stmt.renderLines : List Stmt → String
  | [] => ""
  | s :: rest => "\n" ++ s.render ++ Stmt.renderLines rest

end

/-- The text of a program: its statements separated by line feeds. -/
def Program.render : Program → String
  | [] => ""
  | s :: rest => s.render ++ Stmt.renderLines rest

end Scriptlet.Syntax
