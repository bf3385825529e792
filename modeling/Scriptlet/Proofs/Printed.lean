import Scriptlet.Syntax.Printer
import Scriptlet.Proofs.Lexemes

/-!
# Printed trees

What the printer's text of a tree is made of, and which trees it can write so that they read
back.

* `Expr.tokens` lists the tokens of the printed text in order, each at offset 0: the printer's
  text is blanks and these tokens, and the parser sees nothing else. Parentheses stand exactly
  where `Expr.render` writes them.
* `Expr.erase` forgets the offsets a tree keeps for its operators and numerals, which the printer
  does not write.
* `Expr.height` measures how deeply a tree nests, which bounds how deeply the parser nests when it
  reads the tree back.
* `Expr.Printable` holds of trees whose text reads back as themselves: names are identifiers that
  are not reserved, numerals are spelled as numerals of their form, every string has a quote to
  enclose it, and no `else` follows a branch that ends in an `if` without one, where it would be
  taken by that inner `if`.
-/

set_option autoImplicit false

namespace Scriptlet.Syntax

/-- A token of kind `k` and text `text` at offset 0, with no numeral form. -/
def Token.plain (k : TokenKind) (text : String) : Token := ⟨k, text, 0, none⟩

/-- A token with its offset forgotten. -/
def Token.erase (t : Token) : Token := { t with position := 0 }

theorem Token.kind_eq_of_erase {t u : Token} (h : t.erase = u) : t.kind = u.kind := by
  rw [← h]; rfl

theorem Token.text_eq_of_erase {t u : Token} (h : t.erase = u) : t.text = u.text := by
  rw [← h]; rfl

/-- `ts` between parentheses when `b`. -/
def parenTokensIf (b : Bool) (ts : List Token) : List Token :=
  if b then Token.plain .openParen "(" :: ts ++ [Token.plain .closeParen ")"] else ts

/-- The tokens of parameter names separated by commas. -/
def paramTokens : List String → List Token
  | [] => []
  | [p] => [Token.plain .identifier p]
  | p :: rest => Token.plain .identifier p :: Token.plain .comma "," :: paramTokens rest

mutual

/-- The tokens of the text of an expression, in order. -/
def Expr.tokens : Expr → List Token
  | .ident n => [Token.plain .identifier n]
  | .num text f _ => [Expr.numeralToken text f 0]
  | .str text => [Token.plain .stringLiteral text]
  | .unary s _ e => s.token 0 :: parenTokensIf e.isOperation e.tokens
  | .binary op _ l r =>
    parenTokensIf (l.needsParensLeft op.precedence) l.tokens ++
      op.token 0 :: parenTokensIf (r.needsParensRight op.precedence) r.tokens
  | .assign t v => parenTokensIf t.isAssign t.tokens ++ Token.plain .equal "=" :: v.tokens
  | .call c args =>
    parenTokensIf (c.isOperation || c.isUnary) c.tokens ++
      Token.plain .openParen "(" :: Expr.listTokens args ++ [Token.plain .closeParen ")"]
  | .func ps body =>
    Token.plain .openParen "(" :: paramTokens ps ++
      Token.plain .closeParen ")" :: Token.plain .equalGreaterThan "=>" :: Stmt.blockTokens body

/-- The tokens of expressions separated by commas. -/
def Expr.listTokens : List Expr → List Token
  | [] => []
  | [e] => e.tokens
  | e :: rest => e.tokens ++ Token.plain .comma "," :: Expr.listTokens rest

/-- The tokens of the text of a statement. -/
def Stmt.tokens : Stmt → List Token
  | .expr e => e.tokens
  | .block body => Stmt.blockTokens body
  | .letDecl n none => [Token.plain .identifier "let", Token.plain .identifier n]
  | .letDecl n (some e) =>
    Token.plain .identifier "let" :: Token.plain .identifier n :: Token.plain .equal "=" :: e.tokens
  | .ite c th none =>
    Token.plain .identifier "if" :: Token.plain .openParen "(" :: c.tokens ++
      Token.plain .closeParen ")" :: th.tokens
  | .ite c th (some el) =>
    Token.plain .identifier "if" :: Token.plain .openParen "(" :: c.tokens ++
      Token.plain .closeParen ")" :: th.tokens ++ Token.plain .identifier "else" :: el.tokens
  | .loop c b =>
    Token.plain .identifier "for" :: Token.plain .openParen "(" :: c.tokens ++
      Token.plain .closeParen ")" :: b.tokens

/-- The tokens of a block: its statements between braces, each after a line feed. -/
def Stmt.blockTokens (body : List Stmt) : List Token :=
  Token.plain .openCurly "\x7b" :: Stmt.lineTokens body ++
    [Token.plain .newLine "\n", Token.plain .closeCurly "\x7d"]

/-- The tokens of statements, each after a line feed. -/
def Stmt.lineTokens : List Stmt → List Token
  | [] => []
  | s :: rest => Token.plain .newLine "\n" :: s.tokens ++ Stmt.lineTokens rest

end

/-- The tokens of the text of a program. -/
def Program.tokens : Program → List Token
  | [] => []
  | s :: rest => s.tokens ++ Stmt.lineTokens rest

mutual

/-- An expression with the offsets of its operators and numerals forgotten. -/
def Expr.erase : Expr → Expr
  | .ident n => .ident n
  | .num text f _ => .num text f 0
  | .str text => .str text
  | .unary s _ e => .unary s 0 e.erase
  | .binary op _ l r => .binary op 0 l.erase r.erase
  | .assign t v => .assign t.erase v.erase
  | .call c args => .call c.erase (Expr.eraseList args)
  | .func ps body => .func ps (Stmt.eraseList body)

/-- Expressions with their offsets forgotten. -/
def Expr.eraseList : List Expr → List Expr
  | [] => []
  | e :: rest => e.erase :: Expr.eraseList rest

/-- A statement with the offsets of its operators and numerals forgotten. -/
def Stmt.erase : Stmt → Stmt
  | .expr e => .expr e.erase
  | .block body => .block (Stmt.eraseList body)
  | .letDecl n none => .letDecl n none
  | .letDecl n (some e) => .letDecl n (some e.erase)
  | .ite c th none => .ite c.erase th.erase none
  | .ite c th (some el) => .ite c.erase th.erase (some el.erase)
  | .loop c b => .loop c.erase b.erase

/-- Statements with their offsets forgotten. -/
def Stmt.eraseList : List Stmt → List Stmt
  | [] => []
  | s :: rest => s.erase :: Stmt.eraseList rest

end

/-- A program with the offsets of its operators and numerals forgotten. -/
def Program.erase (p : Program) : Program := Stmt.eraseList p

mutual

/-- How deeply an expression nests: 0 for a name or literal. -/
def Expr.height : Expr → Nat
  | .ident _ | .num .. | .str _ => 0
  | .unary _ _ e => e.height + 1
  | .binary _ _ l r => max l.height r.height + 1
  | .assign t v => max t.height v.height + 1
  | .call c args => max c.height (Expr.listHeight args) + 1
  | .func _ body => Stmt.listHeight body + 1

/-- The greatest height of a list of expressions. -/
def Expr.listHeight : List Expr → Nat
  | [] => 0
  | e :: rest => max e.height (Expr.listHeight rest)

/-- How deeply a statement nests. -/
def Stmt.height : Stmt → Nat
  | .expr e => e.height + 1
  | .block body => Stmt.listHeight body + 1
  | .letDecl _ none => 0
  | .letDecl _ (some e) => e.height + 1
  | .ite c th none => max c.height th.height + 1
  | .ite c th (some el) => max c.height (max th.height el.height) + 1
  | .loop c b => max c.height b.height + 1

/-- The greatest height of a list of statements. -/
def Stmt.listHeight : List Stmt → Nat
  | [] => 0
  | s :: rest => max s.height (Stmt.listHeight rest)

end

/-- How deeply a program nests: the greatest height of its statements. -/
def Program.height (p : Program) : Nat := Stmt.listHeight p

/-- Whether a statement ends in an `if` without `else`, which would take an `else` written
after the statement. -/
def Stmt.endsOpen : Stmt → Bool
  | .ite _ _ none => true
  | .ite _ _ (some el) => el.endsOpen
  | .loop _ b => b.endsOpen
  | _ => false

mutual

/-- Whether the text of an expression reads back as the expression. -/
def Expr.Printable : Expr → Prop
  | .ident n => isName n = true
  | .num text f _ => Numeral text.toList f
  | .str text => quotable text = true
  | .unary _ _ e => e.Printable
  | .binary _ _ l r => l.Printable ∧ r.Printable
  | .assign t v => t.Printable ∧ v.Printable
  | .call c args => c.Printable ∧ Expr.PrintableList args
  | .func ps body => (∀ p ∈ ps, isName p = true) ∧ Stmt.PrintableList body

/-- Whether each of a list of expressions is printable. -/
def Expr.PrintableList : List Expr → Prop
  | [] => True
  | e :: rest => e.Printable ∧ Expr.PrintableList rest

/-- Whether the text of a statement reads back as the statement. -/
def Stmt.Printable : Stmt → Prop
  | .expr e => e.Printable
  | .block body => Stmt.PrintableList body
  | .letDecl n none => isName n = true
  | .letDecl n (some e) => isName n = true ∧ e.Printable
  | .ite c th none => c.Printable ∧ th.Printable
  | .ite c th (some el) => c.Printable ∧ th.Printable ∧ th.endsOpen = false ∧ el.Printable
  | .loop c b => c.Printable ∧ b.Printable

/-- Whether each of a list of statements is printable. -/
def Stmt.PrintableList : List Stmt → Prop
  | [] => True
  | s :: rest => s.Printable ∧ Stmt.PrintableList rest

end

/-- Whether the text of a program reads back as the program. -/
def Program.Printable (p : Program) : Prop := Stmt.PrintableList p

end Scriptlet.Syntax
