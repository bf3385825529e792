import Scriptlet.Proofs.ParseEnds
import Scriptlet.Proofs.Cursors

/-!
# The trees the parser builds

Every program the parser reads from a text is well formed (`Program.parseAt_wellFormed`). Its
statements and expressions are two types, so a declaration, a conditional, a loop or a block
stands only where a statement does: as a statement of a block or of the program, as a branch or
loop body, or in a function body; the operator kinds are fixed by the types, thirteen binary
operators and two prefix signs; and there are no literals for booleans or null. What the types
do not say, `Expr.WellFormed` does:

* every name, of a variable, of a declaration or of a parameter, is an identifier, an ASCII
  letter or `_` followed by letters, digits and `_`, and not a reserved word (`isName`);
* every binary operator and every prefix sign is a token the scanner read, of the operator's kind
  and at the offset the tree records, and so carries the precedence of that kind;
* every numeral is a token the scanner read, with the text, form and offset the tree records, and
  its text is spelled by the numeral grammar in that form.

The parser builds names only from identifier tokens whose text it has checked against the
reserved words, and operators and numerals only from the token under the cursor, which is always
one of the text's tokens. So the proof is one induction over the rules (`Parse.formed`), with the
cursor kept over the text's tokens (`Cursor.Over`).

## Main definitions

* `Expr.WellFormed ts`, `Stmt.WellFormed ts`: trees whose names are names and whose operators and
  numerals are tokens of `ts`.
* `Cursor.Over ts`: a cursor over scanned tokens, all of them among `ts`.
* `Parse.Builds`: a reading that, when it succeeds, keeps the cursor over `ts` and gives a value
  with a property.

## Main statements

* `Parse.formed`: every rule builds well-formed trees.
* `Program.parseAt_wellFormed`: every program read from a text is well formed.
-/

set_option autoImplicit false

namespace Scriptlet.Syntax

/-! ## Well-formed trees -/

mutual

/-- An expression whose names are names, and whose operators and numerals are tokens of `ts`,
numerals spelled in the form they record. -/
def Expr.WellFormed (ts : List Token) : Expr → Prop
  | .ident n => isName n = true
  | .num text f pos => Expr.numeralToken text f pos ∈ ts ∧ Numeral text.toList f
  | .str _ => True
  | .binary op pos l r => op.token pos ∈ ts ∧ l.WellFormed ts ∧ r.WellFormed ts
  | .unary s pos e => s.token pos ∈ ts ∧ e.WellFormed ts
  | .assign t v => t.WellFormed ts ∧ v.WellFormed ts
  | .call c args => c.WellFormed ts ∧ Expr.WellFormedList ts args
  | .func ps body => (∀ p ∈ ps, isName p = true) ∧ Stmt.WellFormedList ts body

/-- Expressions each well formed. -/
def Expr.WellFormedList (ts : List Token) : List Expr → Prop
  | [] => True
  | e :: rest => e.WellFormed ts ∧ Expr.WellFormedList ts rest

/-- A statement whose names are names and whose expressions are well formed. -/
def Stmt.WellFormed (ts : List Token) : Stmt → Prop
  | .expr e => e.WellFormed ts
  | .block body => Stmt.WellFormedList ts body
  | .letDecl n none => isName n = true
  | .letDecl n (some e) => isName n = true ∧ e.WellFormed ts
  | .ite c th none => c.WellFormed ts ∧ th.WellFormed ts
  | .ite c th (some el) => c.WellFormed ts ∧ th.WellFormed ts ∧ el.WellFormed ts
  | .loop c b => c.WellFormed ts ∧ b.WellFormed ts

/-- Statements each well formed. -/
def Stmt.WellFormedList (ts : List Token) : List Stmt → Prop
  | [] => True
  | s :: rest => s.WellFormed ts ∧ Stmt.WellFormedList ts rest

end

/-- A program whose statements are well formed. -/
def Program.WellFormed (ts : List Token) (p : Program) : Prop := Stmt.WellFormedList ts p

variable {ts : List Token}

@[simp] theorem Expr.wellFormedList_iff (es : List Expr) :
    Expr.WellFormedList ts es ↔ ∀ e ∈ es, e.WellFormed ts := by
  induction es with
  | nil => simp [Expr.WellFormedList]
  | cons e rest ih => simp [Expr.WellFormedList, ih]

@[simp] theorem Stmt.wellFormedList_iff (ss : List Stmt) :
    Stmt.WellFormedList ts ss ↔ ∀ s ∈ ss, s.WellFormed ts := by
  induction ss with
  | nil => simp [Stmt.WellFormedList]
  | cons s rest ih => simp [Stmt.WellFormedList, ih]

/-- A declaration is well formed when its name is a name and its initial value, if any, is well
formed. -/
theorem Stmt.wellFormed_letDecl (n : String) (init : Option Expr) :
    (Stmt.letDecl n init).WellFormed ts ↔ isName n = true ∧ ∀ e ∈ init, e.WellFormed ts := by
  cases init <;> simp [Stmt.WellFormed]

/-- A conditional is well formed when its condition and its branches are. -/
theorem Stmt.wellFormed_ite (c : Expr) (th : Stmt) (el : Option Stmt) :
    (Stmt.ite c th el).WellFormed ts ↔
      c.WellFormed ts ∧ th.WellFormed ts ∧ ∀ s ∈ el, s.WellFormed ts := by
  cases el <;> simp [Stmt.WellFormed]

/-- The names of a parameter list read from well-formed items are names. -/
theorem Parse.paramNames_isName : ∀ {es : List Expr} {ps : List String},
    Parse.paramNames es = some ps → (∀ e ∈ es, e.WellFormed ts) → ∀ p ∈ ps, isName p = true
  | [], _, h, _ => by
    simp only [Parse.paramNames, Option.some.injEq] at h
    subst h
    simp
  | .ident n :: rest, ps, h, hes => by
    simp only [Parse.paramNames, Option.map_eq_some_iff] at h
    obtain ⟨qs, hqs, rfl⟩ := h
    intro p hp
    rcases List.mem_cons.1 hp with rfl | hp
    · exact hes _ List.mem_cons_self
    · exact paramNames_isName hqs (fun e he => hes e (List.mem_cons_of_mem _ he)) p hp
  | .num .. :: _, _, h, _ | .str _ :: _, _, h, _ | .unary .. :: _, _, h, _
  | .binary .. :: _, _, h, _ | .assign .. :: _, _, h, _ | .call .. :: _, _, h, _
  | .func .. :: _, _, h, _ => by simp [Parse.paramNames] at h

/-! ## What the scanner's tokens are -/

/-- An identifier that is not reserved is a name. -/
theorem Lexeme.isName_of_identifier {sp : List Char} {t : Token} (h : Lexeme sp t)
    (hk : t.kind = .identifier) (hr : isReserved t.text = false) : isName t.text = true := by
  cases h with
  | word hc hcs =>
    simp only [Syntax.isName, String.toList_ofList, hc, List.all_eq_true, Bool.true_and,
      Bool.and_eq_true, Bool.not_eq_true']
    exact ⟨hcs, hr⟩
  | numeral _ | string _ _ => cases hk
  | single hs =>
    unfold singleKind at hs
    split at hs <;> cases hs <;> cases hk
  | pair hs =>
    unfold pairKind at hs
    split at hs <;> cases hs <;> cases hk

/-- A token of a binary operator's kind is that operator's token, at its offset. -/
theorem Lexeme.eq_binOp_token {sp : List Char} {t : Token} (h : Lexeme sp t) {op : BinOp}
    (hop : BinOp.ofKind? t.kind = some op) : t = op.token t.position := by
  cases h with
  | word _ _ | numeral _ | string _ _ => simp [BinOp.ofKind?] at hop
  | single hs =>
    unfold singleKind at hs
    split at hs <;> cases hs <;> simp only [BinOp.ofKind?, reduceCtorEq,
      Option.some.injEq] at hop <;> subst hop <;> rfl
  | pair hs =>
    unfold pairKind at hs
    split at hs <;> cases hs <;> simp only [BinOp.ofKind?, reduceCtorEq,
      Option.some.injEq] at hop <;> subst hop <;> rfl

/-- A token of a sign's kind is that sign's token, at its offset. -/
theorem Lexeme.eq_sign_token {sp : List Char} {t : Token} (h : Lexeme sp t) {s : Sign}
    (hs : Sign.ofKind? t.kind = some s) : t = s.token t.position := by
  cases h with
  | word _ _ | numeral _ | string _ _ => simp [Sign.ofKind?] at hs
  | single hk =>
    unfold singleKind at hk
    split at hk <;> cases hk <;> simp only [Sign.ofKind?, reduceCtorEq,
      Option.some.injEq] at hs <;> subst hs <;> rfl
  | pair hk =>
    unfold pairKind at hk
    split at hk <;> cases hk <;> simp [Sign.ofKind?] at hs

/-- A numeral token is the token of its own text, form and offset. -/
theorem Expr.numeralToken_eq {t : Token} {f : NumeralForm} (hk : t.kind = .numericLiteral)
    (hf : t.form = some f) : Expr.numeralToken t.text f t.position = t := by
  obtain ⟨kind, text, pos, form⟩ := t
  simp only at hk hf
  subst hk hf
  rfl

/-! ## Cursors over the tokens of a text -/

/-- A cursor over scanned tokens, every one of which before the end of input is among `ts`. -/
structure Cursor.Over (ts : List Token) (c : Cursor) : Prop where
  scanned : c.Scanned
  current : c.current.kind ≠ .eof → c.current ∈ ts
  ahead : ∀ t ∈ c.ahead, t ∈ ts

/-- The current token of a cursor over `ts`, unless it ends the input, is a token of `ts` that
spells a lexeme. -/
theorem Cursor.Over.lexeme {c : Cursor} (hc : c.Over ts) (hne : c.current.kind ≠ .eof) :
    c.current ∈ ts ∧ ∃ sp, Lexeme sp c.current :=
  ⟨hc.current hne, hc.scanned.current.resolve_left hne⟩

variable [NestingLimit] in
/-- Moving on goes to the next token ahead, or onto the token that ends the input. -/
theorem Parse.advance_eq_ok {a : Nat} {c c' : Cursor} {u : Unit}
    (h : exec (advance a) c = .ok (u, c')) :
    (∃ t rest, c.ahead = t :: rest ∧ c'.current = t ∧ c'.ahead = rest) ∨
      (c.ahead = [] ∧ ∃ t, c.finish = .ok t ∧ c'.current = t ∧ c'.ahead = []) := by
  simp only [advance, exec_get_bind] at h
  split at h
  · rename_i t rest hahead
    have h := reach_bind_eq_ok h
    simp only [exec_set, Except.ok.injEq, Prod.mk.injEq] at h
    obtain ⟨-, rfl⟩ := h
    exact .inl ⟨t, rest, hahead, rfl, rfl⟩
  · rename_i hahead
    split at h
    · rename_i t hfin
      have h := reach_bind_eq_ok h
      simp only [exec_set, Except.ok.injEq, Prod.mk.injEq] at h
      obtain ⟨-, rfl⟩ := h
      exact .inr ⟨hahead, t, hfin, rfl, hahead⟩
    · cases reach_bind_eq_ok h

variable [NestingLimit] in
/-- Moving on keeps a cursor over `ts`. -/
theorem Cursor.keeps_over (ts : List Token) (a : Nat) :
    Parse.Keeps (Cursor.Over ts) (Parse.advance a) := by
  intro c hc u c' h
  have hends := Parse.ends_advance (a := a) hc.scanned
  rw [h] at hends
  refine ⟨hends.1, fun hne => ?_, fun t ht => ?_⟩
  · rcases Parse.advance_eq_ok h with ⟨t, rest, hahead, hcur, -⟩ | ⟨-, t, hfin, hcur, -⟩
    · rw [hcur]
      exact hc.ahead t (by rw [hahead]; exact List.mem_cons_self)
    · rw [hcur] at hne ⊢
      exact absurd (hc.scanned.finish t hfin) hne
  · rcases Parse.advance_eq_ok h with ⟨t', rest, hahead, -, hahd⟩ | ⟨-, t', -, -, hahd⟩
    · rw [hahd] at ht
      exact hc.ahead t (by rw [hahead]; exact List.mem_cons_of_mem _ ht)
    · rw [hahd] at ht
      cases ht

/-! ## Readings that build -/

namespace Parse

variable {α β : Type} {c : Cursor}

/-- Reading `x` from `c` builds values with `q`: when it succeeds it stops on a cursor over `ts`
and gives a value with `q`. -/
def Builds (ts : List Token) (q : α → Prop) (x : Parse α) (c : Cursor) : Prop :=
  ∀ a c', exec x c = .ok (a, c') → c'.Over ts ∧ q a

variable {q : α → Prop} {r : β → Prop}

theorem builds_pure {a : α} (hc : c.Over ts) (ha : q a) : Builds ts q (pure a) c := by
  intro b c' h
  simp only [exec_pure, Except.ok.injEq, Prod.mk.injEq] at h
  obtain ⟨rfl, rfl⟩ := h
  exact ⟨hc, ha⟩

theorem builds_throw {e : ParseError} : Builds ts q (throw e : Parse α) c :=
  fun _ _ h => by cases h

theorem Builds.bind {x : Parse α} {f : α → Parse β} (hx : Builds ts q x c)
    (hf : ∀ a c', c'.Over ts → q a → Builds ts r (f a) c') : Builds ts r (x >>= f) c := by
  intro b c' h
  obtain ⟨a, c₁, hx₁, hf₁⟩ := exec_bind_eq_ok h
  obtain ⟨hc₁, ha⟩ := hx a c₁ hx₁
  exact hf a c₁ hc₁ ha b c' hf₁

theorem Builds.map {x : Parse α} {g : α → β} (hx : Builds ts q x c) (hg : ∀ a, q a → r (g a)) :
    Builds ts r (g <$> x) c := by
  intro b c' h
  rw [exec_map] at h
  rcases hr : exec x c with e | ⟨a, c₁⟩
  · rw [hr] at h
    cases h
  · rw [hr] at h
    simp only [Except.ok.injEq, Prod.mk.injEq] at h
    obtain ⟨rfl, rfl⟩ := h
    obtain ⟨hc₁, ha⟩ := hx a c₁ hr
    exact ⟨hc₁, hg a ha⟩

variable [NestingLimit]

theorem builds_reach_bind {n : Nat} {f : Unit → Parse α} (h : Builds ts q (f ()) c) :
    Builds ts q (reach n >>= f) c :=
  fun a c' hx => h a c' (reach_bind_eq_ok hx)

theorem builds_failAt {d : Nat} {t : Token} {w : Expectation} :
    Builds ts q (failAt d t w : Parse α) c :=
  fun _ _ h => absurd h failAt_ne_ok

theorem builds_failAt_bind {d : Nat} {t : Token} {w : Expectation} {f : α → Parse β} :
    Builds ts r (failAt d t w >>= f) c :=
  Builds.bind (q := fun _ => False) builds_failAt fun _ _ _ h => h.elim

omit [NestingLimit] in
theorem builds_current_bind {f : Token → Parse α} (h : Builds ts q (f c.current) c) :
    Builds ts q (current >>= f) c := by
  intro a c' hx
  rw [exec_current_bind] at hx
  exact h a c' hx

omit [NestingLimit] in
/-- A step that keeps the cursor over `ts` may be followed by any reading that builds. -/
theorem builds_keeps_bind {x : Parse α} {f : α → Parse β} (hx : Keeps (Cursor.Over ts) x)
    (hc : c.Over ts) (hf : ∀ a c', c'.Over ts → Builds ts r (f a) c') :
    Builds ts r (x >>= f) c := by
  intro b c' h
  obtain ⟨a, c₁, hx₁, hf₁⟩ := exec_bind_eq_ok h
  exact hf a c₁ (hx c hc a c₁ hx₁) b c' hf₁

theorem builds_advance_bind {a : Nat} {f : Unit → Parse α} (hc : c.Over ts)
    (hf : ∀ c', c'.Over ts → Builds ts q (f ()) c') : Builds ts q (advance a >>= f) c :=
  builds_keeps_bind (Cursor.keeps_over ts a) hc fun _ c' hc' => hf c' hc'

/-- Taking a token of kind `k` gives the current token, which is of that kind. -/
theorem builds_eat_bind {d : Nat} {k : TokenKind} {f : Token → Parse α} (hc : c.Over ts)
    (hf : ∀ c', c'.Over ts → c.current.kind = k → Builds ts q (f c.current) c') :
    Builds ts q (eat d k >>= f) c := by
  simp only [eat, bind_assoc]
  refine builds_reach_bind (builds_current_bind ?_)
  split
  · rename_i hk
    simp only [bind_assoc, pure_bind]
    exact builds_advance_bind hc fun c' hc' => hf c' hc' hk
  · exact builds_failAt_bind

theorem builds_keyword_bind {d : Nat} {f : Unit → Parse α} (hc : c.Over ts)
    (hf : ∀ c', c'.Over ts → Builds ts q (f ()) c') : Builds ts q (keyword d >>= f) c :=
  builds_keeps_bind (keeps_keyword (Cursor.keeps_over ts) d) hc fun _ c' hc' => hf c' hc'

theorem builds_skip_bind {d : Nat} {ks : List TokenKind} {f : Unit → Parse α} (hc : c.Over ts)
    (hf : ∀ c', c'.Over ts → Builds ts q (f ()) c') : Builds ts q (skip d ks >>= f) c :=
  builds_keeps_bind (keeps_skip (Cursor.keeps_over ts) d ks) hc fun _ c' hc' => hf c' hc'

/-! ## Every rule builds well-formed trees -/

variable (ts) in
/-- With `fuel`, every rule, run from a cursor over `ts` and given well-formed trees to extend,
builds well-formed trees. -/
structure Formed (fuel : Nat) : Prop where
  block : ∀ d braced c, c.Over ts →
    Builds ts (fun ss : List Stmt => ∀ s ∈ ss, s.WellFormed ts) (block fuel d braced) c
  statements : ∀ d stop acc c, c.Over ts → (∀ s ∈ acc, s.WellFormed ts) →
    Builds ts (fun ss : List Stmt => ∀ s ∈ ss, s.WellFormed ts) (statements fuel d stop acc) c
  statement : ∀ d c, c.Over ts → Builds ts (Stmt.WellFormed ts) (statement fuel d) c
  letDecl : ∀ d c, c.Over ts → Builds ts (Stmt.WellFormed ts) (letDecl fuel d) c
  condition : ∀ d c, c.Over ts → Builds ts (Expr.WellFormed ts) (condition fuel d) c
  branch : ∀ d c, c.Over ts → Builds ts (Stmt.WellFormed ts) (branch fuel d) c
  ifStmt : ∀ d c, c.Over ts → Builds ts (Stmt.WellFormed ts) (ifStmt fuel d) c
  forStmt : ∀ d c, c.Over ts → Builds ts (Stmt.WellFormed ts) (forStmt fuel d) c
  expression : ∀ d minPrec c, c.Over ts →
    Builds ts (Expr.WellFormed ts) (expression fuel d minPrec) c
  operators : ∀ d minPrec left c, c.Over ts → left.WellFormed ts →
    Builds ts (Expr.WellFormed ts) (operators fuel d minPrec left) c
  primary : ∀ d c, c.Over ts → Builds ts (Expr.WellFormed ts) (primary fuel d) c
  calls : ∀ d callee c, c.Over ts → callee.WellFormed ts →
    Builds ts (Expr.WellFormed ts) (calls fuel d callee) c
  parenthesized : ∀ d c, c.Over ts → Builds ts (Expr.WellFormed ts) (parenthesized fuel d) c
  items : ∀ d c, c.Over ts →
    Builds ts (fun es : List Expr => ∀ e ∈ es, e.WellFormed ts) (items fuel d) c
  itemsFrom : ∀ d acc c, c.Over ts → (∀ e ∈ acc, e.WellFormed ts) →
    Builds ts (fun es : List Expr => ∀ e ∈ es, e.WellFormed ts) (itemsFrom fuel d acc) c

/-- Without fuel no rule succeeds. -/
theorem formed_zero : Formed ts 0 where
  block _ _ _ _ := by simp only [Parse.block]; exact builds_throw
  statements _ _ _ _ _ _ := by simp only [Parse.statements]; exact builds_throw
  statement _ _ _ := by simp only [Parse.statement]; exact builds_throw
  letDecl _ _ _ := by simp only [Parse.letDecl]; exact builds_throw
  condition _ _ _ := by simp only [Parse.condition]; exact builds_throw
  branch _ _ _ := by simp only [Parse.branch]; exact builds_throw
  ifStmt _ _ _ := by simp only [Parse.ifStmt]; exact builds_throw
  forStmt _ _ _ := by simp only [Parse.forStmt]; exact builds_throw
  expression _ _ _ _ := by simp only [Parse.expression]; exact builds_throw
  operators _ _ _ _ _ _ := by simp only [Parse.operators]; exact builds_throw
  primary _ _ _ := by simp only [Parse.primary]; exact builds_throw
  calls _ _ _ _ _ := by simp only [Parse.calls]; exact builds_throw
  parenthesized _ _ _ := by simp only [Parse.parenthesized]; exact builds_throw
  items _ _ _ := by simp only [Parse.items]; exact builds_throw
  itemsFrom _ _ _ _ _ := by simp only [Parse.itemsFrom]; exact builds_throw

omit [NestingLimit] in
/-- The statements read so far, last first, and one more, in reading order. -/
theorem forall_reverse_cons {γ : Type} {p : γ → Prop} {acc : List γ} {x : γ}
    (hacc : ∀ y ∈ acc, p y) (hx : p x) : ∀ y ∈ (x :: acc).reverse, p y := by
  simp only [List.reverse_cons, List.mem_append, List.mem_reverse, List.mem_singleton]
  rintro y (hy | rfl)
  · exact hacc y hy
  · exact hx

section Succ

variable {n : Nat} (ih : Formed ts n)
include ih

theorem formed_block_succ (d : Nat) (braced : Bool) (c : Cursor) (hc : c.Over ts) :
    Builds ts (fun ss : List Stmt => ∀ s ∈ ss, s.WellFormed ts) (block (n + 1) d braced) c := by
  cases braced with
  | true =>
    simp only [Parse.block, ↓reduceIte]
    refine builds_reach_bind (builds_eat_bind hc fun c₁ hc₁ _ => ?_)
    refine builds_skip_bind hc₁ fun c₂ hc₂ => ?_
    refine (ih.statements d .closeCurly [] c₂ hc₂ (by simp)).bind fun body c₃ hc₃ hb => ?_
    exact builds_eat_bind hc₃ fun c₄ hc₄ _ => builds_reach_bind (builds_pure hc₄ hb)
  | false =>
    simp only [Parse.block, Bool.false_eq_true, ↓reduceIte]
    refine builds_reach_bind (builds_skip_bind hc fun c₂ hc₂ => ?_)
    refine (ih.statements d .eof [] c₂ hc₂ (by simp)).bind fun body c₃ hc₃ hb => ?_
    exact builds_reach_bind (builds_pure hc₃ hb)

theorem formed_statements_succ (d : Nat) (stop : TokenKind) (acc : List Stmt) (c : Cursor)
    (hc : c.Over ts) (hacc : ∀ s ∈ acc, s.WellFormed ts) :
    Builds ts (fun ss : List Stmt => ∀ s ∈ ss, s.WellFormed ts)
      (statements (n + 1) d stop acc) c := by
  simp only [Parse.statements]
  refine builds_current_bind ?_
  split
  · exact builds_pure hc (by simpa using hacc)
  · refine (ih.statement (d + 1) c hc).bind fun s c₁ hc₁ hs => builds_current_bind ?_
    -- after a separator the list goes on with one more statement
    have hsep : Builds ts (fun ss : List Stmt => ∀ s ∈ ss, s.WellFormed ts)
        (if c₁.current.kind = .newLine ∨ c₁.current.kind = .semicolon then
          skip (d + 1) separators >>= fun _ => statements n d stop (s :: acc)
          else failAt d c₁.current .separator) c₁ := by
      split
      · exact builds_skip_bind hc₁ fun c₂ hc₂ =>
          ih.statements d stop (s :: acc) c₂ hc₂ (List.forall_mem_cons.2 ⟨hs, hacc⟩)
      · exact builds_failAt
    split
    · exact builds_pure hc₁ (forall_reverse_cons hacc hs)
    · split
      · exact builds_reach_bind hsep
      · exact hsep

theorem formed_statement_succ (d : Nat) (c : Cursor) (hc : c.Over ts) :
    Builds ts (Stmt.WellFormed ts) (statement (n + 1) d) c := by
  have hexpr : Builds ts (Stmt.WellFormed ts)
      (expression n (d + 1) 0 >>= fun e => pure (Stmt.expr e)) c :=
    (ih.expression (d + 1) 0 c hc).bind fun e c' hc' he => builds_pure hc' he
  simp only [Parse.statement]
  refine builds_reach_bind (builds_current_bind ?_)
  -- the current token chooses the rule, as the definition tests it
  split
  · exact (ih.block (d + 2) true c hc).bind fun b c' hc' hb =>
      builds_pure hc' (by simpa [Stmt.WellFormed] using hb)
  · split
    · split
      · exact ih.letDecl (d + 2) c hc
      · split
        · exact ih.ifStmt (d + 2) c hc
        · split
          · exact ih.forStmt (d + 2) c hc
          · split
            · exact builds_failAt
            · split
              · exact builds_failAt
              · exact hexpr
    · exact hexpr

theorem formed_letDecl_succ (d : Nat) (c : Cursor) (hc : c.Over ts) :
    Builds ts (Stmt.WellFormed ts) (letDecl (n + 1) d) c := by
  simp only [Parse.letDecl]
  refine builds_reach_bind (builds_keyword_bind hc fun c₁ hc₁ => ?_)
  refine builds_eat_bind hc₁ fun c₂ hc₂ hk => ?_
  split
  · exact builds_failAt_bind
  · rename_i hres
    -- the name was taken from an identifier that is not reserved
    have hname : isName c₁.current.text = true :=
      ((hc₁.lexeme (by rw [hk]; decide)).2.choose_spec).isName_of_identifier hk (by simpa using hres)
    have hrest : ∀ (init : Parse (Option Expr)) (c₃ : Cursor),
        Builds ts (fun o : Option Expr => ∀ e ∈ o, e.WellFormed ts) init c₃ →
        Builds ts (Stmt.WellFormed ts) (init >>= fun o => reach (d + 3) >>= fun _ =>
          pure (Stmt.letDecl c₁.current.text o)) c₃ :=
      fun init c₃ hinit => hinit.bind fun o c₄ hc₄ ho =>
        builds_reach_bind (builds_pure hc₄ ((Stmt.wellFormed_letDecl _ _).2 ⟨hname, ho⟩))
    refine builds_reach_bind (builds_current_bind ?_)
    split
    · refine builds_advance_bind hc₂ fun c₃ hc₃ => hrest _ c₃ ?_
      exact (ih.expression (d + 1) _ c₃ hc₃).map fun e he => by simpa using he
    · exact hrest _ c₂ (builds_pure hc₂ (by simp))

theorem formed_condition_succ (d : Nat) (c : Cursor) (hc : c.Over ts) :
    Builds ts (Expr.WellFormed ts) (condition (n + 1) d) c := by
  simp only [Parse.condition]
  refine builds_reach_bind (builds_eat_bind hc fun c₁ hc₁ _ => ?_)
  refine builds_skip_bind hc₁ fun c₂ hc₂ => ?_
  refine (ih.expression (d + 1) 0 c₂ hc₂).bind fun e c₃ hc₃ he => ?_
  refine builds_skip_bind hc₃ fun c₄ hc₄ => ?_
  exact builds_eat_bind hc₄ fun c₅ hc₅ _ => builds_pure hc₅ he

theorem formed_branch_succ (d : Nat) (c : Cursor) (hc : c.Over ts) :
    Builds ts (Stmt.WellFormed ts) (branch (n + 1) d) c := by
  simp only [Parse.branch]
  refine builds_reach_bind (builds_current_bind ?_)
  split
  · exact (ih.block (d + 1) true c hc).bind fun b c' hc' hb =>
      builds_pure hc' (by simpa [Stmt.WellFormed] using hb)
  · exact ih.statement (d + 1) c hc

theorem formed_ifStmt_succ (d : Nat) (c : Cursor) (hc : c.Over ts) :
    Builds ts (Stmt.WellFormed ts) (ifStmt (n + 1) d) c := by
  simp only [Parse.ifStmt]
  refine builds_reach_bind (builds_keyword_bind hc fun c₁ hc₁ => ?_)
  refine (ih.condition (d + 1) c₁ hc₁).bind fun e c₂ hc₂ he => ?_
  refine (ih.branch (d + 1) c₂ hc₂).bind fun th c₃ hc₃ hth => ?_
  have hrest : ∀ (el : Parse (Option Stmt)) (c₄ : Cursor),
      Builds ts (fun o : Option Stmt => ∀ s ∈ o, s.WellFormed ts) el c₄ →
      Builds ts (Stmt.WellFormed ts) (el >>= fun o => reach (d + 3) >>= fun _ =>
        pure (Stmt.ite e th o)) c₄ :=
    fun el c₄ hel => hel.bind fun o c₅ hc₅ ho =>
      builds_reach_bind (builds_pure hc₅ ((Stmt.wellFormed_ite _ _ _).2 ⟨he, hth, ho⟩))
  refine builds_reach_bind (builds_current_bind ?_)
  -- the else branch, if the next token is `else`
  split
  · refine builds_advance_bind hc₃ fun c₄ hc₄ => hrest _ c₄ ?_
    exact (ih.branch (d + 1) c₄ hc₄).map fun s hs => by simpa using hs
  · exact hrest _ c₃ (builds_pure hc₃ (by simp))

theorem formed_forStmt_succ (d : Nat) (c : Cursor) (hc : c.Over ts) :
    Builds ts (Stmt.WellFormed ts) (forStmt (n + 1) d) c := by
  simp only [Parse.forStmt]
  refine builds_reach_bind (builds_keyword_bind hc fun c₁ hc₁ => ?_)
  refine (ih.condition (d + 1) c₁ hc₁).bind fun e c₂ hc₂ he => ?_
  refine (ih.branch (d + 1) c₂ hc₂).bind fun b c₃ hc₃ hb => ?_
  exact builds_reach_bind (builds_pure hc₃ ⟨he, hb⟩)

theorem formed_expression_succ (d minPrec : Nat) (c : Cursor) (hc : c.Over ts) :
    Builds ts (Expr.WellFormed ts) (expression (n + 1) d minPrec) c := by
  simp only [Parse.expression]
  exact builds_reach_bind ((ih.primary (d + 1) c hc).bind fun l c₁ hc₁ hl =>
    ih.operators d minPrec l c₁ hc₁ hl)

theorem formed_operators_succ (d minPrec : Nat) (left : Expr) (c : Cursor) (hc : c.Over ts)
    (hleft : left.WellFormed ts) :
    Builds ts (Expr.WellFormed ts) (operators (n + 1) d minPrec left) c := by
  simp only [Parse.operators]
  refine builds_current_bind ?_
  split
  · refine builds_reach_bind ?_
    split
    · -- an assignment: its value is read from the token after `=`
      refine builds_advance_bind hc fun c₁ hc₁ => ?_
      refine (ih.expression (d + 2) _ c₁ hc₁).bind fun v c₂ hc₂ hv => ?_
      exact builds_reach_bind (ih.operators d minPrec _ c₂ hc₂ ⟨hleft, hv⟩)
    · split
      · -- a binary operator: the token under the cursor is the operator's token
        rename_i op hop
        have hne := BinOp.ne_eof_of_ofKind? hop
        obtain ⟨hmem, sp, hlex⟩ := hc.lexeme hne
        have htok : op.token c.current.position ∈ ts := hlex.eq_binOp_token hop ▸ hmem
        refine builds_reach_bind (builds_advance_bind hc fun c₁ hc₁ => ?_)
        refine (ih.expression (d + 2) _ c₁ hc₁).bind fun r c₂ hc₂ hr => ?_
        exact builds_reach_bind (ih.operators d minPrec _ c₂ hc₂ ⟨htok, hleft, hr⟩)
      · exact builds_reach_bind builds_failAt
  · exact builds_pure hc hleft

theorem formed_primary_succ (d : Nat) (c : Cursor) (hc : c.Over ts) :
    Builds ts (Expr.WellFormed ts) (primary (n + 1) d) c := by
  -- a name, a numeral or a string: its token is taken, then the argument lists after it
  have hatom : ∀ a : Expr, a.WellFormed ts →
      Builds ts (Expr.WellFormed ts)
        (advance (d + 1) >>= fun _ => reach (d + 3) >>= fun _ => calls n (d + 1) a) c :=
    fun a ha => builds_advance_bind hc fun c₁ hc₁ =>
      builds_reach_bind (ih.calls (d + 1) a c₁ hc₁ ha)
  simp only [Parse.primary]
  refine builds_reach_bind (builds_current_bind ?_)
  split
  · rename_i hk
    split
    · exact builds_failAt
    · rename_i hres
      obtain ⟨-, sp, hlex⟩ := hc.lexeme (by rw [hk]; decide)
      exact hatom _ (hlex.isName_of_identifier hk (by simpa using hres))
  · rename_i f hk hform
    obtain ⟨hmem, -⟩ := hc.lexeme (by rw [hk]; decide)
    exact hatom _ ⟨(Expr.numeralToken_eq hk hform).symm ▸ hmem, hc.scanned.spelled hform hk⟩
  · exact hatom _ trivial
  · exact (ih.parenthesized (d + 1) c hc).bind fun g c₁ hc₁ hg => ih.calls (d + 1) g c₁ hc₁ hg
  · -- a sign, whose operand is read from the token after it
    refine builds_reach_bind ?_
    split
    · rename_i sg hsg
      have hne := Sign.ne_eof_of_ofKind? hsg
      obtain ⟨hmem, sp, hlex⟩ := hc.lexeme hne
      have htok : sg.token c.current.position ∈ ts := hlex.eq_sign_token hsg ▸ hmem
      refine builds_advance_bind hc fun c₁ hc₁ => ?_
      refine (ih.expression (d + 1) _ c₁ hc₁).bind fun x c₂ hc₂ hx => ?_
      exact builds_reach_bind (builds_pure hc₂ ⟨htok, hx⟩)
    · exact builds_failAt

theorem formed_calls_succ (d : Nat) (callee : Expr) (c : Cursor) (hc : c.Over ts)
    (hcallee : callee.WellFormed ts) :
    Builds ts (Expr.WellFormed ts) (calls (n + 1) d callee) c := by
  simp only [Parse.calls]
  refine builds_reach_bind (builds_current_bind ?_)
  split
  · refine builds_reach_bind ((ih.items (d + 2) c hc).bind fun args c₁ hc₁ hargs => ?_)
    exact builds_reach_bind (ih.calls d _ c₁ hc₁ ⟨hcallee, by simpa using hargs⟩)
  · exact builds_pure hc hcallee

theorem formed_parenthesized_succ (d : Nat) (c : Cursor) (hc : c.Over ts) :
    Builds ts (Expr.WellFormed ts) (parenthesized (n + 1) d) c := by
  simp only [Parse.parenthesized]
  refine builds_reach_bind ((ih.items (d + 1) c hc).bind fun es c₁ hc₁ hes => ?_)
  refine builds_reach_bind (builds_current_bind ?_)
  split
  · -- a function: the list holds its parameters, and its body follows `=>`
    refine builds_reach_bind (builds_eat_bind hc₁ fun c₂ hc₂ _ => ?_)
    split
    · rename_i ps hps
      refine (ih.block (d + 2) true c₂ hc₂).bind fun body c₃ hc₃ hbody => ?_
      exact builds_reach_bind (builds_pure hc₃
        ⟨paramNames_isName hps hes, by simpa using hbody⟩)
    · exact builds_failAt
  · split
    · exact builds_pure hc₁ (hes _ List.mem_cons_self)
    · exact builds_failAt

theorem formed_items_succ (d : Nat) (c : Cursor) (hc : c.Over ts) :
    Builds ts (fun es : List Expr => ∀ e ∈ es, e.WellFormed ts) (items (n + 1) d) c := by
  simp only [Parse.items]
  refine builds_reach_bind (builds_eat_bind hc fun c₁ hc₁ _ => ?_)
  exact builds_skip_bind hc₁ fun c₂ hc₂ => ih.itemsFrom d [] c₂ hc₂ (by simp)

theorem formed_itemsFrom_succ (d : Nat) (acc : List Expr) (c : Cursor) (hc : c.Over ts)
    (hacc : ∀ e ∈ acc, e.WellFormed ts) :
    Builds ts (fun es : List Expr => ∀ e ∈ es, e.WellFormed ts) (itemsFrom (n + 1) d acc) c := by
  simp only [Parse.itemsFrom]
  refine builds_reach_bind (builds_current_bind ?_)
  split
  · exact builds_eat_bind hc fun c₁ hc₁ _ => builds_pure hc₁ (by simpa using hacc)
  · refine (ih.expression (d + 1) 0 c hc).bind fun e c₁ hc₁ he => ?_
    refine builds_skip_bind hc₁ fun c₂ hc₂ => builds_reach_bind (builds_current_bind ?_)
    split
    · -- after a comma the list goes on with one more item
      refine builds_advance_bind hc₂ fun c₃ hc₃ => ?_
      refine builds_skip_bind hc₃ fun c₄ hc₄ => builds_reach_bind (builds_current_bind ?_)
      split
      · exact builds_failAt_bind
      · exact ih.itemsFrom d (e :: acc) c₄ hc₄ (List.forall_mem_cons.2 ⟨he, hacc⟩)
    · exact builds_eat_bind hc₂ fun c₃ hc₃ _ => builds_pure hc₃ (forall_reverse_cons hacc he)

end Succ

theorem formed_succ {n : Nat} (ih : Formed ts n) : Formed ts (n + 1) where
  block := formed_block_succ ih
  statements := formed_statements_succ ih
  statement := formed_statement_succ ih
  letDecl := formed_letDecl_succ ih
  condition := formed_condition_succ ih
  branch := formed_branch_succ ih
  ifStmt := formed_ifStmt_succ ih
  forStmt := formed_forStmt_succ ih
  expression := formed_expression_succ ih
  operators := formed_operators_succ ih
  primary := formed_primary_succ ih
  calls := formed_calls_succ ih
  parenthesized := formed_parenthesized_succ ih
  items := formed_items_succ ih
  itemsFrom := formed_itemsFrom_succ ih

/-- Every rule, with any fuel, builds well-formed trees. -/
theorem formed : ∀ fuel, Formed ts fuel
  | 0 => formed_zero
  | fuel + 1 => formed_succ (formed fuel)

end Parse

/-! ## Whole texts -/

/-- The cursor on the first token of a scanned stream is over the stream's tokens. -/
theorem Cursor.start_over {s : TokenStream} (hts : ∀ t ∈ s.tokens, ∃ sp, Lexeme sp t)
    (hfin : ∀ t, s.finish = .ok t → t.kind = .eof) {c : Cursor} (h : Cursor.start s = .ok c) :
    c.Over s.tokens := by
  have hsc := (Cursor.start_scanned hts hfin h).1
  obtain ⟨ts, fin⟩ := s
  cases ts with
  | cons t rest =>
    simp only [Cursor.start, Except.ok.injEq] at h
    subst h
    exact ⟨hsc, fun _ => List.mem_cons_self, fun u hu => List.mem_cons_of_mem t hu⟩
  | nil =>
    cases fin with
    | ok t =>
      simp only [Cursor.start, Except.ok.injEq] at h
      subst h
      exact ⟨hsc, fun hne => absurd (hfin t rfl) hne, by simp⟩
    | error e => cases h

variable [NestingLimit]

/-- **Every program the parser reads is well formed.** Read from any text, at any level, a
program's names (of variables, of declarations and of parameters) are identifiers that are not
reserved words; its binary operators and prefix signs are tokens the scanner read from the text,
of the operator's kind and at the offset the tree records; and its numerals are tokens the
scanner read, with the text, form and offset the tree records, their text spelled by the
numeral grammar in that form. Declarations, conditionals, loops and blocks stand only where
statements do, as the types of the tree say. -/
theorem Program.parseAt_wellFormed {q : Nat} {src : String} {p : Program}
    (h : Program.parseAt q src = .ok p) : p.WellFormed (TokenStream.ofString src).tokens := by
  obtain ⟨c, c', hstart, hrun⟩ := Program.ofTokens_eq_ok h
  obtain ⟨hts, hfin⟩ := TokenStream.ofString_scanned src
  have hc := Cursor.start_over hts hfin hstart
  simp only [Parse.topLevel, Parse.exec_current_bind] at hrun
  have hrun := Parse.reach_bind_eq_ok hrun
  obtain ⟨body, c₁, hb, hrest⟩ := Parse.exec_bind_eq_ok hrun
  have hrest := Parse.reach_bind_eq_ok hrest
  simp only [Parse.exec_pure, Except.ok.injEq, Prod.mk.injEq] at hrest
  obtain ⟨rfl, -⟩ := hrest
  have hwf := ((Parse.formed _).block (q + 1) false c hc body c₁ hb).2
  exact (Stmt.wellFormedList_iff body).2 hwf

end Scriptlet.Syntax

namespace Scriptlet.Syntax

/-- A declaration with a sign, a call with a hexadecimal and a scientific numeral, and a
product: each name, numeral and operator of the tree is one the scanner read. -/
theorem Program.parseAt_wellFormed_signedProduct :
    Program.parseAt readLevel "let y = -f(0x1F, 2.5e3) * x" =
        .ok [.letDecl "y" (some (.binary .mul 24
          (.unary .neg 8 (.call (.ident "f")
            [.num "0x1F" ⟨.integer, .hex⟩ 11, .num "2.5e3" ⟨.real, .scientific⟩ 17]))
          (.ident "x")))] ∧
      Program.WellFormed (TokenStream.ofString "let y = -f(0x1F, 2.5e3) * x").tokens
        [.letDecl "y" (some (.binary .mul 24
          (.unary .neg 8 (.call (.ident "f")
            [.num "0x1F" ⟨.integer, .hex⟩ 11, .num "2.5e3" ⟨.real, .scientific⟩ 17]))
          (.ident "x")))] := by
  have h : Program.parseAt readLevel "let y = -f(0x1F, 2.5e3) * x" =
      .ok [.letDecl "y" (some (.binary .mul 24
        (.unary .neg 8 (.call (.ident "f")
          [.num "0x1F" ⟨.integer, .hex⟩ 11, .num "2.5e3" ⟨.real, .scientific⟩ 17]))
        (.ident "x")))] := by
    cbv
  exact ⟨h, Program.parseAt_wellFormed h⟩

end Scriptlet.Syntax
