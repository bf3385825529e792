import Scriptlet.Proofs.Reading
import Scriptlet.Proofs.Segmenting

/-!
# How a parse can end

The parser runs on fuel, sixteen steps for each token of the text (`parseFuel`), and it has a
branch that no text should reach: the rule for infix operators fails with "expected an operator"
when a token binds but is neither `=` nor a binary operator. Neither ever happens. Every parse of
every text ends with a program, or with a fault of the scanner, a syntax error of another kind, or
the nesting limit (`ParseError.Ordinary`).

The fuel is enough because every rule, before it calls another rule on the same token, is of a
higher rank than the rule it calls, and every rule that calls itself again has taken a token
first: a rule of rank `k` with `16 * n + k` steps to spare, `n` tokens left, never runs dry
(`Parse.enough`). The operator branch is dead because a token binds only when it is `=` or the
token of a binary operator (`TokenKind.binds`).

The same induction shows that every numeral of a program read is spelled by the numeral grammar
in the form it records: the parser builds numerals only from tokens the scanner read, and every
such token spells a lexeme (`Scanner.run_ofString_steps`). So reading the number a numeral
stands for never meets a text outside the grammar.

## Main definitions

* `ParseError.Ordinary`: a fault of the scanner, a syntax error other than a missing operator, or
  the nesting limit.
* `Expr.numerals`, `Stmt.numerals`: the numerals of a tree, with their forms.
* `Cursor.left`, `Cursor.Scanned`: the tokens a cursor has left, and cursors over scanned tokens.
* `Parse.Ends`, `Parse.Took`: how a rule run from a cursor ends.

## Main statements

* `Parse.enough`: every rule, with enough fuel, ends in a tree whose numerals are spelled, or in
  an ordinary error.
* `Program.parseAt_ordinary`, `Program.parseAt_spelled`: the same for a whole text.
-/

set_option autoImplicit false

namespace Scriptlet.Syntax

/-! ## Errors a parse is written to give -/

/-- The errors the parser gives on purpose: a fault of the scanner, a syntax error other than a
missing operator, or the nesting limit. Running out of fuel, and the missing operator, are not
among them. -/
def ParseError.Ordinary : ParseError → Prop
  | .lexical _ => True
  | .unexpected _ w => w ≠ .operator
  | .tooDeep => True
  | .exhausted => False

/-- A token that binds tighter than some level is `=` or the token of a binary operator. -/
theorem TokenKind.binds {k : TokenKind} (h : 0 < k.precedence) :
    k = .equal ∨ ∃ op, BinOp.ofKind? k = some op := by
  cases k <;> simp_all [TokenKind.precedence, BinOp.ofKind?]

/-! ## The numerals of a tree -/

mutual

/-- The numerals of an expression, by text and form, left to right. -/
def Expr.numerals : Expr → List (String × NumeralForm)
  | .ident _ => []
  | .num text f _ => [(text, f)]
  | .str _ => []
  | .binary _ _ l r => l.numerals ++ r.numerals
  | .unary _ _ x => x.numerals
  | .assign t v => t.numerals ++ v.numerals
  | .call c args => c.numerals ++ Expr.listNumerals args
  | .func _ body => Stmt.listNumerals body

/-- The numerals of expressions, left to right. -/
def Expr.listNumerals : List Expr → List (String × NumeralForm)
  | [] => []
  | e :: rest => e.numerals ++ Expr.listNumerals rest

/-- The numerals of a statement, left to right. -/
def Stmt.numerals : Stmt → List (String × NumeralForm)
  | .expr e => e.numerals
  | .block body => Stmt.listNumerals body
  | .letDecl _ none => []
  | .letDecl _ (some e) => e.numerals
  | .ite c th none => c.numerals ++ th.numerals
  | .ite c th (some el) => c.numerals ++ th.numerals ++ el.numerals
  | .loop c b => c.numerals ++ b.numerals

/-- The numerals of statements, left to right. -/
def Stmt.listNumerals : List Stmt → List (String × NumeralForm)
  | [] => []
  | s :: rest => s.numerals ++ Stmt.listNumerals rest

end

example : (Expr.binary .add 2 (.num "0x1F" ⟨.integer, .hex⟩ 0) (.ident "a")).numerals =
    [("0x1F", ⟨.integer, .hex⟩)] := rfl

/-- Numerals each spelled by the numeral grammar in the form recorded with it. -/
def Spelled (ns : List (String × NumeralForm)) : Prop := ∀ x ∈ ns, Numeral x.1.toList x.2

@[simp] theorem spelled_nil : Spelled [] := by simp [Spelled]

@[simp] theorem spelled_append {ns ms : List (String × NumeralForm)} :
    Spelled (ns ++ ms) ↔ Spelled ns ∧ Spelled ms := List.forall_mem_append

@[simp] theorem spelled_singleton {text : String} {f : NumeralForm} :
    Spelled [(text, f)] ↔ Numeral text.toList f := List.forall_mem_singleton

@[simp] theorem Expr.spelled_listNumerals (es : List Expr) :
    Spelled (Expr.listNumerals es) ↔ ∀ e ∈ es, Spelled e.numerals := by
  induction es with
  | nil => simp [Expr.listNumerals]
  | cons e rest ih => simp [Expr.listNumerals, ih]

@[simp] theorem Stmt.spelled_listNumerals (ss : List Stmt) :
    Spelled (Stmt.listNumerals ss) ↔ ∀ s ∈ ss, Spelled s.numerals := by
  induction ss with
  | nil => simp [Stmt.listNumerals]
  | cons s rest ih => simp [Stmt.listNumerals, ih]

/-- A numeral token that spells a lexeme has a text of the grammar, in its form. -/
theorem Lexeme.spelled {sp : List Char} {t : Token} (h : Lexeme sp t) {f : NumeralForm}
    (hf : t.form = some f) : Numeral t.text.toList f := by
  cases h with
  | numeral hn =>
    cases hf
    simpa using hn
  | _ => cases hf

/-! ## Cursors over scanned tokens -/

/-- The tokens a cursor has left to take: those ahead, and the current one unless it ends the
input. -/
def Cursor.left (c : Cursor) : Nat := c.ahead.length + if c.current.kind = .eof then 0 else 1

/-- A cursor over tokens the scanner read: every token before the end spells a lexeme, and the
input ends with the end-of-input token or a fault. -/
structure Cursor.Scanned (c : Cursor) : Prop where
  current : c.current.kind = .eof ∨ ∃ sp, Lexeme sp c.current
  ahead : ∀ t ∈ c.ahead, ∃ sp, Lexeme sp t
  finish : ∀ t, c.finish = .ok t → t.kind = .eof

/-- A numeral under a scanned cursor is spelled by the grammar. -/
theorem Cursor.Scanned.spelled {c : Cursor} (hc : c.Scanned) {f : NumeralForm}
    (hf : c.current.form = some f) (hk : c.current.kind = .numericLiteral) :
    Numeral c.current.text.toList f := by
  rcases hc.current with he | ⟨sp, hl⟩
  · rw [hk] at he
    cases he
  · exact hl.spelled hf

namespace Parse

variable {α β : Type}

/-! ## How a run ends -/

/-- A run of a rule that gives a value and a cursor satisfying `Q`, or an ordinary error. -/
def Ends (Q : α → Cursor → Prop) : Except ParseError (α × Cursor) → Prop
  | .ok (a, c) => Q a c
  | .error e => e.Ordinary

/-- A value satisfying `q`, read by taking at least `k` of the tokens `c` had left, and the
scanned cursor after them. -/
def Took (c : Cursor) (k : Nat) (q : α → Prop) (a : α) (c' : Cursor) : Prop :=
  q a ∧ c'.Scanned ∧ c'.left + k ≤ c.left

variable {Q Q' : α → Cursor → Prop} {R : β → Cursor → Prop} {c : Cursor}

theorem Ends.mono {r : Except ParseError (α × Cursor)} (h : Ends Q r)
    (hQ : ∀ a c', Q a c' → Q' a c') : Ends Q' r := by
  rcases r with e | ⟨a, c'⟩
  · exact h
  · exact hQ a c' h

theorem ends_pure {a : α} (h : Q a c) : Ends Q (exec (pure a) c) := h

theorem ends_bind {x : Parse α} {f : α → Parse β} (hx : Ends Q (exec x c))
    (hf : ∀ a c', Q a c' → Ends R (exec (f a) c')) : Ends R (exec (x >>= f) c) := by
  rw [exec_bind]
  rcases hxc : exec x c with e | ⟨a, c'⟩
  · rw [hxc] at hx
    exact hx
  · rw [hxc] at hx
    exact hf a c' hx

theorem ends_map {x : Parse α} {g : α → β} (hx : Ends Q (exec x c))
    (hg : ∀ a c', Q a c' → R (g a) c') : Ends R (exec (g <$> x) c) := by
  rw [exec_map]
  rcases hxc : exec x c with e | ⟨a, c'⟩
  · rw [hxc] at hx
    exact hx
  · rw [hxc] at hx
    exact hg a c' hx

/-- A rule that took `k` of the tokens `c` had, followed by a rule run from where it stopped. -/
theorem ends_bind_took {x : Parse α} {f : α → Parse β} {k : Nat} {q : α → Prop}
    (hx : Ends (Took c k q) (exec x c))
    (hf : ∀ a c', q a → c'.Scanned → c'.left + k ≤ c.left → Ends R (exec (f a) c')) :
    Ends R (exec (x >>= f) c) :=
  ends_bind hx fun a c' h => hf a c' h.1 h.2.1 h.2.2

/-- What a rule took from a cursor `c'`, it took from an earlier cursor `c`, with the tokens
between them. -/
theorem Ends.took {c' : Cursor} {k k' : Nat} {q : α → Prop} {r : Except ParseError (α × Cursor)}
    (h : Ends (Took c' k q) r) (hle : c'.left + k' ≤ c.left + k) : Ends (Took c k' q) r :=
  h.mono fun _ _ h => ⟨h.1, h.2.1, by have := h.2.2; omega⟩

variable [NestingLimit]

/-- A test of the nesting level passes or fails at the limit, an ordinary error. -/
theorem ends_reach_bind {n : Nat} {f : Unit → Parse α} (h : Ends Q (exec (f ()) c)) :
    Ends Q (exec (reach n >>= f) c) := by
  rw [exec_bind, exec_reach]
  by_cases hn : nestingLimit < n
  · rw [if_pos hn]
    trivial
  · rw [if_neg hn]
    exact h

/-- A syntax error other than a missing operator is ordinary. -/
theorem ends_failAt {d : Nat} {t : Token} {w : Expectation} (hw : w ≠ .operator) :
    Ends Q (exec (failAt d t w) c) :=
  ends_reach_bind hw

theorem ends_failAt_bind {d : Nat} {t : Token} {w : Expectation} {f : α → Parse β}
    (hw : w ≠ .operator) : Ends R (exec (failAt d t w >>= f) c) :=
  ends_bind (Q := fun _ _ => False) (ends_failAt hw) fun _ _ h => h.elim

/-- Moving on from a scanned cursor leaves a scanned cursor with no more tokens left, and one
fewer unless the cursor stood on the end. -/
theorem ends_advance {a : Nat} (hc : c.Scanned) :
    Ends (fun _ c' => c'.Scanned ∧ c'.left ≤ c.left ∧ (c.current.kind ≠ .eof → c'.left < c.left))
      (exec (advance a) c) := by
  obtain ⟨cur, ahead, fin⟩ := c
  cases ahead with
  | cons t rest =>
    obtain ⟨sp, hl⟩ := hc.ahead t List.mem_cons_self
    simp only [advance, exec_get_bind]
    refine ends_reach_bind ?_
    refine ⟨⟨.inr ⟨sp, hl⟩, fun u hu => hc.ahead u (List.mem_cons_of_mem t hu), hc.finish⟩, ?_⟩
    simp only [Cursor.left, List.length_cons, if_neg hl.kind_ne_eof]
    constructor
    · omega
    · intro hcur
      simp only [if_neg hcur]
      omega
  | nil =>
    cases fin with
    | error e =>
      simp only [advance, exec_get_bind]
      exact ends_reach_bind trivial
    | ok t =>
      have ht := hc.finish t rfl
      simp only [advance, exec_get_bind]
      refine ends_reach_bind ⟨⟨.inl ht, by simp, hc.finish⟩, ?_⟩
      simp only [Cursor.left, List.length_nil, if_pos ht]
      constructor
      · omega
      · intro hcur
        simp only [if_neg hcur]
        omega

theorem ends_advance_bind {a : Nat} {f : Unit → Parse α} (hc : c.Scanned)
    (h : ∀ c', c'.Scanned → c'.left ≤ c.left → (c.current.kind ≠ .eof → c'.left < c.left) →
      Ends Q (exec (f ()) c')) :
    Ends Q (exec (advance a >>= f) c) :=
  ends_bind (ends_advance hc) fun _ c' h' => h c' h'.1 h'.2.1 h'.2.2

/-- Taking a token of a kind other than the end moves past it, or fails with an ordinary error. -/
theorem ends_eat_bind {d : Nat} {k : TokenKind} {f : Token → Parse α} (hc : c.Scanned)
    (hk : k ≠ .eof) (h : ∀ c', c'.Scanned → c'.left < c.left → Ends Q (exec (f c.current) c')) :
    Ends Q (exec (eat d k >>= f) c) := by
  simp only [eat, bind_assoc]
  refine ends_reach_bind ?_
  rw [exec_current_bind]
  split
  · rename_i hck
    simp only [bind_assoc, pure_bind]
    exact ends_advance_bind hc fun c' hs _ hlt => h c' hs (hlt (hck ▸ hk))
  · exact ends_failAt_bind (by simp)

/-- Taking a keyword moves on. -/
theorem ends_keyword_bind {d : Nat} {f : Unit → Parse α} (hc : c.Scanned)
    (h : ∀ c', c'.Scanned → c'.left ≤ c.left → Ends Q (exec (f ()) c')) :
    Ends Q (exec (keyword d >>= f) c) := by
  simp only [keyword, bind_assoc]
  exact ends_reach_bind (ends_advance_bind hc fun c' hs hle _ => h c' hs hle)

/-- Skipping tokens of kinds in `ks` moves on, past the current token if its kind is in `ks`. -/
theorem ends_skipFor {ks : List TokenKind} (hks : TokenKind.eof ∉ ks) (d : Nat) :
    ∀ (fuel : Nat) (c : Cursor), c.Scanned →
      Ends (fun (_ : Unit) c' => c'.Scanned ∧ c'.left ≤ c.left ∧
        (c.current.kind ∈ ks → 0 < fuel → c'.left < c.left)) (exec (skipFor ks d fuel) c)
  | 0, c, hc => ⟨hc, Nat.le_refl _, fun _ h => absurd h (Nat.lt_irrefl 0)⟩
  | fuel + 1, c, hc => by
    -- the current token is taken if its kind is in `ks`, and skipping goes on from the next
    have hround : Ends (fun (_ : Unit) c' => c'.Scanned ∧ c'.left ≤ c.left ∧
        (c.current.kind ∈ ks → 0 < fuel + 1 → c'.left < c.left))
        (exec (if ks.contains c.current.kind then advance (d + 1) >>= fun _ => skipFor ks d fuel
          else pure ()) c) := by
      split
      · rename_i hin
        have hmem : c.current.kind ∈ ks := by simpa using hin
        have hne : c.current.kind ≠ .eof := fun he => hks (he ▸ hmem)
        refine ends_advance_bind hc fun c' hs hle hlt => ?_
        exact (ends_skipFor hks d fuel c' hs).mono fun _ c'' h =>
          ⟨h.1, Nat.le_trans h.2.1 hle, fun _ _ => Nat.lt_of_le_of_lt h.2.1 (hlt hne)⟩
      · rename_i hout
        exact ⟨hc, Nat.le_refl _, fun hmem => absurd (by simpa using hmem) hout⟩
    simp only [skipFor, exec_current_bind]
    split
    · exact ends_reach_bind hround
    · exact hround

theorem ends_skip_bind {ks : List TokenKind} {d : Nat} {f : Unit → Parse α} (hc : c.Scanned)
    (hks : TokenKind.eof ∉ ks)
    (h : ∀ c', c'.Scanned → c'.left ≤ c.left → (c.current.kind ∈ ks → c'.left < c.left) →
      Ends Q (exec (f ()) c')) :
    Ends Q (exec (skip d ks >>= f) c) := by
  simp only [skip, bind_assoc]
  refine ends_reach_bind ?_
  rw [exec_get_bind]
  exact ends_bind (ends_skipFor hks d _ c hc) fun _ c' h' =>
    h c' h'.1 h'.2.1 fun hmem => h'.2.2 hmem (Nat.succ_pos _)

/-! ## Every rule, with enough fuel -/

/-- With `fuel`, every rule, run from a scanned cursor with `n` tokens left and `16 * n + k`
below the fuel, `k` the rank of the rule, ends in an ordinary error, or in a tree whose numerals
are spelled and a scanned cursor with no more tokens left. A rule outranks every rule it calls
before it has taken a token: a list of statements a statement, a statement a braced block and the
rules it chooses among, a branch a statement, an expression a primary, a primary a group, a group
and a list of calls an item list. Sixteen steps a token cover every rank, so a rule may call any
rule once it has taken a token. A condition and an item list always take one. -/
structure Enough (fuel : Nat) : Prop where
  block : ∀ d braced c, c.Scanned → 16 * c.left + (if braced then 0 else 6) < fuel →
    Ends (Took c 0 fun ss : List Stmt => ∀ s ∈ ss, Spelled s.numerals)
      (exec (block fuel d braced) c)
  statements : ∀ d stop acc c, c.Scanned → 16 * c.left + 5 < fuel →
    (∀ s ∈ acc, Spelled s.numerals) →
    Ends (Took c 0 fun ss : List Stmt => ∀ s ∈ ss, Spelled s.numerals)
      (exec (statements fuel d stop acc) c)
  statement : ∀ d c, c.Scanned → 16 * c.left + 4 < fuel →
    Ends (Took c 0 fun s : Stmt => Spelled s.numerals) (exec (statement fuel d) c)
  letDecl : ∀ d c, c.Scanned → 16 * c.left < fuel →
    Ends (Took c 0 fun s : Stmt => Spelled s.numerals) (exec (letDecl fuel d) c)
  condition : ∀ d c, c.Scanned → 16 * c.left < fuel →
    Ends (Took c 1 fun e : Expr => Spelled e.numerals) (exec (condition fuel d) c)
  branch : ∀ d c, c.Scanned → 16 * c.left + 5 < fuel →
    Ends (Took c 0 fun s : Stmt => Spelled s.numerals) (exec (branch fuel d) c)
  ifStmt : ∀ d c, c.Scanned → 16 * c.left + 1 < fuel →
    Ends (Took c 0 fun s : Stmt => Spelled s.numerals) (exec (ifStmt fuel d) c)
  forStmt : ∀ d c, c.Scanned → 16 * c.left + 1 < fuel →
    Ends (Took c 0 fun s : Stmt => Spelled s.numerals) (exec (forStmt fuel d) c)
  expression : ∀ d minPrec c, c.Scanned → 16 * c.left + 3 < fuel →
    Ends (Took c 0 fun e : Expr => Spelled e.numerals) (exec (expression fuel d minPrec) c)
  operators : ∀ d minPrec left c, c.Scanned → 16 * c.left < fuel → Spelled left.numerals →
    Ends (Took c 0 fun e : Expr => Spelled e.numerals) (exec (operators fuel d minPrec left) c)
  primary : ∀ d c, c.Scanned → 16 * c.left + 2 < fuel →
    Ends (Took c 0 fun e : Expr => Spelled e.numerals) (exec (primary fuel d) c)
  calls : ∀ d callee c, c.Scanned → 16 * c.left + 1 < fuel → Spelled callee.numerals →
    Ends (Took c 0 fun e : Expr => Spelled e.numerals) (exec (calls fuel d callee) c)
  parenthesized : ∀ d c, c.Scanned → 16 * c.left + 1 < fuel →
    Ends (Took c 0 fun e : Expr => Spelled e.numerals) (exec (parenthesized fuel d) c)
  items : ∀ d c, c.Scanned → 16 * c.left < fuel →
    Ends (Took c 1 fun es : List Expr => ∀ e ∈ es, Spelled e.numerals) (exec (items fuel d) c)
  itemsFrom : ∀ d acc c, c.Scanned → 16 * c.left + 4 < fuel → (∀ e ∈ acc, Spelled e.numerals) →
    Ends (Took c 0 fun es : List Expr => ∀ e ∈ es, Spelled e.numerals)
      (exec (itemsFrom fuel d acc) c)

/-- No rule runs without fuel: the bound cannot hold. -/
theorem enough_zero : Enough 0 where
  block _ _ _ _ h := absurd h (Nat.not_lt_zero _)
  statements _ _ _ _ _ h := absurd h (Nat.not_lt_zero _)
  statement _ _ _ h := absurd h (Nat.not_lt_zero _)
  letDecl _ _ _ h := absurd h (Nat.not_lt_zero _)
  condition _ _ _ h := absurd h (Nat.not_lt_zero _)
  branch _ _ _ h := absurd h (Nat.not_lt_zero _)
  ifStmt _ _ _ h := absurd h (Nat.not_lt_zero _)
  forStmt _ _ _ h := absurd h (Nat.not_lt_zero _)
  expression _ _ _ _ h := absurd h (Nat.not_lt_zero _)
  operators _ _ _ _ _ h := absurd h (Nat.not_lt_zero _)
  primary _ _ _ h := absurd h (Nat.not_lt_zero _)
  calls _ _ _ _ h := absurd h (Nat.not_lt_zero _)
  parenthesized _ _ _ h := absurd h (Nat.not_lt_zero _)
  items _ _ _ h := absurd h (Nat.not_lt_zero _)
  itemsFrom _ _ _ _ h := absurd h (Nat.not_lt_zero _)

section Succ

variable {n : Nat} (ih : Enough n)
include ih

theorem enough_block_succ (d : Nat) (braced : Bool) (c : Cursor) (hc : c.Scanned)
    (hf : 16 * c.left + (if braced then 0 else 6) < n + 1) :
    Ends (Took c 0 fun ss : List Stmt => ∀ s ∈ ss, Spelled s.numerals)
      (exec (block (n + 1) d braced) c) := by
  cases braced with
  | true =>
    simp only [if_true] at hf
    simp only [Parse.block, ↓reduceIte]
    refine ends_reach_bind (ends_eat_bind hc (by decide) fun c₁ hs₁ hlt₁ => ?_)
    refine ends_skip_bind hs₁ (by decide) fun c₂ hs₂ hle₂ _ => ?_
    refine ends_bind_took (ih.statements d .closeCurly [] c₂ hs₂ (by omega) (by simp))
      fun body c₃ hb hs₃ hle₃ => ?_
    exact ends_eat_bind hs₃ (by decide) fun c₄ hs₄ hlt₄ => ends_reach_bind ⟨hb, hs₄, by omega⟩
  | false =>
    simp only [Bool.false_eq_true, if_false] at hf
    simp only [Parse.block, Bool.false_eq_true, ↓reduceIte]
    refine ends_reach_bind (ends_skip_bind hc (by decide) fun c₂ hs₂ hle₂ _ => ?_)
    refine ends_bind_took (ih.statements d .eof [] c₂ hs₂ (by omega) (by simp))
      fun body c₃ hb hs₃ hle₃ => ?_
    exact ends_reach_bind ⟨hb, hs₃, by omega⟩

theorem enough_statements_succ (d : Nat) (stop : TokenKind) (acc : List Stmt) (c : Cursor)
    (hc : c.Scanned) (hf : 16 * c.left + 5 < n + 1) (hacc : ∀ s ∈ acc, Spelled s.numerals) :
    Ends (Took c 0 fun ss : List Stmt => ∀ s ∈ ss, Spelled s.numerals)
      (exec (statements (n + 1) d stop acc) c) := by
  simp only [Parse.statements, exec_current_bind]
  split
  · exact ⟨by simpa using hacc, hc, Nat.le_refl _⟩
  · refine ends_bind_took (ih.statement (d + 1) c hc (by omega)) fun s c₁ hs hs₁ hle₁ => ?_
    have hall : ∀ x ∈ (s :: acc).reverse, Spelled x.numerals := by
      simp only [List.reverse_cons, List.mem_append, List.mem_reverse, List.mem_singleton]
      rintro x (hx | rfl)
      · exact hacc x hx
      · exact hs
    -- after a separator the list goes on, one token further
    have hsep : Ends (Took c 0 fun ss : List Stmt => ∀ s ∈ ss, Spelled s.numerals)
        (exec (if c₁.current.kind = .newLine ∨ c₁.current.kind = .semicolon then
          skip (d + 1) separators >>= fun _ => statements n d stop (s :: acc)
          else failAt d c₁.current .separator) c₁) := by
      split
      · rename_i hk
        have hmem : c₁.current.kind ∈ separators := by
          rcases hk with hk | hk <;> simp [hk, separators]
        refine ends_skip_bind hs₁ (by decide) fun c₂ hs₂ _ hlt => ?_
        have hlt₂ := hlt hmem
        exact (ih.statements d stop (s :: acc) c₂ hs₂ (by omega)
          (List.forall_mem_cons.2 ⟨hs, hacc⟩)).took (by omega)
      · exact ends_failAt (by decide)
    rw [exec_current_bind]
    split
    · exact ⟨hall, hs₁, hle₁⟩
    · split
      · exact ends_reach_bind hsep
      · exact hsep

theorem enough_statement_succ (d : Nat) (c : Cursor) (hc : c.Scanned)
    (hf : 16 * c.left + 4 < n + 1) :
    Ends (Took c 0 fun s : Stmt => Spelled s.numerals) (exec (statement (n + 1) d) c) := by
  have hexpr : Ends (Took c 0 fun s : Stmt => Spelled s.numerals)
      (exec (expression n (d + 1) 0 >>= fun e => pure (Stmt.expr e)) c) :=
    ends_bind (ih.expression (d + 1) 0 c hc (by omega)) fun e c' h =>
      ⟨by simpa [Stmt.numerals] using h.1, h.2⟩
  simp only [Parse.statement]
  refine ends_reach_bind ?_
  rw [exec_current_bind]
  -- the current token chooses the rule, as the definition tests it
  split
  · exact ends_bind (ih.block (d + 2) true c hc (by simp only [if_true]; omega)) fun b c' h =>
      ⟨by simpa [Stmt.numerals] using h.1, h.2⟩
  · split
    · split
      · exact ih.letDecl (d + 2) c hc (by omega)
      · split
        · exact ih.ifStmt (d + 2) c hc (by omega)
        · split
          · exact ih.forStmt (d + 2) c hc (by omega)
          · split
            · exact ends_failAt (by decide)
            · split
              · exact ends_failAt (by decide)
              · exact hexpr
    · exact hexpr

theorem enough_letDecl_succ (d : Nat) (c : Cursor) (hc : c.Scanned) (hf : 16 * c.left < n + 1) :
    Ends (Took c 0 fun s : Stmt => Spelled s.numerals) (exec (letDecl (n + 1) d) c) := by
  simp only [Parse.letDecl]
  refine ends_reach_bind (ends_keyword_bind hc fun c₁ hs₁ hle₁ => ?_)
  refine ends_eat_bind hs₁ (by decide) fun c₂ hs₂ hlt₂ => ?_
  split
  · exact ends_failAt_bind (by decide)
  · refine ends_reach_bind ?_
    rw [exec_current_bind]
    split
    · refine ends_advance_bind hs₂ fun c₃ hs₃ hle₃ _ => ?_
      have hinit : Ends (Took c₃ 0 fun o => Spelled (Stmt.letDecl c₁.current.text o).numerals)
          (exec (some <$> expression n (d + 1) assignmentRhsPrecedence) c₃) :=
        ends_map (ih.expression (d + 1) _ c₃ hs₃ (by omega)) fun e c' h =>
          ⟨by simpa [Stmt.numerals] using h.1, h.2⟩
      exact ends_bind_took hinit fun init c₄ hi hs₄ hle₄ => ends_reach_bind ⟨hi, hs₄, by omega⟩
    · refine ends_bind_took (ends_pure (Q := Took c₂ 0 fun o =>
        Spelled (Stmt.letDecl c₁.current.text o).numerals) ⟨by simp [Stmt.numerals], hs₂, by omega⟩)
        fun init c₄ hi hs₄ hle₄ => ends_reach_bind ⟨hi, hs₄, by omega⟩

theorem enough_condition_succ (d : Nat) (c : Cursor) (hc : c.Scanned) (hf : 16 * c.left < n + 1) :
    Ends (Took c 1 fun e : Expr => Spelled e.numerals) (exec (condition (n + 1) d) c) := by
  simp only [Parse.condition]
  refine ends_reach_bind (ends_eat_bind hc (by decide) fun c₁ hs₁ hlt₁ => ?_)
  refine ends_skip_bind hs₁ (by decide) fun c₂ hs₂ hle₂ _ => ?_
  refine ends_bind_took (ih.expression (d + 1) 0 c₂ hs₂ (by omega)) fun e c₃ he hs₃ hle₃ => ?_
  refine ends_skip_bind hs₃ (by decide) fun c₄ hs₄ hle₄ _ => ?_
  exact ends_eat_bind hs₄ (by decide) fun c₅ hs₅ hlt₅ => ⟨he, hs₅, by omega⟩

theorem enough_branch_succ (d : Nat) (c : Cursor) (hc : c.Scanned)
    (hf : 16 * c.left + 5 < n + 1) :
    Ends (Took c 0 fun s : Stmt => Spelled s.numerals) (exec (branch (n + 1) d) c) := by
  simp only [Parse.branch]
  refine ends_reach_bind ?_
  rw [exec_current_bind]
  split
  · exact ends_bind (ih.block (d + 1) true c hc (by simp only [if_true]; omega)) fun b c' h =>
      ⟨by simpa [Stmt.numerals] using h.1, h.2⟩
  · exact ih.statement (d + 1) c hc (by omega)

theorem enough_ifStmt_succ (d : Nat) (c : Cursor) (hc : c.Scanned)
    (hf : 16 * c.left + 1 < n + 1) :
    Ends (Took c 0 fun s : Stmt => Spelled s.numerals) (exec (ifStmt (n + 1) d) c) := by
  simp only [Parse.ifStmt]
  refine ends_reach_bind (ends_keyword_bind hc fun c₁ hs₁ hle₁ => ?_)
  refine ends_bind_took (ih.condition (d + 1) c₁ hs₁ (by omega)) fun e c₂ he hs₂ hle₂ => ?_
  refine ends_bind_took (ih.branch (d + 1) c₂ hs₂ (by omega)) fun th c₃ hth hs₃ hle₃ => ?_
  refine ends_reach_bind ?_
  rw [exec_current_bind]
  -- the else branch, if the next token is `else`
  split
  · refine ends_advance_bind hs₃ fun c₄ hs₄ hle₄ _ => ?_
    have hel : Ends (Took c₄ 0 fun el => Spelled (Stmt.ite e th el).numerals)
        (exec (some <$> branch n (d + 1)) c₄) :=
      ends_map (ih.branch (d + 1) c₄ hs₄ (by omega)) fun el c₅ h =>
        ⟨by simp [Stmt.numerals, he, hth, h.1], h.2⟩
    refine ends_bind_took hel fun el c₅ hel hs₅ hle₅ => ?_
    exact ends_reach_bind ⟨hel, hs₅, by omega⟩
  · refine ends_bind (ends_pure (Q := fun el c' => el = none ∧ c' = c₃) ⟨rfl, rfl⟩) ?_
    rintro _ _ ⟨rfl, rfl⟩
    exact ends_reach_bind ⟨by simp [Stmt.numerals, he, hth], hs₃, by omega⟩

theorem enough_forStmt_succ (d : Nat) (c : Cursor) (hc : c.Scanned)
    (hf : 16 * c.left + 1 < n + 1) :
    Ends (Took c 0 fun s : Stmt => Spelled s.numerals) (exec (forStmt (n + 1) d) c) := by
  simp only [Parse.forStmt]
  refine ends_reach_bind (ends_keyword_bind hc fun c₁ hs₁ hle₁ => ?_)
  refine ends_bind_took (ih.condition (d + 1) c₁ hs₁ (by omega)) fun e c₂ he hs₂ hle₂ => ?_
  refine ends_bind_took (ih.branch (d + 1) c₂ hs₂ (by omega)) fun b c₃ hb hs₃ hle₃ => ?_
  exact ends_reach_bind ⟨by simp [Stmt.numerals, he, hb], hs₃, by omega⟩

theorem enough_expression_succ (d minPrec : Nat) (c : Cursor) (hc : c.Scanned)
    (hf : 16 * c.left + 3 < n + 1) :
    Ends (Took c 0 fun e : Expr => Spelled e.numerals) (exec (expression (n + 1) d minPrec) c) := by
  simp only [Parse.expression]
  refine ends_reach_bind ?_
  refine ends_bind_took (ih.primary (d + 1) c hc (by omega)) fun l c₁ hl hs₁ hle₁ => ?_
  exact (ih.operators d minPrec l c₁ hs₁ (by omega) hl).took (by omega)

theorem enough_operators_succ (d minPrec : Nat) (left : Expr) (c : Cursor) (hc : c.Scanned)
    (hf : 16 * c.left < n + 1) (hleft : Spelled left.numerals) :
    Ends (Took c 0 fun e : Expr => Spelled e.numerals)
      (exec (operators (n + 1) d minPrec left) c) := by
  simp only [Parse.operators, exec_current_bind]
  split
  · rename_i hprec
    refine ends_reach_bind ?_
    split
    · -- an assignment: its value is read from the token after `=`
      rename_i heq
      refine ends_advance_bind hc fun c₁ hs₁ _ hlt₁ => ?_
      have hlt := hlt₁ (by rw [heq]; decide)
      refine ends_bind_took (ih.expression (d + 2) _ c₁ hs₁ (by omega)) fun v c₂ hv hs₂ hle₂ => ?_
      refine ends_reach_bind ?_
      exact (ih.operators d minPrec _ c₂ hs₂ (by omega)
        (by simp [Expr.numerals, hleft, hv])).took (by omega)
    · split
      · -- a binary operator: its right side is read from the token after it
        rename_i op hop
        have hne := BinOp.ne_eof_of_ofKind? hop
        refine ends_reach_bind (ends_advance_bind hc fun c₁ hs₁ _ hlt₁ => ?_)
        have hlt := hlt₁ hne
        refine ends_bind_took (ih.expression (d + 2) _ c₁ hs₁ (by omega)) fun r c₂ hr hs₂ hle₂ => ?_
        refine ends_reach_bind ?_
        exact (ih.operators d minPrec _ c₂ hs₂ (by omega)
          (by simp [Expr.numerals, hleft, hr])).took (by omega)
      · -- no token that binds is left: the branch is dead
        rename_i heq _ hnone
        rcases TokenKind.binds (Nat.lt_of_le_of_lt (Nat.zero_le minPrec) hprec) with h | ⟨op, h⟩
        · exact absurd h heq
        · rw [h] at hnone
          cases hnone
  · exact ⟨hleft, hc, Nat.le_refl _⟩

theorem enough_primary_succ (d : Nat) (c : Cursor) (hc : c.Scanned)
    (hf : 16 * c.left + 2 < n + 1) :
    Ends (Took c 0 fun e : Expr => Spelled e.numerals) (exec (primary (n + 1) d) c) := by
  -- a name, a numeral or a string: its token is taken, then the argument lists after it
  have hatom : ∀ a : Expr, Spelled a.numerals → c.current.kind ≠ .eof →
      Ends (Took c 0 fun e : Expr => Spelled e.numerals)
        (exec (advance (d + 1) >>= fun _ => reach (d + 3) >>= fun _ => calls n (d + 1) a) c) :=
    fun a ha hne => ends_advance_bind hc fun c₁ hs₁ _ hlt₁ => ends_reach_bind <|
      (ih.calls (d + 1) a c₁ hs₁ (by have := hlt₁ hne; omega) ha).took
        (by have := hlt₁ hne; omega)
  simp only [Parse.primary]
  refine ends_reach_bind ?_
  rw [exec_current_bind]
  split
  · rename_i hk
    split
    · exact ends_failAt (by decide)
    · exact hatom _ (by simp [Expr.numerals]) (by rw [hk]; decide)
  · rename_i f hk hform
    exact hatom _ (by simpa [Expr.numerals] using hc.spelled hform hk) (by rw [hk]; decide)
  · rename_i hk
    exact hatom _ (by simp [Expr.numerals]) (by rw [hk]; decide)
  · refine ends_bind_took (ih.parenthesized (d + 1) c hc (by omega)) fun g c₁ hg hs₁ hle₁ => ?_
    exact (ih.calls (d + 1) g c₁ hs₁ (by omega) hg).took (by omega)
  · -- a sign, whose operand is read from the token after it
    refine ends_reach_bind ?_
    split
    · rename_i sg hsg
      have hne := Sign.ne_eof_of_ofKind? hsg
      refine ends_advance_bind hc fun c₁ hs₁ _ hlt₁ => ?_
      have hlt := hlt₁ hne
      refine ends_bind_took (ih.expression (d + 1) _ c₁ hs₁ (by omega)) fun x c₂ hx hs₂ hle₂ => ?_
      exact ends_reach_bind ⟨by simpa [Expr.numerals] using hx, hs₂, by omega⟩
    · exact ends_failAt (by decide)

theorem enough_calls_succ (d : Nat) (callee : Expr) (c : Cursor) (hc : c.Scanned)
    (hf : 16 * c.left + 1 < n + 1) (hcallee : Spelled callee.numerals) :
    Ends (Took c 0 fun e : Expr => Spelled e.numerals) (exec (calls (n + 1) d callee) c) := by
  simp only [Parse.calls]
  refine ends_reach_bind ?_
  rw [exec_current_bind]
  split
  · refine ends_reach_bind ?_
    refine ends_bind_took (ih.items (d + 2) c hc (by omega)) fun args c₁ hargs hs₁ hlt₁ => ?_
    refine ends_reach_bind ?_
    exact (ih.calls d _ c₁ hs₁ (by omega)
      (by simpa [Expr.numerals, hcallee] using hargs)).took (by omega)
  · exact ⟨hcallee, hc, Nat.le_refl _⟩

theorem enough_parenthesized_succ (d : Nat) (c : Cursor) (hc : c.Scanned)
    (hf : 16 * c.left + 1 < n + 1) :
    Ends (Took c 0 fun e : Expr => Spelled e.numerals) (exec (parenthesized (n + 1) d) c) := by
  simp only [Parse.parenthesized]
  refine ends_reach_bind ?_
  refine ends_bind_took (ih.items (d + 1) c hc (by omega)) fun es c₁ hes hs₁ hlt₁ => ?_
  refine ends_reach_bind ?_
  rw [exec_current_bind]
  split
  · -- a function: the list holds its parameters, and its body follows `=>`
    refine ends_reach_bind (ends_eat_bind hs₁ (by decide) fun c₂ hs₂ hlt₂ => ?_)
    split
    · refine ends_bind_took (ih.block (d + 2) true c₂ hs₂ (by simp only [if_true]; omega))
        fun body c₃ hbody hs₃ hle₃ => ?_
      exact ends_reach_bind ⟨by simpa [Expr.numerals] using hbody, hs₃, by omega⟩
    · exact ends_failAt (by decide)
  · split
    · exact ⟨hes _ (List.mem_singleton_self _), hs₁, by omega⟩
    · exact ends_failAt (by decide)

theorem enough_items_succ (d : Nat) (c : Cursor) (hc : c.Scanned) (hf : 16 * c.left < n + 1) :
    Ends (Took c 1 fun es : List Expr => ∀ e ∈ es, Spelled e.numerals)
      (exec (items (n + 1) d) c) := by
  simp only [Parse.items]
  refine ends_reach_bind (ends_eat_bind hc (by decide) fun c₁ hs₁ hlt₁ => ?_)
  refine ends_skip_bind hs₁ (by decide) fun c₂ hs₂ hle₂ _ => ?_
  exact (ih.itemsFrom d [] c₂ hs₂ (by omega) (by simp)).took (by omega)

theorem enough_itemsFrom_succ (d : Nat) (acc : List Expr) (c : Cursor) (hc : c.Scanned)
    (hf : 16 * c.left + 4 < n + 1) (hacc : ∀ e ∈ acc, Spelled e.numerals) :
    Ends (Took c 0 fun es : List Expr => ∀ e ∈ es, Spelled e.numerals)
      (exec (itemsFrom (n + 1) d acc) c) := by
  simp only [Parse.itemsFrom]
  refine ends_reach_bind ?_
  rw [exec_current_bind]
  split
  · exact ends_eat_bind hc (by decide) fun c₁ hs₁ hlt₁ =>
      ⟨by simpa using hacc, hs₁, by omega⟩
  · refine ends_bind_took (ih.expression (d + 1) 0 c hc (by omega)) fun e c₁ he hs₁ hle₁ => ?_
    have hall : ∀ x ∈ (e :: acc).reverse, Spelled x.numerals := by
      simp only [List.reverse_cons, List.mem_append, List.mem_reverse, List.mem_singleton]
      rintro x (hx | rfl)
      · exact hacc x hx
      · exact he
    refine ends_skip_bind hs₁ (by decide) fun c₂ hs₂ hle₂ _ => ?_
    refine ends_reach_bind ?_
    rw [exec_current_bind]
    split
    · -- after a comma the list goes on, one token further
      rename_i hk
      refine ends_advance_bind hs₂ fun c₃ hs₃ hle₃ hlt₃ => ?_
      have hlt := hlt₃ (by rw [hk]; decide)
      refine ends_skip_bind hs₃ (by decide) fun c₄ hs₄ hle₄ _ => ?_
      refine ends_reach_bind ?_
      rw [exec_current_bind]
      split
      · exact ends_failAt_bind (by decide)
      · exact (ih.itemsFrom d (e :: acc) c₄ hs₄ (by omega)
          (List.forall_mem_cons.2 ⟨he, hacc⟩)).took (by omega)
    · exact ends_eat_bind hs₂ (by decide) fun c₃ hs₃ hlt₃ => ⟨hall, hs₃, by omega⟩

end Succ

theorem enough_succ {n : Nat} (ih : Enough n) : Enough (n + 1) where
  block d braced c hc hf := enough_block_succ ih d braced c hc hf
  statements d stop acc c hc hf hacc := enough_statements_succ ih d stop acc c hc hf hacc
  statement d c hc hf := enough_statement_succ ih d c hc hf
  letDecl d c hc hf := enough_letDecl_succ ih d c hc hf
  condition d c hc hf := enough_condition_succ ih d c hc hf
  branch d c hc hf := enough_branch_succ ih d c hc hf
  ifStmt d c hc hf := enough_ifStmt_succ ih d c hc hf
  forStmt d c hc hf := enough_forStmt_succ ih d c hc hf
  expression d minPrec c hc hf := enough_expression_succ ih d minPrec c hc hf
  operators d minPrec left c hc hf hleft := enough_operators_succ ih d minPrec left c hc hf hleft
  primary d c hc hf := enough_primary_succ ih d c hc hf
  calls d callee c hc hf hcallee := enough_calls_succ ih d callee c hc hf hcallee
  parenthesized d c hc hf := enough_parenthesized_succ ih d c hc hf
  items d c hc hf := enough_items_succ ih d c hc hf
  itemsFrom d acc c hc hf hacc := enough_itemsFrom_succ ih d acc c hc hf hacc

/-- Every rule, with any fuel, is enough for the tokens it has left. -/
theorem enough (fuel : Nat) : Enough fuel := by
  induction fuel with
  | zero => exact enough_zero
  | succ n ih => exact enough_succ ih

/-- A whole program read from a scanned cursor with at most `n` tokens left, with the fuel for
`n` tokens, ends in statements whose numerals are spelled, or in an ordinary error. -/
theorem ends_topLevel {n q : Nat} {c : Cursor} (hc : c.Scanned) (hn : c.left ≤ n) :
    Ends (fun (p : Program) _ => ∀ s ∈ p, Spelled s.numerals)
      (exec (topLevel (parseFuel n) q) c) := by
  simp only [topLevel, exec_current_bind]
  refine ends_reach_bind ?_
  refine ends_bind ((enough _).block (q + 1) false c hc ?_) fun p c' h =>
    ends_reach_bind h.1
  simp only [parseFuel, Bool.false_eq_true, if_false]
  omega

end Parse

/-! ## Whole texts -/

/-- Every token the scanner answers before the end spells a lexeme. -/
theorem Scanner.Steps.lexemes {s s' : Scanner} {us : List Token} (h : Scanner.Steps s us s') :
    ∀ t ∈ us, ∃ sp, Lexeme sp t := by
  induction h with
  | nil => simp
  | cons hn hk _ ih =>
    intro t ht
    rcases List.mem_cons.1 ht with rfl | ht
    · obtain ⟨_, sp, -, -, -, -, -, -, hl, -⟩ := Scanner.next_token hn hk
      exact ⟨sp, hl⟩
    · exact ih t ht

/-- The stream of a text: every token before the end spells a lexeme, and the text ends with the
end-of-input token or a fault. -/
theorem TokenStream.ofString_scanned (src : String) :
    (∀ t ∈ (TokenStream.ofString src).tokens, ∃ sp, Lexeme sp t) ∧
      ∀ t, (TokenStream.ofString src).finish = .ok t → t.kind = .eof := by
  obtain ⟨us, s', hsteps, hend⟩ := Scanner.run_ofString_steps src
  rcases hend with ⟨e, s'', hrun⟩ | ⟨s'', hrun⟩
  · simp only [TokenStream.ofString, hrun]
    exact ⟨hsteps.lexemes, fun t ht => by cases ht⟩
  · simp only [TokenStream.ofString, hrun, List.getLast?_concat, List.dropLast_concat]
    refine ⟨hsteps.lexemes, ?_⟩
    rintro t ⟨⟩
    rfl

/-- The cursor on the first token of a scanned stream is scanned, with no more tokens left than
the stream has. -/
theorem Cursor.start_scanned {s : TokenStream} (hts : ∀ t ∈ s.tokens, ∃ sp, Lexeme sp t)
    (hfin : ∀ t, s.finish = .ok t → t.kind = .eof) {c : Cursor} (h : Cursor.start s = .ok c) :
    c.Scanned ∧ c.left ≤ s.tokens.length := by
  obtain ⟨ts, fin⟩ := s
  cases ts with
  | cons t rest =>
    simp only [Cursor.start, Except.ok.injEq] at h
    subst h
    obtain ⟨sp, hl⟩ := hts t List.mem_cons_self
    refine ⟨⟨.inr ⟨sp, hl⟩, fun u hu => hts u (List.mem_cons_of_mem t hu), hfin⟩, ?_⟩
    simp [Cursor.left, hl.kind_ne_eof]
  | nil =>
    cases fin with
    | ok t =>
      simp only [Cursor.start, Except.ok.injEq] at h
      subst h
      have ht := hfin t rfl
      exact ⟨⟨.inl ht, by simp, hfin⟩, by simp [Cursor.left, ht]⟩
    | error e => cases h

theorem Cursor.start_ordinary {s : TokenStream} {e : ParseError} (h : Cursor.start s = .error e) :
    e.Ordinary := by
  obtain ⟨ts, fin⟩ := s
  cases ts with
  | cons t rest => cases h
  | nil =>
    cases fin with
    | ok t => cases h
    | error e' =>
      simp only [Cursor.start, Except.error.injEq] at h
      subst h
      trivial

variable [NestingLimit]

open Parse in
/-- A program read from a scanned stream has its numerals spelled, or the reading ends in an
ordinary error. -/
theorem Program.ofTokens_ends {s : TokenStream} (hts : ∀ t ∈ s.tokens, ∃ sp, Lexeme sp t)
    (hfin : ∀ t, s.finish = .ok t → t.kind = .eof) (q : Nat) :
    match Program.ofTokens s q with
    | .ok p => ∀ st ∈ p, Spelled st.numerals
    | .error e => e.Ordinary := by
  cases hstart : Cursor.start s with
  | error e =>
    simp only [Program.ofTokens, hstart]
    exact Cursor.start_ordinary hstart
  | ok c =>
    obtain ⟨hc, hn⟩ := Cursor.start_scanned hts hfin hstart
    have htop := ends_topLevel (q := q) hc hn
    simp only [Program.ofTokens, hstart]
    show match (exec (topLevel _ q) c >>= fun x => pure x.1 : Except ParseError Program) with
      | .ok p => ∀ st ∈ p, Spelled st.numerals
      | .error e => e.Ordinary
    rcases hrun : exec (topLevel (parseFuel s.tokens.length) q) c with e | ⟨p, c'⟩
    · rw [hrun] at htop
      exact htop
    · rw [hrun] at htop
      exact htop

/-- Reading a text, at any level, fails only with an ordinary error: a fault of the scanner, a
syntax error other than a missing operator, or the nesting limit; never for want of fuel. -/
theorem Program.parseAt_ordinary {q : Nat} {src : String} {e : ParseError}
    (h : Program.parseAt q src = .error e) : e.Ordinary := by
  obtain ⟨hts, hfin⟩ := TokenStream.ofString_scanned src
  have hends := Program.ofTokens_ends hts hfin q
  unfold Program.parseAt at h
  rw [h] at hends
  exact hends

/-- Every numeral of a program read from a text is spelled by the numeral grammar, in the form it
records. -/
theorem Program.parseAt_spelled {q : Nat} {src : String} {p : Program}
    (h : Program.parseAt q src = .ok p) : Spelled (Stmt.listNumerals p) := by
  obtain ⟨hts, hfin⟩ := TokenStream.ofString_scanned src
  have hends := Program.ofTokens_ends hts hfin q
  unfold Program.parseAt at h
  rw [h] at hends
  exact (Stmt.spelled_listNumerals p).2 hends

end Scriptlet.Syntax
