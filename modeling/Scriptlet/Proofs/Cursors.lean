import Scriptlet.Proofs.Reading

/-!
# What reading does to the cursor

Reading moves the cursor only by `Parse.advance`; every other step leaves it where it is, or
fails. So a property of cursors that every move keeps is kept by every rule of the parser
(`Parse.confined`).

One such property is that the cursor stays on the tokens of its stream, and stands on an
end-of-input token only if the stream ends with one (`Cursor.Within`). A program is read up to
the end of input, so a reading that succeeds shows that the scanner read the whole text without a
fault (`Program.ofTokens_finish`).

## Main definitions

* `Parse.Keeps`: a reading that keeps a property of cursors.
* `Parse.Confined`: every rule keeps it.

## Main statements

* `Parse.confined`: every rule keeps every property that moving keeps.
* `Program.ofTokens_finish`: a stream that is read to a program ends with an end-of-input token.
-/

set_option autoImplicit false

namespace Scriptlet.Syntax

namespace Parse

variable {α β : Type} {P : Cursor → Prop}

/-- Reading `x` keeps `P`: from a cursor with `P`, a reading that succeeds stops on a cursor with
`P`. -/
def Keeps (P : Cursor → Prop) (x : Parse α) : Prop :=
  ∀ c, P c → ∀ a c', exec x c = .ok (a, c') → P c'

theorem keeps_pure (a : α) : Keeps P (pure a) := by
  intro c hc b c' h
  simp only [exec_pure, Except.ok.injEq, Prod.mk.injEq] at h
  obtain ⟨-, rfl⟩ := h
  exact hc

theorem keeps_throw (e : ParseError) : Keeps P (throw e : Parse α) :=
  fun _ _ _ _ h => by cases h

theorem Keeps.bind {x : Parse α} {f : α → Parse β} (hx : Keeps P x) (hf : ∀ a, Keeps P (f a)) :
    Keeps P (x >>= f) := by
  intro c hc b c' h
  rw [exec_bind] at h
  rcases hr : exec x c with e | ⟨a, c₁⟩
  · rw [hr] at h
    cases h
  · rw [hr] at h
    exact hf a c₁ (hx c hc a c₁ hr) b c' h

theorem Keeps.map {x : Parse α} {f : α → β} (hx : Keeps P x) : Keeps P (f <$> x) := by
  intro c hc b c' h
  rw [exec_map] at h
  rcases hr : exec x c with e | ⟨a, c₁⟩
  · rw [hr] at h
    cases h
  · rw [hr] at h
    simp only [Except.ok.injEq, Prod.mk.injEq] at h
    obtain ⟨-, rfl⟩ := h
    exact hx c hc a c₁ hr

variable [NestingLimit] in
theorem keeps_reach (n : Nat) : Keeps P (reach n) := by
  intro c hc a c' h
  rw [exec_reach] at h
  split at h
  · cases h
  · simp only [Except.ok.injEq, Prod.mk.injEq] at h
    obtain ⟨-, rfl⟩ := h
    exact hc

theorem keeps_get_bind {f : Cursor → Parse α} (h : ∀ c₀, Keeps P (f c₀)) : Keeps P (get >>= f) :=
  fun c hc => h c c hc

theorem keeps_current_bind {f : Token → Parse α} (h : ∀ t, Keeps P (f t)) :
    Keeps P (current >>= f) :=
  fun c hc => h c.current c hc

theorem keeps_ite {p : Prop} [Decidable p] {x y : Parse α} (hx : Keeps P x) (hy : Keeps P y) :
    Keeps P (if p then x else y) := by
  split
  · exact hx
  · exact hy

variable [NestingLimit]

theorem keeps_failAt (d : Nat) (t : Token) (w : Expectation) : Keeps P (failAt d t w : Parse α) :=
  (keeps_reach _).bind fun _ => keeps_throw _

/-! ## Steps that move -/

section Moves

variable (hP : ∀ a, Keeps P (advance a))
include hP

theorem keeps_eat (d : Nat) (k : TokenKind) : Keeps P (eat d k) :=
  (keeps_reach _).bind fun _ => keeps_current_bind fun _ =>
    keeps_ite ((hP _).bind fun _ => keeps_pure _) (keeps_failAt _ _ _)

theorem keeps_keyword (d : Nat) : Keeps P (keyword d) :=
  (keeps_reach _).bind fun _ => hP _

theorem keeps_skipFor (ks : List TokenKind) (d : Nat) : ∀ fuel, Keeps P (skipFor ks d fuel)
  | 0 => keeps_pure _
  | fuel + 1 => by
    simp only [skipFor]
    have hround : ∀ k : TokenKind, Keeps P (if ks.contains k = true then
        advance (d + 1) >>= fun _ => skipFor ks d fuel else pure ()) := fun _ =>
      keeps_ite ((hP _).bind fun _ => keeps_skipFor ks d fuel) (keeps_pure _)
    exact keeps_current_bind fun t =>
      keeps_ite ((keeps_reach _).bind fun _ => hround t.kind) (hround t.kind)

theorem keeps_skip (d : Nat) (ks : List TokenKind) : Keeps P (skip d ks) :=
  (keeps_reach _).bind fun _ => keeps_get_bind fun _ => keeps_skipFor hP ks d _

end Moves

/-! ## Every rule -/

variable (P) in
/-- Every rule with `fuel` keeps `P`. -/
structure Confined (fuel : Nat) : Prop where
  block : ∀ d braced, Keeps P (block fuel d braced)
  statements : ∀ d stop acc, Keeps P (statements fuel d stop acc)
  statement : ∀ d, Keeps P (statement fuel d)
  letDecl : ∀ d, Keeps P (letDecl fuel d)
  condition : ∀ d, Keeps P (condition fuel d)
  branch : ∀ d, Keeps P (branch fuel d)
  ifStmt : ∀ d, Keeps P (ifStmt fuel d)
  forStmt : ∀ d, Keeps P (forStmt fuel d)
  expression : ∀ d minPrec, Keeps P (expression fuel d minPrec)
  operators : ∀ d minPrec left, Keeps P (operators fuel d minPrec left)
  primary : ∀ d, Keeps P (primary fuel d)
  calls : ∀ d callee, Keeps P (calls fuel d callee)
  parenthesized : ∀ d, Keeps P (parenthesized fuel d)
  items : ∀ d, Keeps P (items fuel d)
  itemsFrom : ∀ d acc, Keeps P (itemsFrom fuel d acc)

theorem confined_zero : Confined P 0 where
  block _ _ := by simp only [Parse.block]; exact keeps_throw _
  statements _ _ _ := by simp only [Parse.statements]; exact keeps_throw _
  statement _ := by simp only [Parse.statement]; exact keeps_throw _
  letDecl _ := by simp only [Parse.letDecl]; exact keeps_throw _
  condition _ := by simp only [Parse.condition]; exact keeps_throw _
  branch _ := by simp only [Parse.branch]; exact keeps_throw _
  ifStmt _ := by simp only [Parse.ifStmt]; exact keeps_throw _
  forStmt _ := by simp only [Parse.forStmt]; exact keeps_throw _
  expression _ _ := by simp only [Parse.expression]; exact keeps_throw _
  operators _ _ _ := by simp only [Parse.operators]; exact keeps_throw _
  primary _ := by simp only [Parse.primary]; exact keeps_throw _
  calls _ _ := by simp only [Parse.calls]; exact keeps_throw _
  parenthesized _ := by simp only [Parse.parenthesized]; exact keeps_throw _
  items _ := by simp only [Parse.items]; exact keeps_throw _
  itemsFrom _ _ := by simp only [Parse.itemsFrom]; exact keeps_throw _

section Succ

variable (hP : ∀ a, Keeps P (advance a)) {n : Nat} (ih : Confined P n)
include hP ih

theorem confined_block_succ (d : Nat) (braced : Bool) : Keeps P (block (n + 1) d braced) := by
  cases braced <;> simp only [Parse.block, Bool.false_eq_true, ↓reduceIte]
  · exact (keeps_reach _).bind fun _ => (keeps_skip hP _ _).bind fun _ =>
      (ih.statements _ _ _).bind fun _ => (keeps_reach _).bind fun _ => keeps_pure _
  · exact (keeps_reach _).bind fun _ => (keeps_eat hP _ _).bind fun _ =>
      (keeps_skip hP _ _).bind fun _ => (ih.statements _ _ _).bind fun _ =>
        (keeps_eat hP _ _).bind fun _ => (keeps_reach _).bind fun _ => keeps_pure _

theorem confined_statements_succ (d : Nat) (stop : TokenKind) (acc : List Stmt) :
    Keeps P (statements (n + 1) d stop acc) := by
  simp only [Parse.statements]
  refine keeps_current_bind fun _ => keeps_ite (keeps_pure _) ?_
  refine (ih.statement _).bind fun s => keeps_current_bind fun t => keeps_ite (keeps_pure _) ?_
  have hrest : Keeps P (if t.kind = .newLine ∨ t.kind = .semicolon then
      skip (d + 1) separators >>= fun _ => statements n d stop (s :: acc)
      else failAt d t .separator) :=
    keeps_ite ((keeps_skip hP _ _).bind fun _ => ih.statements _ _ _) (keeps_failAt _ _ _)
  exact keeps_ite ((keeps_reach _).bind fun _ => hrest) hrest

omit hP in
theorem confined_statement_succ (d : Nat) : Keeps P (statement (n + 1) d) := by
  have hexpr : Keeps P (expression n (d + 1) 0 >>= fun e => pure (Stmt.expr e)) :=
    (ih.expression _ _).bind fun _ => keeps_pure _
  simp only [Parse.statement]
  refine (keeps_reach _).bind fun _ => keeps_current_bind fun _ =>
    keeps_ite ((ih.block _ _).bind fun _ => keeps_pure _) (keeps_ite ?_ hexpr)
  exact keeps_ite (ih.letDecl _) (keeps_ite (ih.ifStmt _) (keeps_ite (ih.forStmt _)
    (keeps_ite (keeps_failAt _ _ _) (keeps_ite (keeps_failAt _ _ _) hexpr))))

theorem confined_letDecl_succ (d : Nat) : Keeps P (letDecl (n + 1) d) := by
  simp only [Parse.letDecl]
  refine (keeps_reach _).bind fun _ => (keeps_keyword hP _).bind fun _ =>
    (keeps_eat hP _ _).bind fun _ => ?_
  have hrest : ∀ name : Token, Keeps P (reach (d + 1) >>= fun _ => current >>= fun t =>
      if t.kind = .equal then
        advance (d + 1) >>= fun _ => (some <$> expression n (d + 1) assignmentRhsPrecedence) >>=
          fun init => reach (d + 3) >>= fun _ => pure (Stmt.letDecl name.text init)
      else pure none >>= fun init => reach (d + 3) >>= fun _ =>
        pure (Stmt.letDecl name.text init)) := fun _ =>
    (keeps_reach _).bind fun _ => keeps_current_bind fun _ =>
      keeps_ite ((hP _).bind fun _ => ((ih.expression _ _).map).bind fun _ =>
          (keeps_reach _).bind fun _ => keeps_pure _)
        ((keeps_pure _).bind fun _ => (keeps_reach _).bind fun _ => keeps_pure _)
  exact keeps_ite ((keeps_failAt _ _ _).bind fun _ => hrest _) (hrest _)

theorem confined_condition_succ (d : Nat) : Keeps P (condition (n + 1) d) := by
  simp only [Parse.condition]
  exact (keeps_reach _).bind fun _ => (keeps_eat hP _ _).bind fun _ => (keeps_skip hP _ _).bind
    fun _ => (ih.expression _ _).bind fun _ => (keeps_skip hP _ _).bind fun _ =>
      (keeps_eat hP _ _).bind fun _ => keeps_pure _

omit hP in
theorem confined_branch_succ (d : Nat) : Keeps P (branch (n + 1) d) := by
  simp only [Parse.branch]
  exact (keeps_reach _).bind fun _ => keeps_current_bind fun _ =>
    keeps_ite ((ih.block _ _).bind fun _ => keeps_pure _) (ih.statement _)

theorem confined_ifStmt_succ (d : Nat) : Keeps P (ifStmt (n + 1) d) := by
  simp only [Parse.ifStmt]
  exact (keeps_reach _).bind fun _ => (keeps_keyword hP _).bind fun _ =>
    (ih.condition _).bind fun _ => (ih.branch _).bind fun _ => (keeps_reach _).bind fun _ =>
      keeps_current_bind fun _ => keeps_ite
        ((hP _).bind fun _ => (ih.branch _).map.bind fun _ => (keeps_reach _).bind fun _ =>
          keeps_pure _)
        ((keeps_pure _).bind fun _ => (keeps_reach _).bind fun _ => keeps_pure _)

theorem confined_forStmt_succ (d : Nat) : Keeps P (forStmt (n + 1) d) := by
  simp only [Parse.forStmt]
  exact (keeps_reach _).bind fun _ => (keeps_keyword hP _).bind fun _ =>
    (ih.condition _).bind fun _ => (ih.branch _).bind fun _ => (keeps_reach _).bind fun _ =>
      keeps_pure _

omit hP in
theorem confined_expression_succ (d minPrec : Nat) : Keeps P (expression (n + 1) d minPrec) := by
  simp only [Parse.expression]
  exact (keeps_reach _).bind fun _ => (ih.primary _).bind fun _ => ih.operators _ _ _

theorem confined_operators_succ (d minPrec : Nat) (left : Expr) :
    Keeps P (operators (n + 1) d minPrec left) := by
  simp only [Parse.operators]
  refine keeps_current_bind fun t => keeps_ite ((keeps_reach _).bind fun _ => ?_) (keeps_pure _)
  refine keeps_ite ((hP _).bind fun _ => (ih.expression _ _).bind fun _ =>
    (keeps_reach _).bind fun _ => ih.operators _ _ _) ?_
  split
  · exact (keeps_reach _).bind fun _ => (hP _).bind fun _ => (ih.expression _ _).bind fun _ =>
      (keeps_reach _).bind fun _ => ih.operators _ _ _
  · exact (keeps_reach _).bind fun _ => keeps_failAt _ _ _

theorem confined_primary_succ (d : Nat) : Keeps P (primary (n + 1) d) := by
  simp only [Parse.primary]
  refine (keeps_reach _).bind fun _ => keeps_current_bind fun t => ?_
  -- a token that is read, then the argument lists after it
  have hatom : ∀ a : Expr, Keeps P (advance (d + 1) >>= fun _ => reach (d + 3) >>= fun _ =>
      calls n (d + 1) a) := fun _ =>
    (hP _).bind fun _ => (keeps_reach _).bind fun _ => ih.calls _ _
  split
  · exact keeps_ite (keeps_failAt _ _ _) (hatom _)
  · exact hatom _
  · exact hatom _
  · exact (ih.parenthesized _).bind fun _ => ih.calls _ _
  · refine (keeps_reach _).bind fun _ => ?_
    split
    · exact (hP _).bind fun _ => (ih.expression _ _).bind fun _ => (keeps_reach _).bind fun _ =>
        keeps_pure _
    · exact keeps_failAt _ _ _

omit hP in
theorem confined_calls_succ (d : Nat) (callee : Expr) : Keeps P (calls (n + 1) d callee) := by
  simp only [Parse.calls]
  exact (keeps_reach _).bind fun _ => keeps_current_bind fun _ => keeps_ite
    ((keeps_reach _).bind fun _ => (ih.items _).bind fun _ => (keeps_reach _).bind fun _ =>
      ih.calls _ _)
    (keeps_pure _)

theorem confined_parenthesized_succ (d : Nat) : Keeps P (parenthesized (n + 1) d) := by
  simp only [Parse.parenthesized]
  refine (keeps_reach _).bind fun _ => (ih.items _).bind fun es => (keeps_reach _).bind fun _ =>
    keeps_current_bind fun _ => keeps_ite ((keeps_reach _).bind fun _ =>
      (keeps_eat hP _ _).bind fun _ => ?_) ?_
  · split
    · exact (ih.block _ _).bind fun _ => (keeps_reach _).bind fun _ => keeps_pure _
    · exact keeps_failAt _ _ _
  · split
    · exact keeps_pure _
    · exact keeps_failAt _ _ _

theorem confined_items_succ (d : Nat) : Keeps P (items (n + 1) d) := by
  simp only [Parse.items]
  exact (keeps_reach _).bind fun _ => (keeps_eat hP _ _).bind fun _ =>
    (keeps_skip hP _ _).bind fun _ => ih.itemsFrom _ _

theorem confined_itemsFrom_succ (d : Nat) (acc : List Expr) :
    Keeps P (itemsFrom (n + 1) d acc) := by
  simp only [Parse.itemsFrom]
  refine (keeps_reach _).bind fun _ => keeps_current_bind fun _ =>
    keeps_ite ((keeps_eat hP _ _).bind fun _ => keeps_pure _) ?_
  refine (ih.expression _ _).bind fun _ => (keeps_skip hP _ _).bind fun _ =>
    (keeps_reach _).bind fun _ => keeps_current_bind fun _ => keeps_ite ?_
      ((keeps_eat hP _ _).bind fun _ => keeps_pure _)
  exact (hP _).bind fun _ => (keeps_skip hP _ _).bind fun _ => (keeps_reach _).bind fun _ =>
    keeps_current_bind fun _ => keeps_ite ((keeps_failAt _ _ _).bind fun _ => ih.itemsFrom _ _)
      (ih.itemsFrom _ _)

end Succ

theorem confined_succ (hP : ∀ a, Keeps P (advance a)) {n : Nat} (ih : Confined P n) :
    Confined P (n + 1) where
  block := confined_block_succ hP ih
  statements := confined_statements_succ hP ih
  statement := confined_statement_succ ih
  letDecl := confined_letDecl_succ hP ih
  condition := confined_condition_succ hP ih
  branch := confined_branch_succ ih
  ifStmt := confined_ifStmt_succ hP ih
  forStmt := confined_forStmt_succ hP ih
  expression := confined_expression_succ ih
  operators := confined_operators_succ hP ih
  primary := confined_primary_succ hP ih
  calls := confined_calls_succ ih
  parenthesized := confined_parenthesized_succ hP ih
  items := confined_items_succ hP ih
  itemsFrom := confined_itemsFrom_succ hP ih

/-- Every rule keeps a property of cursors that every move keeps. -/
theorem confined (hP : ∀ a, Keeps P (advance a)) : ∀ fuel, Confined P fuel
  | 0 => confined_zero
  | fuel + 1 => confined_succ hP (confined hP fuel)

/-! ## Where a reading stops -/

omit [NestingLimit] in
/-- A sequence that succeeds ran both its parts to the end. -/
theorem exec_bind_eq_ok {x : Parse α} {f : α → Parse β} {c c' : Cursor} {b : β}
    (h : exec (x >>= f) c = .ok (b, c')) : ∃ a c₁, exec x c = .ok (a, c₁) ∧ exec (f a) c₁ = .ok (b, c') := by
  rw [exec_bind] at h
  rcases hx : exec x c with e | ⟨a, c₁⟩
  · rw [hx] at h
    cases h
  · rw [hx] at h
    exact ⟨a, c₁, rfl, h⟩

theorem reach_bind_eq_ok {n : Nat} {f : Unit → Parse α} {c c' : Cursor} {a : α}
    (h : exec (reach n >>= f) c = .ok (a, c')) : exec (f ()) c = .ok (a, c') := by
  obtain ⟨_, c₁, hr, h⟩ := exec_bind_eq_ok h
  rw [exec_reach] at hr
  split at hr
  · cases hr
  · simp only [Except.ok.injEq, Prod.mk.injEq] at hr
    rw [hr.2]
    exact h

theorem failAt_ne_ok {d : Nat} {t : Token} {w : Expectation} {c c' : Cursor} {a : α} :
    exec (failAt d t w : Parse α) c ≠ .ok (a, c') := fun h => by
  have h := reach_bind_eq_ok h
  cases h

/-- A list of statements stops where the token of its kind `stop` stands. -/
theorem statements_stop {stop : TokenKind} :
    ∀ fuel d acc {c c' : Cursor} {r : List Stmt},
      exec (statements fuel d stop acc) c = .ok (r, c') → c'.current.kind = stop
  | 0, _, _, _, _, _, h => by simp only [Parse.statements] at h; cases h
  | fuel + 1, d, acc, c, c', r, h => by
    simp only [Parse.statements, exec_current_bind] at h
    split at h
    · simp only [exec_pure, Except.ok.injEq, Prod.mk.injEq] at h
      obtain ⟨-, rfl⟩ := h
      assumption
    obtain ⟨s, c₁, -, h⟩ := exec_bind_eq_ok h
    rw [exec_current_bind] at h
    split at h
    · simp only [exec_pure, Except.ok.injEq, Prod.mk.injEq] at h
      obtain ⟨-, rfl⟩ := h
      assumption
    -- after a separator the list goes on, and stops where it stops
    have hrest : ∀ {c₂ : Cursor}, exec (if c₁.current.kind = .newLine ∨
        c₁.current.kind = .semicolon then skip (d + 1) separators >>= fun _ =>
          statements fuel d stop (s :: acc)
        else failAt d c₁.current .separator) c₂ = .ok (r, c') → c'.current.kind = stop := by
      intro c₂ h₂
      split at h₂
      · obtain ⟨_, c₃, -, h₃⟩ := exec_bind_eq_ok h₂
        exact statements_stop fuel d (s :: acc) h₃
      · exact absurd h₂ failAt_ne_ok
    split at h
    · exact hrest (reach_bind_eq_ok h)
    · exact hrest h

/-- A program is read up to the end of input. -/
theorem topLevel_stop {fuel q : Nat} {c c' : Cursor} {p : Program}
    (h : exec (topLevel fuel q) c = .ok (p, c')) : c'.current.kind = .eof := by
  simp only [topLevel, exec_current_bind] at h
  obtain ⟨_, c₁, hb, h⟩ := exec_bind_eq_ok (reach_bind_eq_ok h)
  have h := reach_bind_eq_ok h
  simp only [exec_pure, Except.ok.injEq, Prod.mk.injEq] at h
  obtain ⟨-, rfl⟩ := h
  cases fuel with
  | zero => simp only [Parse.block] at hb; cases hb
  | succ fuel =>
    simp only [Parse.block, Bool.false_eq_true, ↓reduceIte] at hb
    obtain ⟨_, c₂, -, hb⟩ := exec_bind_eq_ok (reach_bind_eq_ok hb)
    obtain ⟨_, c₃, hs, hb⟩ := exec_bind_eq_ok hb
    have hb := reach_bind_eq_ok hb
    simp only [exec_pure, Except.ok.injEq, Prod.mk.injEq] at hb
    obtain ⟨-, rfl⟩ := hb
    exact statements_stop fuel _ _ hs

end Parse

/-- The cursor stays on the tokens of a stream that ends with `finish`: no token ahead is an end
of input, and the cursor stands on an end of input only if the stream ends with one. -/
structure Cursor.Within (finish : Except LexError Token) (c : Cursor) : Prop where
  finish_eq : c.finish = finish
  ahead : ∀ t ∈ c.ahead, t.kind ≠ .eof
  current : c.current.kind = .eof → ∃ e, finish = .ok e

variable [NestingLimit]

/-- Moving keeps the cursor on the tokens of its stream. -/
theorem Cursor.keeps_within (finish : Except LexError Token) (a : Nat) :
    Parse.Keeps (Cursor.Within finish) (Parse.advance a) := by
  intro c hc u c' h
  simp only [Parse.advance, Parse.exec_get_bind] at h
  split at h
  · rename_i t rest hahead
    have h := Parse.reach_bind_eq_ok h
    simp only [Parse.exec_set, Except.ok.injEq, Prod.mk.injEq] at h
    obtain ⟨-, rfl⟩ := h
    have hmem : ∀ x ∈ rest, x ∈ c.ahead := fun x hx => by
      rw [hahead]
      exact List.mem_cons_of_mem t hx
    exact ⟨hc.finish_eq, fun x hx => hc.ahead x (hmem x hx),
      fun he => absurd he (hc.ahead t (by rw [hahead]; exact List.mem_cons_self))⟩
  · split at h
    · rename_i t hfin
      have h := Parse.reach_bind_eq_ok h
      simp only [Parse.exec_set, Except.ok.injEq, Prod.mk.injEq] at h
      obtain ⟨-, rfl⟩ := h
      exact ⟨hc.finish_eq, hc.ahead, fun _ => ⟨t, hc.finish_eq ▸ hfin⟩⟩
    · have h := Parse.reach_bind_eq_ok h
      cases h

omit [NestingLimit] in
/-- The first cursor of a stream whose tokens are no end of input stays on its tokens. -/
theorem Cursor.start_within {s : TokenStream} (hs : ∀ t ∈ s.tokens, t.kind ≠ .eof) {c : Cursor}
    (h : Cursor.start s = .ok c) : c.Within s.finish := by
  obtain ⟨ts, fin⟩ := s
  cases ts with
  | cons t rest =>
    simp only [Cursor.start, Except.ok.injEq] at h
    subst h
    exact ⟨rfl, fun u hu => hs u (List.mem_cons_of_mem t hu),
      fun he => absurd he (hs t List.mem_cons_self)⟩
  | nil =>
    cases fin with
    | ok t =>
      simp only [Cursor.start, Except.ok.injEq] at h
      subst h
      exact ⟨rfl, nofun, fun _ => ⟨t, rfl⟩⟩
    | error e => cases h

/-- A program read from a stream is the reading of the whole program from its first cursor. -/
theorem Program.ofTokens_eq_ok {s : TokenStream} {q : Nat} {p : Program}
    (h : Program.ofTokens s q = .ok p) :
    ∃ c c', Cursor.start s = .ok c ∧
      Parse.exec (Parse.topLevel (parseFuel s.tokens.length) q) c = .ok (p, c') := by
  cases hstart : Cursor.start s with
  | error e =>
    simp only [Program.ofTokens, hstart] at h
    cases h
  | ok c =>
    simp only [Program.ofTokens, hstart] at h
    change (Parse.exec (Parse.topLevel _ q) c >>= fun x => pure x.1 :
      Except ParseError Program) = .ok p at h
    rcases hrun : Parse.exec (Parse.topLevel (parseFuel s.tokens.length) q) c with e | ⟨p', c'⟩
    · rw [hrun] at h
      cases h
    · rw [hrun] at h
      cases h
      exact ⟨c, c', rfl, hrun⟩

/-- A stream that is read to a program, and whose tokens are no end of input, ends with an
end-of-input token: the reading stops on one, and the cursor never leaves its stream. -/
theorem Program.ofTokens_finish {s : TokenStream} (hs : ∀ t ∈ s.tokens, t.kind ≠ .eof)
    {q : Nat} {p : Program} (h : Program.ofTokens s q = .ok p) : ∃ e, s.finish = .ok e := by
  obtain ⟨c, c', hstart, hrun⟩ := Program.ofTokens_eq_ok h
  have hkeep : Parse.Keeps (Cursor.Within s.finish) (Parse.topLevel (parseFuel s.tokens.length) q) :=
    Parse.keeps_current_bind fun _ => (Parse.keeps_reach _).bind fun _ =>
      ((Parse.confined (Cursor.keeps_within s.finish) _).block _ _).bind fun _ =>
        (Parse.keeps_reach _).bind fun _ => Parse.keeps_pure _
  exact (hkeep c (Cursor.start_within hs hstart) p c' hrun).current (Parse.topLevel_stop hrun)

end Scriptlet.Syntax
