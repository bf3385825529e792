import Scriptlet.Proofs.Seams

/-!
# Every rule reads a piece alike, alone and inside a longer text

A piece of text read by itself and the same piece followed by a line feed and more text are read
alike by every rule of the parser (`Seam.reads`): whenever a rule reads the piece alone to a
value, it reads the longer text to the same value with its offsets moved, and both readings stop
at the same place of the piece. The rules look at the token after the piece only to stop: a line
feed, like the end of input, binds no operator, opens no argument list and is no `else`. Where a
rule skips line feeds and would skip into what follows the piece, the piece read alone fails at
its end, so there is nothing to compare.

The comparison also holds with more fuel for the longer text, so the same statement gives that
more fuel never changes a reading that succeeds.

## Main definitions

* `Seam.Reads`: every rule reads alike, with fuel `fuel` alone and `fuel'` in the longer text.

## Main statements

* `Seam.reads`: every rule reads alike, given at least as much fuel in the longer text.
-/

set_option autoImplicit false

namespace Scriptlet.Syntax

namespace Parse

/-! ## Reading at the end of input

At the end of input every rule that must read a token fails. -/

section AtEnd

variable {c : Cursor} (hc : c.current.kind = .eof)
include hc

variable [NestingLimit]

theorem fails_eat {K : TokenKind} (hK : K ≠ .eof) (d : Nat) : Fails (eat d K) c := by
  simp only [eat]
  refine Fails.reach_bind fun a c' hr => ?_
  rw [exec_current_bind, if_neg (by rw [hc]; exact Ne.symm hK)] at hr
  exact Fails.failAt a c' hr

theorem fails_primary : ∀ fuel d, Fails (primary fuel d) c
  | 0, _ => by simp only [primary]; exact Fails.throw
  | fuel + 1, d => by
    simp only [primary]
    refine Fails.reach_bind fun a c' hr => ?_
    -- the end of input is neither an operand nor a sign
    simp only [exec_current_bind, hc] at hr
    exact Fails.reach_bind Fails.failAt a c' hr

theorem fails_expression : ∀ fuel d minPrec, Fails (expression fuel d minPrec) c
  | 0, _, _ => by simp only [expression]; exact Fails.throw
  | fuel + 1, d, _ => by
    simp only [expression]
    exact Fails.reach_bind (Fails.bind (fails_primary hc fuel (d + 1)))

theorem fails_statement : ∀ fuel d, Fails (statement fuel d) c
  | 0, _ => by simp only [statement]; exact Fails.throw
  | fuel + 1, d => by
    simp only [statement]
    refine Fails.reach_bind fun a c' hr => ?_
    simp only [exec_current_bind, hc, reduceCtorEq, if_false] at hr
    exact Fails.bind (fails_expression hc fuel (d + 1) 0) a c' hr

theorem fails_statements {stop : TokenKind} (hstop : stop ≠ .eof) :
    ∀ fuel d acc, Fails (statements fuel d stop acc) c
  | 0, _, _ => by simp only [statements]; exact Fails.throw
  | fuel + 1, d, _ => by
    simp only [statements]
    intro a c' hr
    rw [exec_current_bind, if_neg (by rw [hc]; exact Ne.symm hstop)] at hr
    exact Fails.bind (fails_statement hc fuel (d + 1)) a c' hr

theorem fails_itemsFrom : ∀ fuel d acc, Fails (itemsFrom fuel d acc) c
  | 0, _, _ => by simp only [itemsFrom]; exact Fails.throw
  | fuel + 1, d, _ => by
    simp only [itemsFrom]
    refine Fails.reach_bind fun a c' hr => ?_
    rw [exec_current_bind, if_neg (by rw [hc]; decide)] at hr
    exact Fails.bind (fails_expression hc fuel (d + 1) 0) a c' hr

end AtEnd

end Parse

namespace Seam

variable {σ : Seam}

/-! ## Choices and stops -/

/-- Both readings take the same branch of a choice. -/
theorem Alike.cond {α β : Type} {V : α → β → Prop} {p q : Prop} [Decidable p] [Decidable q]
    {x y : Parse α} {x' y' : Parse β} {c₁ c₂ : Cursor} (hpq : p ↔ q)
    (ht : p → σ.Alike V (Parse.exec x c₁) (Parse.exec x' c₂))
    (he : ¬p → σ.Alike V (Parse.exec y c₁) (Parse.exec y' c₂)) :
    σ.Alike V (Parse.exec (if p then x else y) c₁) (Parse.exec (if q then x' else y') c₂) := by
  by_cases h : p
  · rw [if_pos h, if_pos (hpq.1 h)]
    exact ht h
  · rw [if_neg h, if_neg (mt hpq.2 h)]
    exact he h

variable (σ) in
/-- Where the statements of a piece may stop: at a closing brace, or at the end of input when
nothing follows the piece. -/
def Stops (stop : TokenKind) : Prop :=
  stop = .closeCurly ∨ stop = .eof ∧ σ.next.kind = .eof

theorem Joins.stop_iff {c₁ c₂ : Cursor} (h : σ.Joins c₁ c₂) {stop : TokenKind}
    (hs : σ.Stops stop) : c₁.current.kind = stop ↔ c₂.current.kind = stop := by
  rcases hs with rfl | ⟨rfl, hn⟩
  · exact h.kind_iff (by decide) (by decide)
  · rcases h.cases with ⟨u, us, -, -, rfl, rfl⟩ | ⟨rfl, rfl⟩
    · rfl
    · simp only [Cursor.onto_current, List.headD_nil, σ.endAlone_kind, true_iff]
      exact hn

/-- `else` is seen alike: at the end of the piece neither reading sees a word. -/
theorem Joins.isWord {c₁ c₂ : Cursor} (h : σ.Joins c₁ c₂) (w : String) :
    c₂.current.isWord w = c₁.current.isWord w := by
  rcases h.cases with ⟨u, us, -, -, rfl, rfl⟩ | ⟨rfl, rfl⟩
  · rfl
  · have hn : σ.next.kind ≠ .identifier := next_kind_ne (by decide) (by decide)
    have hb : (σ.next.kind == .identifier) = false := by simpa using hn
    simp only [Cursor.onto_current, List.headD_nil, Token.isWord, σ.endAlone_kind]
    rw [show σ.more.headD σ.endJoined = σ.next from rfl, hb, Bool.false_and]
    rfl

/-! ## Every rule, read alike -/

variable [NestingLimit]

variable (σ) in
/-- Every rule reads the piece alone with `fuel` and the longer text with `fuel'` alike: the
values read in the longer text are those read alone with their offsets moved. A rule that starts
on a keyword starts inside the piece. -/
structure Reads (fuel fuel' : Nat) : Prop where
  block : ∀ d c₁ c₂, σ.Joins c₁ c₂ →
    σ.Alike (fun ss ss' => ss' = ss.map (Stmt.shift σ.offset))
      (Parse.exec (Parse.block fuel d true) c₁) (Parse.exec (Parse.block fuel' d true) c₂)
  statements : ∀ d stop acc c₁ c₂, σ.Stops stop → σ.Joins c₁ c₂ →
    σ.Alike (fun ss ss' => ss' = ss.map (Stmt.shift σ.offset))
      (Parse.exec (Parse.statements fuel d stop acc) c₁)
      (Parse.exec (Parse.statements fuel' d stop (acc.map (Stmt.shift σ.offset))) c₂)
  statement : ∀ d c₁ c₂, σ.Joins c₁ c₂ →
    σ.Alike (fun s s' => s' = s.shift σ.offset)
      (Parse.exec (Parse.statement fuel d) c₁) (Parse.exec (Parse.statement fuel' d) c₂)
  letDecl : ∀ d c₁ c₂, σ.Joins c₁ c₂ → c₁.current.kind ≠ .eof →
    σ.Alike (fun s s' => s' = s.shift σ.offset)
      (Parse.exec (Parse.letDecl fuel d) c₁) (Parse.exec (Parse.letDecl fuel' d) c₂)
  condition : ∀ d c₁ c₂, σ.Joins c₁ c₂ →
    σ.Alike (fun e e' => e' = e.shift σ.offset)
      (Parse.exec (Parse.condition fuel d) c₁) (Parse.exec (Parse.condition fuel' d) c₂)
  branch : ∀ d c₁ c₂, σ.Joins c₁ c₂ →
    σ.Alike (fun s s' => s' = s.shift σ.offset)
      (Parse.exec (Parse.branch fuel d) c₁) (Parse.exec (Parse.branch fuel' d) c₂)
  ifStmt : ∀ d c₁ c₂, σ.Joins c₁ c₂ → c₁.current.kind ≠ .eof →
    σ.Alike (fun s s' => s' = s.shift σ.offset)
      (Parse.exec (Parse.ifStmt fuel d) c₁) (Parse.exec (Parse.ifStmt fuel' d) c₂)
  forStmt : ∀ d c₁ c₂, σ.Joins c₁ c₂ → c₁.current.kind ≠ .eof →
    σ.Alike (fun s s' => s' = s.shift σ.offset)
      (Parse.exec (Parse.forStmt fuel d) c₁) (Parse.exec (Parse.forStmt fuel' d) c₂)
  expression : ∀ d minPrec c₁ c₂, σ.Joins c₁ c₂ →
    σ.Alike (fun e e' => e' = e.shift σ.offset)
      (Parse.exec (Parse.expression fuel d minPrec) c₁)
      (Parse.exec (Parse.expression fuel' d minPrec) c₂)
  operators : ∀ d minPrec left c₁ c₂, σ.Joins c₁ c₂ →
    σ.Alike (fun e e' => e' = e.shift σ.offset)
      (Parse.exec (Parse.operators fuel d minPrec left) c₁)
      (Parse.exec (Parse.operators fuel' d minPrec (left.shift σ.offset)) c₂)
  primary : ∀ d c₁ c₂, σ.Joins c₁ c₂ →
    σ.Alike (fun e e' => e' = e.shift σ.offset)
      (Parse.exec (Parse.primary fuel d) c₁) (Parse.exec (Parse.primary fuel' d) c₂)
  calls : ∀ d callee c₁ c₂, σ.Joins c₁ c₂ →
    σ.Alike (fun e e' => e' = e.shift σ.offset)
      (Parse.exec (Parse.calls fuel d callee) c₁)
      (Parse.exec (Parse.calls fuel' d (callee.shift σ.offset)) c₂)
  parenthesized : ∀ d c₁ c₂, σ.Joins c₁ c₂ →
    σ.Alike (fun e e' => e' = e.shift σ.offset)
      (Parse.exec (Parse.parenthesized fuel d) c₁) (Parse.exec (Parse.parenthesized fuel' d) c₂)
  items : ∀ d c₁ c₂, σ.Joins c₁ c₂ →
    σ.Alike (fun es es' => es' = es.map (Expr.shift σ.offset))
      (Parse.exec (Parse.items fuel d) c₁) (Parse.exec (Parse.items fuel' d) c₂)
  itemsFrom : ∀ d acc c₁ c₂, σ.Joins c₁ c₂ →
    σ.Alike (fun es es' => es' = es.map (Expr.shift σ.offset))
      (Parse.exec (Parse.itemsFrom fuel d acc) c₁)
      (Parse.exec (Parse.itemsFrom fuel' d (acc.map (Expr.shift σ.offset))) c₂)

/-- Without fuel the piece alone is not read at all. -/
theorem reads_zero (fuel' : Nat) : σ.Reads 0 fuel' where
  block _ _ _ _ := by simp only [Parse.block]; exact Alike.throw _
  statements _ _ _ _ _ _ _ := by simp only [Parse.statements]; exact Alike.throw _
  statement _ _ _ _ := by simp only [Parse.statement]; exact Alike.throw _
  letDecl _ _ _ _ _ := by simp only [Parse.letDecl]; exact Alike.throw _
  condition _ _ _ _ := by simp only [Parse.condition]; exact Alike.throw _
  branch _ _ _ _ := by simp only [Parse.branch]; exact Alike.throw _
  ifStmt _ _ _ _ _ := by simp only [Parse.ifStmt]; exact Alike.throw _
  forStmt _ _ _ _ _ := by simp only [Parse.forStmt]; exact Alike.throw _
  expression _ _ _ _ _ := by simp only [Parse.expression]; exact Alike.throw _
  operators _ _ _ _ _ _ := by simp only [Parse.operators]; exact Alike.throw _
  primary _ _ _ _ := by simp only [Parse.primary]; exact Alike.throw _
  calls _ _ _ _ _ := by simp only [Parse.calls]; exact Alike.throw _
  parenthesized _ _ _ _ := by simp only [Parse.parenthesized]; exact Alike.throw _
  items _ _ _ _ := by simp only [Parse.items]; exact Alike.throw _
  itemsFrom _ _ _ _ _ := by simp only [Parse.itemsFrom]; exact Alike.throw _

omit [NestingLimit] in
/-- The piece alone ends on its end of input. -/
theorem atEnd_kind : (Cursor.onto [] σ.endAlone).current.kind = .eof := σ.endAlone_kind

section Succ

variable {n n' : Nat} (ih : σ.Reads n n')
include ih

theorem reads_block_succ (d : Nat) {c₁ c₂ : Cursor} (h : σ.Joins c₁ c₂) :
    σ.Alike (fun ss ss' => ss' = ss.map (Stmt.shift σ.offset))
      (Parse.exec (Parse.block (n + 1) d true) c₁)
      (Parse.exec (Parse.block (n' + 1) d true) c₂) := by
  simp only [Parse.block, ↓reduceIte]
  refine Alike.reach_bind fun _ => (h.eat (by decide) _).bind fun _ _ c₃ c₄ _ h₃ => ?_
  refine Joins.skip_bind (by decide) _ (fun c₅ c₆ h₅ => ?_)
    (fun _ => (Parse.fails_statements atEnd_kind (by decide) n d []).bind) h₃
  refine (ih.statements d .closeCurly [] c₅ c₆ (.inl rfl) h₅).bind
    fun body body' c₇ c₈ hbody h₇ => ?_
  exact (h₇.eat (by decide) _).bind fun _ _ _ _ _ h₉ => Alike.reach_bind fun _ => Alike.ok hbody h₉

theorem reads_statements_succ (d : Nat) (stop : TokenKind) (acc : List Stmt) {c₁ c₂ : Cursor}
    (hs : σ.Stops stop) (h : σ.Joins c₁ c₂) :
    σ.Alike (fun ss ss' => ss' = ss.map (Stmt.shift σ.offset))
      (Parse.exec (Parse.statements (n + 1) d stop acc) c₁)
      (Parse.exec (Parse.statements (n' + 1) d stop (acc.map (Stmt.shift σ.offset))) c₂) := by
  simp only [Parse.statements, Parse.exec_current_bind]
  refine Alike.cond (h.stop_iff hs) (fun _ => Alike.ok (by simp) h) fun _ => ?_
  refine (ih.statement (d + 1) c₁ c₂ h).bind fun s s' c₁' c₂' hs' h' => ?_
  subst hs'
  simp only [Parse.exec_current_bind]
  refine Alike.cond (h'.stop_iff hs) (fun _ => Alike.ok (by simp) h') fun _ => ?_
  -- after the statement comes a separator, or the end of the piece
  rcases h'.cases with ⟨u, us, hu, hus, rfl, rfl⟩ | ⟨rfl, rfl⟩
  · have hj : σ.Joins (Cursor.onto (u :: us) σ.endAlone)
        (Cursor.onto (u.shift σ.offset :: (us.map (Token.shift σ.offset) ++ σ.more))
          σ.endJoined) :=
      ⟨u :: us, List.forall_mem_cons.2 ⟨hu, hus⟩, rfl, rfl⟩
    simp only [Cursor.onto_current, List.headD_cons, Token.kind_shift]
    refine Alike.cond Iff.rfl (fun _ => Alike.reach_bind fun _ => ?_) fun _ => ?_
    -- both branches go on alike: past separators to more statements, or to a syntax error
    all_goals
      refine Alike.cond Iff.rfl (fun _ => Joins.skip_bind (by decide) _
        (fun c₃ c₄ h₃ => ih.statements d stop (s :: acc) c₃ c₄ hs h₃) (fun hsep => ?_) hj)
        fun _ => Alike.failAt _
      -- skipping into what follows the piece: the piece's statements must end at a brace
      rcases hs with rfl | ⟨rfl, hn⟩
      · exact Parse.fails_statements atEnd_kind (by decide) n d _
      · rw [hn] at hsep
        exact absurd hsep (by decide)
  · -- at the end of the piece a list of statements that goes on fails
    refine Alike.error ?_ _
    have hk : (Cursor.onto [] σ.endAlone).current.kind = .eof := atEnd_kind
    rw [if_pos (by rw [hk]; decide)]
    refine Parse.Fails.reach_bind ?_
    rw [if_neg (by rw [hk]; decide)]
    exact Parse.Fails.failAt

theorem reads_statement_succ (d : Nat) {c₁ c₂ : Cursor} (h : σ.Joins c₁ c₂) :
    σ.Alike (fun s s' => s' = s.shift σ.offset)
      (Parse.exec (Parse.statement (n + 1) d) c₁) (Parse.exec (Parse.statement (n' + 1) d) c₂) := by
  have hexpr : σ.Alike (fun s s' => s' = s.shift σ.offset)
      (Parse.exec (Parse.expression n (d + 1) 0 >>= fun e => pure (Stmt.expr e)) c₁)
      (Parse.exec (Parse.expression n' (d + 1) 0 >>= fun e => pure (Stmt.expr e)) c₂) :=
    (ih.expression (d + 1) 0 c₁ c₂ h).bind fun _ _ _ _ he hj => Alike.ok (by rw [he]; rfl) hj
  simp only [Parse.statement]
  refine Alike.reach_bind fun _ => ?_
  simp only [Parse.exec_current_bind]
  refine Alike.cond (h.kind_iff (by decide) (by decide)) (fun _ => ?_) fun _ => ?_
  · exact (ih.block (d + 2) c₁ c₂ h).bind fun _ _ _ _ hb hj =>
      Alike.ok (by rw [hb, Stmt.shift_block]) hj
  refine Alike.cond (h.kind_iff (by decide) (by decide)) (fun hid => ?_) fun _ => hexpr
  -- a word: the keywords are told apart by the same text in both readings
  have hc : c₁.current.kind ≠ .eof := by rw [hid]; decide
  rw [h.current_of_ne hc]
  simp only [Token.text_shift]
  refine Alike.cond Iff.rfl (fun _ => ih.letDecl (d + 2) c₁ c₂ h hc) fun _ => ?_
  refine Alike.cond Iff.rfl (fun _ => ih.ifStmt (d + 2) c₁ c₂ h hc) fun _ => ?_
  refine Alike.cond Iff.rfl (fun _ => ih.forStmt (d + 2) c₁ c₂ h hc) fun _ => ?_
  refine Alike.cond Iff.rfl (fun _ => Alike.failAt _) fun _ => ?_
  exact Alike.cond Iff.rfl (fun _ => Alike.failAt _) fun _ => hexpr

theorem reads_letDecl_succ (d : Nat) {c₁ c₂ : Cursor} (h : σ.Joins c₁ c₂)
    (hc : c₁.current.kind ≠ .eof) :
    σ.Alike (fun s s' => s' = s.shift σ.offset)
      (Parse.exec (Parse.letDecl (n + 1) d) c₁) (Parse.exec (Parse.letDecl (n' + 1) d) c₂) := by
  simp only [Parse.letDecl]
  refine Alike.reach_bind fun _ => (h.keyword hc _).bind fun _ _ c₃ c₄ _ h₃ => ?_
  refine (h₃.eat (by decide) _).bind fun name _ c₅ c₆ hname h₅ => ?_
  subst hname
  simp only [Token.text_shift]
  -- a reserved word fails; the rest is read alike
  refine Alike.cond Iff.rfl (fun _ => Alike.error (Parse.Fails.bind Parse.Fails.failAt) _)
    fun _ => Alike.reach_bind fun _ => ?_
  simp only [Parse.exec_current_bind, bind_map_left, pure_bind]
  -- an initializer follows `=`, inside the piece
  refine Alike.cond (h₅.kind_iff (by decide) (by decide)) (fun heq => ?_) fun _ =>
    Alike.reach_bind fun _ => Alike.ok rfl h₅
  refine (h₅.advance (by rw [heq]; decide) _).bind fun _ _ c₇ c₈ _ h₇ => ?_
  refine (ih.expression (d + 1) 0 c₇ c₈ h₇).bind fun _ _ _ _ he h₉ => ?_
  refine Alike.reach_bind fun _ => Alike.ok ?_ h₉
  rw [he, Stmt.shift_letDecl]
  rfl

theorem reads_condition_succ (d : Nat) {c₁ c₂ : Cursor} (h : σ.Joins c₁ c₂) :
    σ.Alike (fun e e' => e' = e.shift σ.offset)
      (Parse.exec (Parse.condition (n + 1) d) c₁) (Parse.exec (Parse.condition (n' + 1) d) c₂) := by
  simp only [Parse.condition]
  refine Alike.reach_bind fun _ => (h.eat (by decide) _).bind fun _ _ c₃ c₄ _ h₃ => ?_
  refine Joins.skip_bind (by decide) _ (fun c₅ c₆ h₅ => ?_)
    (fun _ => (Parse.fails_expression atEnd_kind n (d + 1) 0).bind) h₃
  refine (ih.expression (d + 1) 0 c₅ c₆ h₅).bind fun _ _ c₇ c₈ he h₇ => ?_
  refine Joins.skip_bind (by decide) _ (fun c₉ c₁₀ h₉ => ?_)
    (fun _ => (Parse.fails_eat atEnd_kind (by decide) (d + 1)).bind) h₇
  exact (h₉.eat (by decide) _).bind fun _ _ _ _ _ h₁₁ => Alike.ok he h₁₁

theorem reads_branch_succ (d : Nat) {c₁ c₂ : Cursor} (h : σ.Joins c₁ c₂) :
    σ.Alike (fun s s' => s' = s.shift σ.offset)
      (Parse.exec (Parse.branch (n + 1) d) c₁) (Parse.exec (Parse.branch (n' + 1) d) c₂) := by
  simp only [Parse.branch]
  refine Alike.reach_bind fun _ => ?_
  simp only [Parse.exec_current_bind]
  refine Alike.cond (h.kind_iff (by decide) (by decide)) (fun _ => ?_) fun _ =>
    ih.statement (d + 1) c₁ c₂ h
  exact (ih.block (d + 1) c₁ c₂ h).bind fun _ _ _ _ hb hj =>
    Alike.ok (by rw [hb, Stmt.shift_block]) hj

theorem reads_ifStmt_succ (d : Nat) {c₁ c₂ : Cursor} (h : σ.Joins c₁ c₂)
    (hc : c₁.current.kind ≠ .eof) :
    σ.Alike (fun s s' => s' = s.shift σ.offset)
      (Parse.exec (Parse.ifStmt (n + 1) d) c₁) (Parse.exec (Parse.ifStmt (n' + 1) d) c₂) := by
  simp only [Parse.ifStmt]
  refine Alike.reach_bind fun _ => (h.keyword hc _).bind fun _ _ c₃ c₄ _ h₃ => ?_
  refine (ih.condition (d + 1) c₃ c₄ h₃).bind fun _ _ c₅ c₆ hcnd h₅ => ?_
  refine (ih.branch (d + 1) c₅ c₆ h₅).bind fun _ _ c₇ c₈ hth h₇ => ?_
  refine Alike.reach_bind fun _ => ?_
  simp only [Parse.exec_current_bind]
  simp only [bind_map_left, pure_bind]
  rw [h₇.isWord]
  refine Alike.cond Iff.rfl (fun hw => ?_) fun _ => Alike.reach_bind fun _ => Alike.ok ?_ h₇
  · -- an `else` is a word, so it stands inside the piece
    have hne : c₇.current.kind ≠ .eof := by
      intro he
      simp [Token.isWord, he] at hw
    refine (h₇.advance hne _).bind fun _ _ c₉ c₁₀ _ h₉ => ?_
    refine (ih.branch (d + 1) c₉ c₁₀ h₉).bind fun _ _ _ _ he h₁₁ => ?_
    refine Alike.reach_bind fun _ => Alike.ok ?_ h₁₁
    rw [hcnd, hth, he]
    rfl
  · rw [hcnd, hth]
    rfl

theorem reads_forStmt_succ (d : Nat) {c₁ c₂ : Cursor} (h : σ.Joins c₁ c₂)
    (hc : c₁.current.kind ≠ .eof) :
    σ.Alike (fun s s' => s' = s.shift σ.offset)
      (Parse.exec (Parse.forStmt (n + 1) d) c₁) (Parse.exec (Parse.forStmt (n' + 1) d) c₂) := by
  simp only [Parse.forStmt]
  refine Alike.reach_bind fun _ => (h.keyword hc _).bind fun _ _ c₃ c₄ _ h₃ => ?_
  refine (ih.condition (d + 1) c₃ c₄ h₃).bind fun _ _ c₅ c₆ hcnd h₅ => ?_
  refine (ih.branch (d + 1) c₅ c₆ h₅).bind fun _ _ _ _ hb h₇ =>
    Alike.reach_bind fun _ => Alike.ok ?_ h₇
  rw [hcnd, hb]
  rfl

theorem reads_expression_succ (d minPrec : Nat) {c₁ c₂ : Cursor} (h : σ.Joins c₁ c₂) :
    σ.Alike (fun e e' => e' = e.shift σ.offset)
      (Parse.exec (Parse.expression (n + 1) d minPrec) c₁)
      (Parse.exec (Parse.expression (n' + 1) d minPrec) c₂) := by
  simp only [Parse.expression]
  refine Alike.reach_bind fun _ => (ih.primary (d + 1) c₁ c₂ h).bind fun l _ c₃ c₄ hl h₃ => ?_
  subst hl
  exact ih.operators d minPrec l c₃ c₄ h₃

theorem reads_operators_succ (d minPrec : Nat) (left : Expr) {c₁ c₂ : Cursor}
    (h : σ.Joins c₁ c₂) :
    σ.Alike (fun e e' => e' = e.shift σ.offset)
      (Parse.exec (Parse.operators (n + 1) d minPrec left) c₁)
      (Parse.exec (Parse.operators (n' + 1) d minPrec (left.shift σ.offset)) c₂) := by
  simp only [Parse.operators, Parse.exec_current_bind]
  rcases h.cases with ⟨u, us, hu, hus, rfl, rfl⟩ | ⟨rfl, rfl⟩
  · -- inside the piece both readings see the same operator
    have hj : σ.Joins (Cursor.onto (u :: us) σ.endAlone)
        (Cursor.onto (u.shift σ.offset :: (us.map (Token.shift σ.offset) ++ σ.more))
          σ.endJoined) :=
      ⟨u :: us, List.forall_mem_cons.2 ⟨hu, hus⟩, rfl, rfl⟩
    simp only [Cursor.onto_current, List.headD_cons, Token.kind_shift, Token.position_shift]
    refine Alike.cond Iff.rfl (fun _ => Alike.reach_bind fun _ => ?_) fun _ => Alike.ok rfl hj
    refine Alike.cond Iff.rfl (fun _ => ?_) fun _ => ?_
    · refine (hj.advance hu _).bind fun _ _ c₃ c₄ _ h₃ => ?_
      refine (ih.expression (d + 2) _ c₃ c₄ h₃).bind fun v _ c₅ c₆ hv h₅ => ?_
      subst hv
      exact Alike.reach_bind fun _ => ih.operators d minPrec (.assign left v) c₅ c₆ h₅
    · cases BinOp.ofKind? u.kind with
      | none => exact Alike.reach_bind fun _ => Alike.failAt _
      | some op =>
        refine Alike.reach_bind fun _ => (hj.advance hu _).bind fun _ _ c₃ c₄ _ h₃ => ?_
        refine (ih.expression (d + 2) _ c₃ c₄ h₃).bind fun r _ c₅ c₆ hr h₅ => ?_
        subst hr
        exact Alike.reach_bind fun _ => ih.operators d minPrec (.binary op u.position left r) c₅ c₆ h₅
  · -- at the end of the piece no operator binds, in either reading
    simp only [Cursor.onto_current, List.headD_nil]
    rw [(TokenKind.ends_facts (.inl σ.endAlone_kind)).1, (TokenKind.ends_facts σ.next_kind).1]
    exact Alike.cond Iff.rfl (fun hlt => absurd hlt (Nat.not_lt_zero _)) fun _ =>
      Alike.ok rfl joins_end

theorem reads_primary_succ (d : Nat) {c₁ c₂ : Cursor} (h : σ.Joins c₁ c₂) :
    σ.Alike (fun e e' => e' = e.shift σ.offset)
      (Parse.exec (Parse.primary (n + 1) d) c₁) (Parse.exec (Parse.primary (n' + 1) d) c₂) := by
  rcases h.cases with ⟨u, us, hu, -, rfl, rfl⟩ | ⟨rfl, rfl⟩
  · simp only [Parse.primary]
    refine Alike.reach_bind fun _ => ?_
    simp only [Parse.exec_current_bind, Cursor.onto_current, List.headD_cons, Token.kind_shift,
      Token.form_shift, Token.text_shift, Token.position_shift]
    have hadv := h.advance hu
    generalize u.kind = k at hu ⊢
    generalize u.form = fm
    split
    · exact Alike.cond Iff.rfl (fun _ => Alike.failAt _) fun _ => (hadv _).bind
        fun _ _ c₃ c₄ _ h₃ => Alike.reach_bind fun _ => ih.calls (d + 1) (.ident u.text) c₃ c₄ h₃
    · exact (hadv _).bind fun _ _ c₃ c₄ _ h₃ => Alike.reach_bind fun _ => ih.calls (d + 1) _ c₃ c₄ h₃
    · exact (hadv _).bind fun _ _ c₃ c₄ _ h₃ => Alike.reach_bind fun _ => ih.calls (d + 1) _ c₃ c₄ h₃
    · refine (ih.parenthesized (d + 1) _ _ h).bind fun e _ c₃ c₄ he h₃ => ?_
      subst he
      exact ih.calls (d + 1) e c₃ c₄ h₃
    · -- a sign, or no operand at all
      refine Alike.reach_bind fun _ => ?_
      cases Sign.ofKind? k with
      | none => exact Alike.failAt _
      | some s =>
        refine (hadv _).bind fun _ _ c₃ c₄ _ h₃ => ?_
        refine (ih.expression (d + 1) _ c₃ c₄ h₃).bind fun _ _ _ _ hx h₅ => ?_
        refine Alike.reach_bind fun _ => Alike.ok ?_ h₅
        rw [hx]
        rfl
  · exact Alike.error (Parse.fails_primary atEnd_kind _ _) _

theorem reads_calls_succ (d : Nat) (callee : Expr) {c₁ c₂ : Cursor} (h : σ.Joins c₁ c₂) :
    σ.Alike (fun e e' => e' = e.shift σ.offset)
      (Parse.exec (Parse.calls (n + 1) d callee) c₁)
      (Parse.exec (Parse.calls (n' + 1) d (callee.shift σ.offset)) c₂) := by
  simp only [Parse.calls]
  refine Alike.reach_bind fun _ => ?_
  simp only [Parse.exec_current_bind]
  refine Alike.cond (h.kind_iff (by decide) (by decide)) (fun _ => ?_) fun _ => Alike.ok rfl h
  refine Alike.reach_bind fun _ => (ih.items (d + 2) c₁ c₂ h).bind fun args _ c₃ c₄ hargs h₃ => ?_
  subst hargs
  refine Alike.reach_bind fun _ => ?_
  rw [← Expr.shift_call]
  exact ih.calls d (.call callee args) c₃ c₄ h₃

theorem reads_parenthesized_succ (d : Nat) {c₁ c₂ : Cursor} (h : σ.Joins c₁ c₂) :
    σ.Alike (fun e e' => e' = e.shift σ.offset)
      (Parse.exec (Parse.parenthesized (n + 1) d) c₁)
      (Parse.exec (Parse.parenthesized (n' + 1) d) c₂) := by
  simp only [Parse.parenthesized]
  refine Alike.reach_bind fun _ => (ih.items (d + 1) c₁ c₂ h).bind fun es _ c₃ c₄ hes h₃ => ?_
  subst hes
  refine Alike.reach_bind fun _ => ?_
  simp only [Parse.exec_current_bind]
  refine Alike.cond (h₃.kind_iff (by decide) (by decide)) (fun _ => ?_) fun _ => ?_
  · -- a function: the same parameter names, and its body
    refine Alike.reach_bind fun _ => (h₃.eat (by decide) _).bind fun _ _ c₅ c₆ _ h₅ => ?_
    rw [paramNames_shift]
    cases Parse.paramNames es with
    | none => exact Alike.failAt _
    | some ps =>
      refine (ih.block (d + 2) c₅ c₆ h₅).bind fun _ _ _ _ hb h₇ => ?_
      refine Alike.reach_bind fun _ => Alike.ok ?_ h₇
      rw [hb, Expr.shift_func]
  · -- a single item in parentheses is the expression itself
    rcases es with _ | ⟨e, _ | ⟨e₂, rest⟩⟩
    · exact Alike.failAt _
    · exact Alike.ok rfl h₃
    · exact Alike.failAt _

theorem reads_items_succ (d : Nat) {c₁ c₂ : Cursor} (h : σ.Joins c₁ c₂) :
    σ.Alike (fun es es' => es' = es.map (Expr.shift σ.offset))
      (Parse.exec (Parse.items (n + 1) d) c₁) (Parse.exec (Parse.items (n' + 1) d) c₂) := by
  simp only [Parse.items]
  refine Alike.reach_bind fun _ => (h.eat (by decide) _).bind fun _ _ c₃ c₄ _ h₃ => ?_
  exact Joins.skip_bind (by decide) _ (fun c₅ c₆ h₅ => ih.itemsFrom d [] c₅ c₆ h₅)
    (fun _ => Parse.fails_itemsFrom atEnd_kind n d []) h₃

theorem reads_itemsFrom_succ (d : Nat) (acc : List Expr) {c₁ c₂ : Cursor} (h : σ.Joins c₁ c₂) :
    σ.Alike (fun es es' => es' = es.map (Expr.shift σ.offset))
      (Parse.exec (Parse.itemsFrom (n + 1) d acc) c₁)
      (Parse.exec (Parse.itemsFrom (n' + 1) d (acc.map (Expr.shift σ.offset))) c₂) := by
  simp only [Parse.itemsFrom]
  refine Alike.reach_bind fun _ => ?_
  simp only [Parse.exec_current_bind]
  refine Alike.cond (h.kind_iff (by decide) (by decide)) (fun _ => ?_) fun _ => ?_
  · exact (h.eat (by decide) _).bind fun _ _ _ _ _ h₃ => Alike.ok (by simp) h₃
  refine (ih.expression (d + 1) 0 c₁ c₂ h).bind fun e _ c₃ c₄ he h₃ => ?_
  subst he
  -- after an item: skipped line feeds, then a comma and more items, or the closing parenthesis
  refine Joins.skip_bind (by decide) _ (fun c₅ c₆ h₅ => ?_) (fun _ => ?_) h₃
  · refine Alike.reach_bind fun _ => ?_
    simp only [Parse.exec_current_bind]
    refine Alike.cond (h₅.kind_iff (by decide) (by decide)) (fun hcomma => ?_) fun _ =>
      (h₅.eat (by decide) _).bind fun _ _ _ _ _ h₇ => Alike.ok (by simp) h₇
    refine (h₅.advance (by rw [hcomma]; decide) _).bind fun _ _ c₇ c₈ _ h₇ => ?_
    refine Joins.skip_bind (by decide) _ (fun c₉ c₁₀ h₉ => ?_) (fun _ => ?_) h₇
    · refine Alike.reach_bind fun _ => ?_
      simp only [Parse.exec_current_bind]
      exact Alike.cond (h₉.kind_iff (by decide) (by decide))
        (fun _ => Alike.error (Parse.Fails.bind Parse.Fails.failAt) _)
        fun _ => ih.itemsFrom d (e :: acc) c₉ c₁₀ h₉
    · refine Parse.Fails.reach_bind fun a c hr => ?_
      rw [Parse.exec_current_bind, if_neg (by rw [atEnd_kind]; decide)] at hr
      exact Parse.fails_itemsFrom atEnd_kind n d _ a c hr
  · refine Parse.Fails.reach_bind fun a c hr => ?_
    rw [Parse.exec_current_bind, if_neg (by rw [atEnd_kind]; decide)] at hr
    exact (Parse.fails_eat atEnd_kind (by decide) (d + 1)).bind a c hr

end Succ

theorem reads_succ {n n' : Nat} (ih : σ.Reads n n') : σ.Reads (n + 1) (n' + 1) where
  block d _ _ h := reads_block_succ ih d h
  statements d stop acc _ _ hs h := reads_statements_succ ih d stop acc hs h
  statement d _ _ h := reads_statement_succ ih d h
  letDecl d _ _ h hc := reads_letDecl_succ ih d h hc
  condition d _ _ h := reads_condition_succ ih d h
  branch d _ _ h := reads_branch_succ ih d h
  ifStmt d _ _ h hc := reads_ifStmt_succ ih d h hc
  forStmt d _ _ h hc := reads_forStmt_succ ih d h hc
  expression d minPrec _ _ h := reads_expression_succ ih d minPrec h
  operators d minPrec left _ _ h := reads_operators_succ ih d minPrec left h
  primary d _ _ h := reads_primary_succ ih d h
  calls d callee _ _ h := reads_calls_succ ih d callee h
  parenthesized d _ _ h := reads_parenthesized_succ ih d h
  items d _ _ h := reads_items_succ ih d h
  itemsFrom d acc _ _ h := reads_itemsFrom_succ ih d acc h

/-- Every rule reads a piece alike, alone and inside a longer text that has at least as much
fuel. -/
theorem reads : ∀ {fuel fuel' : Nat}, fuel ≤ fuel' → σ.Reads fuel fuel'
  | 0, fuel', _ => reads_zero fuel'
  | _ + 1, _ + 1, h => reads_succ (reads (Nat.le_of_succ_le_succ h))
  | _ + 1, 0, h => absurd h (Nat.not_succ_le_zero _)

end Seam

end Scriptlet.Syntax
