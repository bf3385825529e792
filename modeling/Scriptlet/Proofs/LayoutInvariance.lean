import Scriptlet.Proofs.Layout
import Scriptlet.Proofs.ReadBack

/-!
# Reading does not depend on layout, short of the nesting limit

Two texts whose token streams are laid out alike (`TokenStream.SameLayout`) read as the same
program, once offsets are forgotten, unless the second reading passes the nesting limit
(`Program.parseAt_sameLayout`). The limit is not a formality here. The parser passes over a run
of line feeds after a comma from a rule one level deeper than the rule that reads the item after
the comma. So a text that reads right at the limit may fail once line feeds are added there.

Every rule of the parser keeps `Layout.Laid` between the cursors of the two readings, with the
values read equal once offsets are forgotten, whatever fuel the second reading has (`Layout.reads`).
The second reading only has to be cut short where the first goes on: at the nesting limit, or for
want of fuel, which a whole text never lacks.

## Main definitions

* `Layout.Reads`: every rule reads two streams laid out alike alike, with fuel `fuel` for the
  first and `fuel'` for the second.

## Main statements

* `Layout.reads`: every rule reads alike, with any fuel.
* `Program.parseAt_sameLayout`: texts laid out alike read alike, short of the nesting limit.
-/

set_option autoImplicit false

namespace Scriptlet.Syntax

/-- Parameter names are read off names, which keep no offsets. -/
theorem paramNames_map_erase : ∀ es : List Expr,
    Parse.paramNames (es.map Expr.erase) = Parse.paramNames es
  | [] => rfl
  | .ident n :: rest => by
    simp only [List.map_cons, Expr.erase, Parse.paramNames, paramNames_map_erase rest]
  | .num .. :: _ | .str _ :: _ | .unary .. :: _ | .binary .. :: _ | .assign .. :: _
  | .call .. :: _ | .func .. :: _ => rfl

namespace Parse

variable [NestingLimit]

/-- A list of statements stands on its stop: it ends there, if it has the fuel. -/
theorem exec_statements_stop {c : Cursor} {stop : TokenKind} (h : c.current.kind = stop)
    (fuel d : Nat) (acc : List Stmt) :
    exec (statements fuel d stop acc) c = .error .exhausted ∨
      exec (statements fuel d stop acc) c = .ok (acc.reverse, c) := by
  cases fuel with
  | zero =>
    left
    simp only [statements]
    rfl
  | succ fuel =>
    right
    simp only [statements, exec_current_bind, h, if_true]
    rfl

theorem exec_ite_reach_cases {α : Type} (p : Prop) [Decidable p] (n : Nat) (x : Parse α)
    (c : Cursor) :
    exec (if p then reach n >>= (fun _ => x) else x) c = .error .tooDeep ∨
      exec (if p then reach n >>= (fun _ => x) else x) c = exec x c := by
  rw [exec_ite_reach_bind]
  split
  · exact .inl rfl
  · exact .inr rfl

end Parse

namespace Layout

variable [NestingLimit]

/-- Every rule reads two streams laid out alike alike, with `fuel` for the first and `fuel'` for
the second: the values read agree once offsets are forgotten, and the rule stops on laid cursors.
A list of statements and the items after an opening parenthesis start and stop on matched
cursors, and a rule that starts on a keyword starts on the keyword in both streams. -/
structure Reads (fuel fuel' : Nat) : Prop where
  block : ∀ d c₁ c₂, Laid c₁ c₂ →
    Alike Laid (fun ss ss' => ss.map Stmt.erase = ss'.map Stmt.erase)
      (Parse.exec (Parse.block fuel d true) c₁) (Parse.exec (Parse.block fuel' d true) c₂)
  statements : ∀ d stop acc acc' c₁ c₂, (stop = .closeCurly ∨ stop = .eof) →
    acc.map Stmt.erase = acc'.map Stmt.erase → Matched c₁ c₂ →
    Alike Matched (fun ss ss' => ss.map Stmt.erase = ss'.map Stmt.erase)
      (Parse.exec (Parse.statements fuel d stop acc) c₁)
      (Parse.exec (Parse.statements fuel' d stop acc') c₂)
  statement : ∀ d c₁ c₂, Laid c₁ c₂ →
    Alike Laid (fun s s' => s.erase = s'.erase)
      (Parse.exec (Parse.statement fuel d) c₁) (Parse.exec (Parse.statement fuel' d) c₂)
  letDecl : ∀ d c₁ c₂, Matched c₁ c₂ → c₁.current.kind = .identifier →
    Alike Laid (fun s s' => s.erase = s'.erase)
      (Parse.exec (Parse.letDecl fuel d) c₁) (Parse.exec (Parse.letDecl fuel' d) c₂)
  condition : ∀ d c₁ c₂, Laid c₁ c₂ →
    Alike Laid (fun e e' => e.erase = e'.erase)
      (Parse.exec (Parse.condition fuel d) c₁) (Parse.exec (Parse.condition fuel' d) c₂)
  branch : ∀ d c₁ c₂, Laid c₁ c₂ →
    Alike Laid (fun s s' => s.erase = s'.erase)
      (Parse.exec (Parse.branch fuel d) c₁) (Parse.exec (Parse.branch fuel' d) c₂)
  ifStmt : ∀ d c₁ c₂, Matched c₁ c₂ → c₁.current.kind = .identifier →
    Alike Laid (fun s s' => s.erase = s'.erase)
      (Parse.exec (Parse.ifStmt fuel d) c₁) (Parse.exec (Parse.ifStmt fuel' d) c₂)
  forStmt : ∀ d c₁ c₂, Matched c₁ c₂ → c₁.current.kind = .identifier →
    Alike Laid (fun s s' => s.erase = s'.erase)
      (Parse.exec (Parse.forStmt fuel d) c₁) (Parse.exec (Parse.forStmt fuel' d) c₂)
  expression : ∀ d minPrec c₁ c₂, Laid c₁ c₂ →
    Alike Laid (fun e e' => e.erase = e'.erase)
      (Parse.exec (Parse.expression fuel d minPrec) c₁)
      (Parse.exec (Parse.expression fuel' d minPrec) c₂)
  operators : ∀ d minPrec left left' c₁ c₂, left.erase = left'.erase → Laid c₁ c₂ →
    Alike Laid (fun e e' => e.erase = e'.erase)
      (Parse.exec (Parse.operators fuel d minPrec left) c₁)
      (Parse.exec (Parse.operators fuel' d minPrec left') c₂)
  primary : ∀ d c₁ c₂, Laid c₁ c₂ →
    Alike Laid (fun e e' => e.erase = e'.erase)
      (Parse.exec (Parse.primary fuel d) c₁) (Parse.exec (Parse.primary fuel' d) c₂)
  calls : ∀ d callee callee' c₁ c₂, callee.erase = callee'.erase → Laid c₁ c₂ →
    Alike Laid (fun e e' => e.erase = e'.erase)
      (Parse.exec (Parse.calls fuel d callee) c₁) (Parse.exec (Parse.calls fuel' d callee') c₂)
  parenthesized : ∀ d c₁ c₂, Laid c₁ c₂ →
    Alike Laid (fun e e' => e.erase = e'.erase)
      (Parse.exec (Parse.parenthesized fuel d) c₁) (Parse.exec (Parse.parenthesized fuel' d) c₂)
  items : ∀ d c₁ c₂, Laid c₁ c₂ →
    Alike Laid (fun es es' => es.map Expr.erase = es'.map Expr.erase)
      (Parse.exec (Parse.items fuel d) c₁) (Parse.exec (Parse.items fuel' d) c₂)
  itemsFrom : ∀ d acc acc' c₁ c₂, acc.map Expr.erase = acc'.map Expr.erase → Matched c₁ c₂ →
    Alike Laid (fun es es' => es.map Expr.erase = es'.map Expr.erase)
      (Parse.exec (Parse.itemsFrom fuel d acc) c₁)
      (Parse.exec (Parse.itemsFrom fuel' d acc') c₂)

/-- Without fuel the first stream is not read at all. -/
theorem reads_zero (fuel' : Nat) : Reads 0 fuel' where
  block _ _ _ _ := by simp only [Parse.block]; exact Alike.throw _
  statements _ _ _ _ _ _ _ _ _ := by simp only [Parse.statements]; exact Alike.throw _
  statement _ _ _ _ := by simp only [Parse.statement]; exact Alike.throw _
  letDecl _ _ _ _ _ := by simp only [Parse.letDecl]; exact Alike.throw _
  condition _ _ _ _ := by simp only [Parse.condition]; exact Alike.throw _
  branch _ _ _ _ := by simp only [Parse.branch]; exact Alike.throw _
  ifStmt _ _ _ _ _ := by simp only [Parse.ifStmt]; exact Alike.throw _
  forStmt _ _ _ _ _ := by simp only [Parse.forStmt]; exact Alike.throw _
  expression _ _ _ _ _ := by simp only [Parse.expression]; exact Alike.throw _
  operators _ _ _ _ _ _ _ _ := by simp only [Parse.operators]; exact Alike.throw _
  primary _ _ _ _ := by simp only [Parse.primary]; exact Alike.throw _
  calls _ _ _ _ _ _ _ := by simp only [Parse.calls]; exact Alike.throw _
  parenthesized _ _ _ _ := by simp only [Parse.parenthesized]; exact Alike.throw _
  items _ _ _ _ := by simp only [Parse.items]; exact Alike.throw _
  itemsFrom _ _ _ _ _ _ _ := by simp only [Parse.itemsFrom]; exact Alike.throw _

/-- Without fuel the second stream is cut short at once. -/
theorem reads_right_zero (fuel : Nat) : Reads fuel 0 where
  block _ _ _ _ := by simp only [Parse.block]; exact Alike.exhausted _
  statements _ _ _ _ _ _ _ _ _ := by simp only [Parse.statements]; exact Alike.exhausted _
  statement _ _ _ _ := by simp only [Parse.statement]; exact Alike.exhausted _
  letDecl _ _ _ _ _ := by simp only [Parse.letDecl]; exact Alike.exhausted _
  condition _ _ _ _ := by simp only [Parse.condition]; exact Alike.exhausted _
  branch _ _ _ _ := by simp only [Parse.branch]; exact Alike.exhausted _
  ifStmt _ _ _ _ _ := by simp only [Parse.ifStmt]; exact Alike.exhausted _
  forStmt _ _ _ _ _ := by simp only [Parse.forStmt]; exact Alike.exhausted _
  expression _ _ _ _ _ := by simp only [Parse.expression]; exact Alike.exhausted _
  operators _ _ _ _ _ _ _ _ := by simp only [Parse.operators]; exact Alike.exhausted _
  primary _ _ _ _ := by simp only [Parse.primary]; exact Alike.exhausted _
  calls _ _ _ _ _ _ _ := by simp only [Parse.calls]; exact Alike.exhausted _
  parenthesized _ _ _ _ := by simp only [Parse.parenthesized]; exact Alike.exhausted _
  items _ _ _ _ := by simp only [Parse.items]; exact Alike.exhausted _
  itemsFrom _ _ _ _ _ _ _ := by simp only [Parse.itemsFrom]; exact Alike.exhausted _

section Succ

variable {n n' : Nat} (ih : Reads n n')
include ih

theorem reads_block_succ (d : Nat) {c₁ c₂ : Cursor} (h : Laid c₁ c₂) :
    Alike Laid (fun ss ss' => ss.map Stmt.erase = ss'.map Stmt.erase)
      (Parse.exec (Parse.block (n + 1) d true) c₁)
      (Parse.exec (Parse.block (n' + 1) d true) c₂) := by
  simp only [Parse.block, ↓reduceIte]
  refine Alike.reach_bind ((h.eat (by decide) rfl _).bind fun _ _ c₃ c₄ _ h₃ => ?_)
  refine h₃.skip_separators_bind _ fun c₅ c₆ h₅ ha₅ => ?_
  refine (ih.statements d .closeCurly [] [] c₅ c₆ (.inl rfl) rfl ⟨_, h₅, ha₅⟩).bind
    fun _ _ c₇ c₈ hbody h₇ => ?_
  exact (h₇.eat (by decide) _).bind fun _ _ _ _ _ h₉ =>
    Alike.reach_bind (Alike.ok hbody (h₉.laid rfl))

theorem reads_statements_succ (d : Nat) (stop : TokenKind) (acc acc' : List Stmt)
    {c₁ c₂ : Cursor} (hs : stop = .closeCurly ∨ stop = .eof)
    (hacc : acc.map Stmt.erase = acc'.map Stmt.erase) (h : Matched c₁ c₂) :
    Alike Matched (fun ss ss' => ss.map Stmt.erase = ss'.map Stmt.erase)
      (Parse.exec (Parse.statements (n + 1) d stop acc) c₁)
      (Parse.exec (Parse.statements (n' + 1) d stop acc') c₂) := by
  have hstop : ∀ {t : Token}, t.isSeparator = true → t.kind ≠ stop := fun ht hk => by
    rcases kind_of_isSeparator ht with h | h <;> rcases hs with rfl | rfl <;> rw [h] at hk <;>
      cases hk
  simp only [Parse.statements, Parse.exec_current_bind]
  refine Alike.cond (by rw [h.kind_eq])
    (fun _ => Alike.ok (by rw [List.map_reverse, List.map_reverse, hacc]) h) fun _ => ?_
  refine (ih.statement (d + 1) c₁ c₂ h.laid).bind fun s s' c₃ c₄ hss h₃ => ?_
  simp only [Parse.exec_current_bind]
  have hacc' : (s :: acc).map Stmt.erase = (s' :: acc').map Stmt.erase := by
    simp only [List.map_cons, hss, hacc]
  have hval : (s :: acc).reverse.map Stmt.erase = (s' :: acc').reverse.map Stmt.erase := by
    rw [List.map_reverse, List.map_reverse, hacc']
  obtain ⟨b, hj, hop⟩ := h₃
  cases hs₃ : c₃.current.isSeparator
  case false =>
    -- the first reading stands on a token: the stop, where it ends, or another, where it fails
    by_cases hk₃ : c₃.current.kind = stop
    · rw [if_pos hk₃]
      cases hs₄ : c₄.current.isSeparator
      case false =>
        have hm : Matched c₃ c₄ := ⟨b, hj, hs₃, hs₄⟩
        rw [if_pos (hm.kind_eq.symm.trans hk₃)]
        exact Alike.ok hval hm
      case true =>
        -- the second reading passes a run before the stop
        obtain ⟨c₄', hskip, hj', ha'⟩ :=
          hj.skip_separators_right hs₃ (d + 1) fun _ => Parse.statements n' d stop (s' :: acc')
        have hm : Matched c₃ c₄' := ⟨b, hj', ha'⟩
        rw [if_neg (hstop hs₄)]
        refine Alike.of_tooDeep_or (Parse.exec_ite_reach_cases _ _ _ _) ?_
        rw [if_pos (kind_of_isSeparator hs₄)]
        refine Alike.of_tooDeep_or hskip ?_
        rcases Parse.exec_statements_stop (hm.kind_eq.symm.trans hk₃) n' d (s' :: acc') with
          hx | hx <;> rw [hx]
        · exact Alike.cut _ (.inr rfl)
        · exact Alike.ok hval hm
    · rw [if_neg hk₃]
      refine Alike.of_tooDeep_or_left (Parse.exec_ite_reach_cases _ _ _ _) ?_
      rw [if_neg (kind_of_not_isSeparator hs₃)]
      exact Alike.failAt _
  case true =>
    -- the first reading passes the run after the statement
    rw [if_neg (hstop hs₃)]
    refine Alike.of_tooDeep_or_left (Parse.exec_ite_reach_cases _ _ _ _) ?_
    rw [if_pos (kind_of_isSeparator hs₃)]
    cases hs₄ : c₄.current.isSeparator
    case true =>
      rw [if_neg (hstop hs₄)]
      refine Alike.of_tooDeep_or (Parse.exec_ite_reach_cases _ _ _ _) ?_
      rw [if_pos (kind_of_isSeparator hs₄)]
      exact hj.skip_separators_bind _ fun c₅ c₆ h₅ ha₅ =>
        ih.statements d stop (s :: acc) (s' :: acc') c₅ c₆ hs hacc' ⟨b, h₅, ha₅⟩
    case false =>
      -- the second reading stands past the run, which the parser passes over: before the stop,
      -- or before a token where the first reading fails
      obtain ⟨c₃', hskip, hj', ha', hoc⟩ :=
        hj.skip_separators_left hs₄ (d + 1) fun _ => Parse.statements n d stop (s :: acc)
      refine Alike.of_tooDeep_or_left hskip ?_
      have hcl : closes c₃'.current.kind = true := by
        rcases hoc hs₃ with hb | hcl
        · rw [(hop hb).1] at hs₃
          cases hs₃
        · exact hcl
      have hm : Matched c₃' c₄ := ⟨b, hj', ha'⟩
      by_cases hk : c₃'.current.kind = stop
      · rw [if_pos (hm.kind_eq.symm.trans hk)]
        rcases Parse.exec_statements_stop hk n d (s :: acc) with hx | hx <;> rw [hx]
        · exact Alike.error (fun _ _ hr => by cases hr) _
        · exact Alike.ok hval hm
      · exact Alike.fails (Parse.fails_statements_of_ends (ends_of_closes hcl) hk n d _) _

theorem reads_statement_succ (d : Nat) {c₁ c₂ : Cursor} (h : Laid c₁ c₂) :
    Alike Laid (fun s s' => s.erase = s'.erase)
      (Parse.exec (Parse.statement (n + 1) d) c₁)
      (Parse.exec (Parse.statement (n' + 1) d) c₂) := by
  cases hend : ends c₁.current.kind
  case true => exact Alike.fails (Parse.fails_statement_of_ends hend (n + 1) d) _
  case false =>
  -- a block, a keyword or an expression: the same token stands under both cursors
  have hm := h.matched hend
  obtain ⟨hk, ht, -⟩ := hm.same (ne_eof_of_ends hend)
  have hexpr : Alike Laid (fun s s' => s.erase = s'.erase)
      (Parse.exec (Parse.expression n (d + 1) 0 >>= fun e => pure (Stmt.expr e)) c₁)
      (Parse.exec (Parse.expression n' (d + 1) 0 >>= fun e => pure (Stmt.expr e)) c₂) :=
    (ih.expression (d + 1) 0 c₁ c₂ h).bind fun _ _ _ _ he hj =>
      Alike.ok (by simp only [Stmt.erase, he]) hj
  simp only [Parse.statement]
  refine Alike.reach_bind ?_
  simp only [Parse.exec_current_bind]
  rw [hk, ht]
  refine Alike.cond Iff.rfl (fun _ => ?_) fun _ => ?_
  · exact (ih.block (d + 2) c₁ c₂ h).bind fun _ _ _ _ hb hj =>
      Alike.ok (by simp only [Stmt.erase, Stmt.eraseList_eq_map, hb]) hj
  refine Alike.cond Iff.rfl (fun hid => ?_) fun _ => hexpr
  refine Alike.cond Iff.rfl (fun _ => ih.letDecl (d + 2) c₁ c₂ hm hid) fun _ => ?_
  refine Alike.cond Iff.rfl (fun _ => ih.ifStmt (d + 2) c₁ c₂ hm hid) fun _ => ?_
  refine Alike.cond Iff.rfl (fun _ => ih.forStmt (d + 2) c₁ c₂ hm hid) fun _ => ?_
  refine Alike.cond Iff.rfl (fun _ => Alike.failAt _) fun _ => ?_
  exact Alike.cond Iff.rfl (fun _ => Alike.failAt _) fun _ => hexpr

theorem reads_letDecl_succ (d : Nat) {c₁ c₂ : Cursor} (h : Matched c₁ c₂)
    (hid : c₁.current.kind = .identifier) :
    Alike Laid (fun s s' => s.erase = s'.erase)
      (Parse.exec (Parse.letDecl (n + 1) d) c₁) (Parse.exec (Parse.letDecl (n' + 1) d) c₂) := by
  simp only [Parse.letDecl]
  refine Alike.reach_bind ((h.keyword (by rw [hid]; decide) _).bind fun _ _ c₃ c₄ _ h₃ => ?_)
  rw [hid] at h₃
  refine ((h₃.laid rfl).eat (by decide) rfl _).bind fun name name' c₅ c₆ hname h₅ => ?_
  have htext : name'.text = name.text := by
    have ht := congrArg Token.text hname
    exact ht.symm
  rw [htext]
  -- a reserved word fails; the rest is read alike
  refine Alike.cond Iff.rfl (fun _ => Alike.fails (Parse.Fails.bind Parse.Fails.failAt) _)
    fun _ => Alike.reach_bind ?_
  simp only [Parse.exec_current_bind, bind_map_left, pure_bind]
  have hl₅ : Laid c₅ c₆ := h₅.laid rfl
  refine Alike.cond (hl₅.kind_iff (by decide) rfl) (fun heq => ?_) fun _ =>
    Alike.reach_bind (Alike.ok rfl hl₅)
  -- an initializer follows `=`
  have hm := hl₅.matched (by rw [heq]; rfl)
  refine (hm.advance (by rw [heq]; decide) _).bind fun _ _ c₇ c₈ _ h₇ => ?_
  rw [heq] at h₇
  refine (ih.expression (d + 1) 0 c₇ c₈ (h₇.laid rfl)).bind fun _ _ _ _ he h₉ => ?_
  exact Alike.reach_bind (Alike.ok (by simp only [Stmt.erase, he]) h₉)

theorem reads_condition_succ (d : Nat) {c₁ c₂ : Cursor} (h : Laid c₁ c₂) :
    Alike Laid (fun e e' => e.erase = e'.erase)
      (Parse.exec (Parse.condition (n + 1) d) c₁)
      (Parse.exec (Parse.condition (n' + 1) d) c₂) := by
  simp only [Parse.condition]
  refine Alike.reach_bind ((h.eat (by decide) rfl _).bind fun _ _ c₃ c₄ _ h₃ => ?_)
  refine h₃.skip_lineFeeds_bind (A := Inside) (fun K hK => inside_drops (.inl rfl) hK) _
    (fun c₅ c₆ h₅ ha₅ _ => ?_)
    (fun c hc => (Parse.fails_expression_of_ends (ends_of_not_inside hc) n (d + 1) 0).bind)
  refine (ih.expression (d + 1) 0 c₅ c₆ (Matched.laid ⟨_, h₅, ha₅⟩)).bind
    fun _ _ c₇ c₈ he h₇ => ?_
  refine h₇.skip_lineFeeds_bind (A := (· = .closeParen)) (fun K hK => .inr hK) _
    (fun c₉ c₁₀ h₉ _ => ?_) (fun c hc => (Parse.fails_eat_of_ne hc _).bind)
  exact (h₉.eat (by decide) _).bind fun _ _ _ _ _ h₁₁ => Alike.ok he (h₁₁.laid rfl)

theorem reads_branch_succ (d : Nat) {c₁ c₂ : Cursor} (h : Laid c₁ c₂) :
    Alike Laid (fun s s' => s.erase = s'.erase)
      (Parse.exec (Parse.branch (n + 1) d) c₁) (Parse.exec (Parse.branch (n' + 1) d) c₂) := by
  simp only [Parse.branch]
  refine Alike.reach_bind ?_
  simp only [Parse.exec_current_bind]
  refine Alike.cond (h.kind_iff (by decide) rfl) (fun _ => ?_) fun _ =>
    ih.statement (d + 1) c₁ c₂ h
  exact (ih.block (d + 1) c₁ c₂ h).bind fun _ _ _ _ hb hj =>
    Alike.ok (by simp only [Stmt.erase, Stmt.eraseList_eq_map, hb]) hj

theorem reads_ifStmt_succ (d : Nat) {c₁ c₂ : Cursor} (h : Matched c₁ c₂)
    (hid : c₁.current.kind = .identifier) :
    Alike Laid (fun s s' => s.erase = s'.erase)
      (Parse.exec (Parse.ifStmt (n + 1) d) c₁) (Parse.exec (Parse.ifStmt (n' + 1) d) c₂) := by
  simp only [Parse.ifStmt]
  refine Alike.reach_bind ((h.keyword (by rw [hid]; decide) _).bind fun _ _ c₃ c₄ _ h₃ => ?_)
  rw [hid] at h₃
  refine (ih.condition (d + 1) c₃ c₄ (h₃.laid rfl)).bind fun _ _ c₅ c₆ hcnd h₅ => ?_
  refine (ih.branch (d + 1) c₅ c₆ h₅).bind fun _ _ c₇ c₈ hth h₇ => ?_
  refine Alike.reach_bind ?_
  simp only [Parse.exec_current_bind, bind_map_left, pure_bind]
  rw [← h₇.isWord_eq]
  refine Alike.cond Iff.rfl (fun hw => ?_) fun _ => Alike.reach_bind (Alike.ok ?_ h₇)
  · -- an `else` is a word, so it stands under both cursors
    have hk : c₇.current.kind = .identifier := by
      simp only [Token.isWord, Bool.and_eq_true, beq_iff_eq] at hw
      exact hw.1
    have hm := h₇.matched (by rw [hk]; rfl)
    refine (hm.advance (by rw [hk]; decide) _).bind fun _ _ c₉ c₁₀ _ h₉ => ?_
    rw [hk] at h₉
    refine (ih.branch (d + 1) c₉ c₁₀ (h₉.laid rfl)).bind fun _ _ _ _ he h₁₁ => ?_
    exact Alike.reach_bind (Alike.ok (by simp only [Stmt.erase, hcnd, hth, he]) h₁₁)
  · simp only [Stmt.erase, hcnd, hth]

theorem reads_forStmt_succ (d : Nat) {c₁ c₂ : Cursor} (h : Matched c₁ c₂)
    (hid : c₁.current.kind = .identifier) :
    Alike Laid (fun s s' => s.erase = s'.erase)
      (Parse.exec (Parse.forStmt (n + 1) d) c₁) (Parse.exec (Parse.forStmt (n' + 1) d) c₂) := by
  simp only [Parse.forStmt]
  refine Alike.reach_bind ((h.keyword (by rw [hid]; decide) _).bind fun _ _ c₃ c₄ _ h₃ => ?_)
  rw [hid] at h₃
  refine (ih.condition (d + 1) c₃ c₄ (h₃.laid rfl)).bind fun _ _ c₅ c₆ hcnd h₅ => ?_
  refine (ih.branch (d + 1) c₅ c₆ h₅).bind fun _ _ _ _ hb h₇ => ?_
  exact Alike.reach_bind (Alike.ok (by simp only [Stmt.erase, hcnd, hb]) h₇)

theorem reads_expression_succ (d minPrec : Nat) {c₁ c₂ : Cursor} (h : Laid c₁ c₂) :
    Alike Laid (fun e e' => e.erase = e'.erase)
      (Parse.exec (Parse.expression (n + 1) d minPrec) c₁)
      (Parse.exec (Parse.expression (n' + 1) d minPrec) c₂) := by
  simp only [Parse.expression]
  refine Alike.reach_bind ((ih.primary (d + 1) c₁ c₂ h).bind fun l l' c₃ c₄ hl h₃ => ?_)
  exact ih.operators d minPrec l l' c₃ c₄ hl h₃

theorem reads_operators_succ (d minPrec : Nat) (left left' : Expr) {c₁ c₂ : Cursor}
    (hleft : left.erase = left'.erase) (h : Laid c₁ c₂) :
    Alike Laid (fun e e' => e.erase = e'.erase)
      (Parse.exec (Parse.operators (n + 1) d minPrec left) c₁)
      (Parse.exec (Parse.operators (n' + 1) d minPrec left') c₂) := by
  simp only [Parse.operators, Parse.exec_current_bind]
  refine Alike.cond (by rw [h.precedence_eq]) (fun hp => ?_) fun _ => Alike.ok hleft h
  -- an operator binds: both readings stand on it
  have hpos : 0 < c₁.current.kind.precedence := by omega
  obtain ⟨hs, hcl⟩ := precedence_pos hpos
  have hm := h.matched (ends_eq_false hs hcl)
  have hc : c₁.current.kind ≠ .eof := fun he => by
    rw [he] at hcl
    cases hcl
  have hop := opens_of_precedence hpos
  rw [← hm.kind_eq]
  refine Alike.reach_bind ?_
  refine Alike.cond Iff.rfl (fun _ => ?_) fun _ => ?_
  · refine (hm.advance hc _).bind fun _ _ c₃ c₄ _ h₃ => ?_
    refine (ih.expression (d + 2) _ c₃ c₄ (h₃.laid hop)).bind fun _ _ c₅ c₆ hv h₅ => ?_
    exact Alike.reach_bind
      (ih.operators d minPrec _ _ c₅ c₆ (by simp only [Expr.erase, hleft, hv]) h₅)
  · cases BinOp.ofKind? c₁.current.kind with
    | none => exact Alike.reach_bind (Alike.failAt _)
    | some op =>
      refine Alike.reach_bind ((hm.advance hc _).bind fun _ _ c₃ c₄ _ h₃ => ?_)
      refine (ih.expression (d + 2) _ c₃ c₄ (h₃.laid hop)).bind fun _ _ c₅ c₆ hr h₅ => ?_
      exact Alike.reach_bind
        (ih.operators d minPrec _ _ c₅ c₆ (by simp only [Expr.erase, hleft, hr]) h₅)

theorem reads_primary_succ (d : Nat) {c₁ c₂ : Cursor} (h : Laid c₁ c₂) :
    Alike Laid (fun e e' => e.erase = e'.erase)
      (Parse.exec (Parse.primary (n + 1) d) c₁) (Parse.exec (Parse.primary (n' + 1) d) c₂) := by
  cases hend : ends c₁.current.kind
  case true => exact Alike.fails (Parse.fails_primary_of_ends hend (n + 1) d) _
  case false =>
  -- an operand or a sign: the same token stands under both cursors
  have hm := h.matched hend
  have hc := ne_eof_of_ends hend
  obtain ⟨hk, ht, hf⟩ := hm.same hc
  simp only [Parse.primary]
  refine Alike.reach_bind ?_
  simp only [Parse.exec_current_bind]
  rw [hk, ht, hf]
  have hadv := hm.advance hc
  generalize c₁.current.kind = k at hc hadv ⊢
  generalize c₁.current.form = fm
  split
  · exact Alike.cond Iff.rfl (fun _ => Alike.failAt _) fun _ => (hadv _).bind
      fun _ _ c₃ c₄ _ h₃ => Alike.reach_bind (ih.calls (d + 1) _ _ c₃ c₄ rfl (h₃.laid rfl))
  · exact (hadv _).bind fun _ _ c₃ c₄ _ h₃ => Alike.reach_bind
      (ih.calls (d + 1) _ _ c₃ c₄ (by simp only [Expr.erase]) (h₃.laid rfl))
  · exact (hadv _).bind fun _ _ c₃ c₄ _ h₃ => Alike.reach_bind
      (ih.calls (d + 1) _ _ c₃ c₄ rfl (h₃.laid rfl))
  · exact (ih.parenthesized (d + 1) c₁ c₂ h).bind fun e e' c₃ c₄ he h₃ =>
      ih.calls (d + 1) e e' c₃ c₄ he h₃
  · -- a sign, or no operand at all
    refine Alike.reach_bind ?_
    cases hsg : Sign.ofKind? k with
    | none => exact Alike.failAt _
    | some s =>
      refine (hadv _).bind fun _ _ c₃ c₄ _ h₃ => ?_
      refine (ih.expression (d + 1) _ c₃ c₄ (h₃.laid (opens_of_sign hsg))).bind
        fun _ _ _ _ hx h₅ => ?_
      exact Alike.reach_bind (Alike.ok (by simp only [Expr.erase, hx]) h₅)

theorem reads_calls_succ (d : Nat) (callee callee' : Expr) {c₁ c₂ : Cursor}
    (hcallee : callee.erase = callee'.erase) (h : Laid c₁ c₂) :
    Alike Laid (fun e e' => e.erase = e'.erase)
      (Parse.exec (Parse.calls (n + 1) d callee) c₁)
      (Parse.exec (Parse.calls (n' + 1) d callee') c₂) := by
  simp only [Parse.calls]
  refine Alike.reach_bind ?_
  simp only [Parse.exec_current_bind]
  refine Alike.cond (h.kind_iff (by decide) rfl) (fun _ => ?_) fun _ => Alike.ok hcallee h
  refine Alike.reach_bind ((ih.items (d + 2) c₁ c₂ h).bind fun _ _ c₃ c₄ hargs h₃ => ?_)
  refine Alike.reach_bind (ih.calls d _ _ c₃ c₄ ?_ h₃)
  simp only [Expr.erase, Expr.eraseList_eq_map, hcallee, hargs]

theorem reads_parenthesized_succ (d : Nat) {c₁ c₂ : Cursor} (h : Laid c₁ c₂) :
    Alike Laid (fun e e' => e.erase = e'.erase)
      (Parse.exec (Parse.parenthesized (n + 1) d) c₁)
      (Parse.exec (Parse.parenthesized (n' + 1) d) c₂) := by
  simp only [Parse.parenthesized]
  refine Alike.reach_bind ((ih.items (d + 1) c₁ c₂ h).bind fun es es' c₃ c₄ hes h₃ => ?_)
  refine Alike.reach_bind ?_
  simp only [Parse.exec_current_bind]
  refine Alike.cond (h₃.kind_iff (by decide) rfl) (fun _ => ?_) fun _ => ?_
  · -- a function: the same parameter names, and its body
    refine Alike.reach_bind ((h₃.eat (by decide) rfl _).bind fun _ _ c₅ c₆ _ h₅ => ?_)
    have hp : Parse.paramNames es' = Parse.paramNames es := by
      rw [← paramNames_map_erase es', ← hes, paramNames_map_erase]
    rw [hp]
    cases Parse.paramNames es with
    | none => exact Alike.failAt _
    | some ps =>
      refine (ih.block (d + 2) c₅ c₆ (h₅.laid rfl)).bind fun _ _ _ _ hb h₇ => ?_
      exact Alike.reach_bind
        (Alike.ok (by simp only [Expr.erase, Stmt.eraseList_eq_map, hb]) h₇)
  · -- a single item in parentheses is the expression itself
    rcases es with _ | ⟨e, _ | ⟨e₂, rest⟩⟩
    · exact Alike.failAt _
    · rcases es' with _ | ⟨e', _ | ⟨e₂', rest'⟩⟩
      · simp at hes
      · exact Alike.ok (by simpa using hes) h₃
      · simp at hes
    · exact Alike.failAt _

theorem reads_items_succ (d : Nat) {c₁ c₂ : Cursor} (h : Laid c₁ c₂) :
    Alike Laid (fun es es' => es.map Expr.erase = es'.map Expr.erase)
      (Parse.exec (Parse.items (n + 1) d) c₁) (Parse.exec (Parse.items (n' + 1) d) c₂) := by
  simp only [Parse.items]
  refine Alike.reach_bind ((h.eat (by decide) rfl _).bind fun _ _ c₃ c₄ _ h₃ => ?_)
  exact h₃.skip_lineFeeds_bind (A := Inside) (fun K hK => inside_drops (.inl rfl) hK) _
    (fun c₅ c₆ h₅ ha₅ _ => ih.itemsFrom d [] [] c₅ c₆ rfl ⟨_, h₅, ha₅⟩)
    (fun c hc => Parse.fails_itemsFrom_of_ends (ends_of_not_inside hc)
      (ne_closeParen_of_not_inside hc) n d [])

theorem reads_itemsFrom_succ (d : Nat) (acc acc' : List Expr) {c₁ c₂ : Cursor}
    (hacc : acc.map Expr.erase = acc'.map Expr.erase) (h : Matched c₁ c₂) :
    Alike Laid (fun es es' => es.map Expr.erase = es'.map Expr.erase)
      (Parse.exec (Parse.itemsFrom (n + 1) d acc) c₁)
      (Parse.exec (Parse.itemsFrom (n' + 1) d acc') c₂) := by
  simp only [Parse.itemsFrom]
  refine Alike.reach_bind ?_
  simp only [Parse.exec_current_bind]
  refine Alike.cond (by rw [h.kind_eq]) (fun _ => ?_) fun _ => ?_
  · exact (h.eat (by decide) _).bind fun _ _ _ _ _ h₃ =>
      Alike.ok (by rw [List.map_reverse, List.map_reverse, hacc]) (h₃.laid rfl)
  refine (ih.expression (d + 1) 0 c₁ c₂ h.laid).bind fun e e' c₃ c₄ he h₃ => ?_
  have hacc' : (e :: acc).map Expr.erase = (e' :: acc').map Expr.erase := by
    simp only [List.map_cons, he, hacc]
  -- after an item: line feeds, then a comma and more items, or the closing parenthesis
  refine h₃.skip_lineFeeds_bind (A := fun K => K = .comma ∨ K = .closeParen) (fun K hK => hK) _
    (fun c₅ c₆ h₅ _ => ?_) (fun c hc => ?_)
  · refine Alike.reach_bind ?_
    simp only [Parse.exec_current_bind]
    refine Alike.cond (by rw [h₅.kind_eq]) (fun hcomma => ?_) fun _ =>
      (h₅.eat (by decide) _).bind fun _ _ _ _ _ h₇ =>
        Alike.ok (by rw [List.map_reverse, List.map_reverse, hacc']) (h₇.laid rfl)
    refine (h₅.advance (by rw [hcomma]; decide) _).bind fun _ _ c₇ c₈ _ h₇ => ?_
    rw [hcomma] at h₇
    refine h₇.skip_lineFeeds_bind (A := Inside) (fun K hK => inside_drops (.inr rfl) hK) _
      (fun c₉ c₁₀ h₉ ha₉ _ => ?_) (fun c hc => ?_)
    · refine Alike.reach_bind ?_
      simp only [Parse.exec_current_bind]
      exact Alike.cond (by rw [Matched.kind_eq ⟨_, h₉, ha₉⟩])
        (fun _ => Alike.fails (Parse.Fails.bind Parse.Fails.failAt) _)
        fun _ => ih.itemsFrom d (e :: acc) (e' :: acc') c₉ c₁₀ hacc' ⟨_, h₉, ha₉⟩
    · -- after a comma, only an item goes on
      refine Parse.Fails.reach_bind fun a c' hr => ?_
      rw [Parse.exec_current_bind, if_neg (ne_closeParen_of_not_inside hc)] at hr
      exact Parse.fails_itemsFrom_of_ends (ends_of_not_inside hc)
        (ne_closeParen_of_not_inside hc) n d _ a c' hr
  · -- after an item, only a comma or the closing parenthesis goes on
    refine Parse.Fails.reach_bind fun a c' hr => ?_
    simp only [not_or] at hc
    rw [Parse.exec_current_bind, if_neg hc.1] at hr
    exact (Parse.fails_eat_of_ne hc.2 (d + 1)).bind a c' hr

end Succ

theorem reads_succ {n n' : Nat} (ih : Reads n n') : Reads (n + 1) (n' + 1) where
  block d _ _ h := reads_block_succ ih d h
  statements d stop acc acc' _ _ hs hacc h := reads_statements_succ ih d stop acc acc' hs hacc h
  statement d _ _ h := reads_statement_succ ih d h
  letDecl d _ _ h hid := reads_letDecl_succ ih d h hid
  condition d _ _ h := reads_condition_succ ih d h
  branch d _ _ h := reads_branch_succ ih d h
  ifStmt d _ _ h hid := reads_ifStmt_succ ih d h hid
  forStmt d _ _ h hid := reads_forStmt_succ ih d h hid
  expression d minPrec _ _ h := reads_expression_succ ih d minPrec h
  operators d minPrec left left' _ _ hleft h := reads_operators_succ ih d minPrec left left' hleft h
  primary d _ _ h := reads_primary_succ ih d h
  calls d callee callee' _ _ hcallee h := reads_calls_succ ih d callee callee' hcallee h
  parenthesized d _ _ h := reads_parenthesized_succ ih d h
  items d _ _ h := reads_items_succ ih d h
  itemsFrom d acc acc' _ _ hacc h := reads_itemsFrom_succ ih d acc acc' hacc h

/-- Every rule reads two streams laid out alike alike, whatever the fuel of either reading. -/
theorem reads : ∀ fuel fuel' : Nat, Reads fuel fuel'
  | 0, fuel' => reads_zero fuel'
  | fuel + 1, 0 => reads_right_zero (fuel + 1)
  | fuel + 1, fuel' + 1 => reads_succ (reads fuel fuel')

/-- A whole program is read alike from the starts of two streams laid out alike. -/
theorem topLevel_alike (fuel fuel' q : Nat) {c₁ c₂ : Cursor} (h : Joined none c₁ c₂) :
    Alike (fun _ _ => True) (fun p p' => p.map Stmt.erase = p'.map Stmt.erase)
      (Parse.exec (Parse.topLevel fuel q) c₁) (Parse.exec (Parse.topLevel fuel' q) c₂) := by
  simp only [Parse.topLevel, Parse.exec_current_bind]
  refine Alike.reach_bind ?_
  cases fuel with
  | zero =>
    simp only [Parse.block]
    exact Alike.fails (Parse.Fails.bind Parse.Fails.throw) _
  | succ m =>
  cases fuel' with
  | zero =>
    simp only [Parse.block]
    exact Alike.cut _ (.inr rfl)
  | succ m' =>
  simp only [Parse.block, Bool.false_eq_true, if_false, pure_bind, bind_assoc]
  refine Alike.reach_bind (h.skip_separators_bind _ fun c₃ c₄ h₃ ha₃ => ?_)
  refine ((reads m m').statements (q + 1) .eof [] [] c₃ c₄ (.inr rfl) rfl ⟨_, h₃, ha₃⟩).bind
    fun _ _ _ _ hp _ => ?_
  exact Alike.reach_bind (Alike.reach_bind (Alike.ok hp trivial))

end Layout

variable [NestingLimit]

theorem Program.ofTokens_of_exec_error {ts : List Token} {e : Token} {q : Nat} {err : ParseError}
    (h : Parse.exec (Parse.topLevel (parseFuel ts.length) q) (Cursor.onto ts e) = .error err) :
    Program.ofTokens ⟨ts, .ok e⟩ q = .error err := by
  simp only [Program.ofTokens, Cursor.start_onto]
  change (Parse.exec (Parse.topLevel _ q) (Cursor.onto ts e) >>= fun x => pure x.1 :
    Except ParseError Program) = .error err
  rw [h]
  rfl

/-- **Layout does not change a reading, short of the nesting limit.** Two texts whose token
streams are laid out alike read, at any level, as the same program once offsets are forgotten,
unless the second passes the nesting limit. It may do so where the first does not: a token read
after a run of separators that the parser passes over is read by a deeper rule than the same
token with no run before it. -/
theorem Program.parseAt_sameLayout {q : Nat} {src src' : String} {p : Program}
    (h : (TokenStream.ofString src).SameLayout (TokenStream.ofString src'))
    (hp : Program.parseAt q src = .ok p) :
    Program.parseAt q src' = .error .tooDeep ∨
      ∃ p', Program.parseAt q src' = .ok p' ∧ p'.erase = p.erase := by
  obtain ⟨ts, e, hs, he, hts, c', hrun⟩ := Program.parseAt_scanned hp
  obtain ⟨-, ⟨e', hfin'⟩, hform⟩ := h
  obtain ⟨hlex', hend'⟩ := TokenStream.ofString_scanned src'
  have he' : e'.kind = .eof := hend' e' hfin'
  have hts' : ∀ t ∈ (TokenStream.ofString src').tokens, t.kind ≠ .eof := fun t ht =>
    (hlex' t ht).elim fun _ hl => hl.kind_ne_eof
  have hsrc' : TokenStream.ofString src' = ⟨(TokenStream.ofString src').tokens, .ok e'⟩ := by
    rw [← hfin']
  rw [hs] at hform
  generalize (TokenStream.ofString src').tokens = ts' at hts' hform hsrc'
  -- the two streams from their starts
  have hJ : Layout.Joined none (Cursor.onto ts e) (Cursor.onto ts' e') :=
    ⟨ts, ts', ⟨hts, e, he, rfl⟩, ⟨hts', e', he', rfl⟩, hform⟩
  have herr : ∀ err, Parse.exec (Parse.topLevel (parseFuel ts'.length) q) (Cursor.onto ts' e') =
      .error err → Program.parseAt q src' = .error err := fun err hx => by
    unfold Program.parseAt
    rw [hsrc']
    exact Program.ofTokens_of_exec_error hx
  rcases Layout.topLevel_alike _ (parseFuel ts'.length) q hJ p c' hrun with
    (hx | hx) | ⟨p', c'', hrun', hp', -⟩
  · exact .inl (herr _ hx)
  · -- a whole text never runs out of fuel
    exact absurd (Program.parseAt_ordinary (herr _ hx)) id
  · refine .inr ⟨p', ?_, ?_⟩
    · unfold Program.parseAt
      rw [hsrc']
      exact Program.ofTokens_of_exec hrun'
    · simp only [Program.erase, Stmt.eraseList_eq_map, hp']

end Scriptlet.Syntax

namespace Scriptlet.Syntax

/-- Line feeds around the items of an argument list, blank lines, and a `;` replaced by line
feeds leave the program as it is. -/
theorem Program.parseAt_sameLayout_call :
    (TokenStream.ofString "let y = f(a, b); y").SameLayout
      (TokenStream.ofString "\nlet y = f(\n  a,\n  b\n)\n\ny\n") ∧
    Program.parseAt readLevel "let y = f(a, b); y" =
      .ok [.letDecl "y" (some (.call (.ident "f") [.ident "a", .ident "b"])), .expr (.ident "y")] ∧
    (Program.parseAt readLevel "\nlet y = f(\n  a,\n  b\n)\n\ny\n" = .error .tooDeep ∨
      ∃ p', Program.parseAt readLevel "\nlet y = f(\n  a,\n  b\n)\n\ny\n" = .ok p' ∧
        p'.erase = Program.erase
          [.letDecl "y" (some (.call (.ident "f") [.ident "a", .ident "b"])), .expr (.ident "y")]) := by
  have h₁ : (TokenStream.ofString "let y = f(a, b); y").SameLayout
      (TokenStream.ofString "\nlet y = f(\n  a,\n  b\n)\n\ny\n") := by
    refine ⟨⟨⟨.eof, "", 18, none⟩, ?_⟩, ⟨⟨.eof, "", 26, none⟩, ?_⟩, ?_⟩ <;> cbv
  have h₂ : Program.parseAt readLevel "let y = f(a, b); y" =
      .ok [.letDecl "y" (some (.call (.ident "f") [.ident "a", .ident "b"])), .expr (.ident "y")] := by
    cbv
  exact ⟨h₁, h₂, Program.parseAt_sameLayout h₁ h₂⟩

-- Right at the limit the line feed after the comma matters: the item after it is read one level
-- deeper, and a hexadecimal numeral is read seven levels below the rule that moves onto it.
example : Program.parseAt (nestingLimit - 15) "f(a, 0x1)" =
      .ok [.expr (.call (.ident "f") [.ident "a", .num "0x1" ⟨.integer, .hex⟩ 5])] ∧
    Program.parseAt (nestingLimit - 15) "f(a,\n0x1)" = .error .tooDeep := by
  constructor <;> cbv

end Scriptlet.Syntax
