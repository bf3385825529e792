import Scriptlet.Proofs.NestingDepth
import Scriptlet.Proofs.JoinedRuns

/-!
# Chains of signs at the nesting limit

A sign reads its operand two levels below the expression it starts, so `k` minus signs before an
operand put the operand `2 * k` levels deeper, for only `k` tokens. This file follows such texts
to the nesting limit and finds where the limit cuts them: exactly, for every level, every count
of signs and every limit.

Each reading is followed step by step with `Parse.cut` and its step lemmas, which give the level
that every step reaches.

* `Parse.exec_expression_negs`: a chain of signs costs two levels a sign.
* `Program.parseAt_negations`: the text of `k` minus signs before `1`, read at level `q`, gives
  the negations of `1` exactly when `q + 2 * k + 10` is within the limit.
* `Program.parseAt_let_negations`: the same text after `let x` and a line feed.
* `Program.parseAt_negated_call`: the same signs before `print(2,0x1)`, with or without a line
  feed after the comma; the line feed moves the deepest step of the reading one level down.

At the command-line host's limit these give texts that print and read back only short of the
limit, and texts that read alone but not after another program, which a run parses one level
deeper than a reading by itself, and texts that read or not by a line feed that the reading
otherwise passes over.
-/

set_option autoImplicit false

namespace Scriptlet.Syntax

/-- Reading a token reaches at least five levels below the rule that moves onto it. -/
theorem Token.five_le_readDepth (t : Token) : 5 ≤ t.readDepth := by
  unfold Token.readDepth
  split <;> omega

section Signs

variable {us : List Token} {k : Nat}

/-- Tokens that are minus signs once their offsets are forgotten. -/
theorem kind_of_signs (hus : us.map Token.erase = List.replicate k (Sign.neg.token 0)) :
    ∀ s ∈ us, s.kind = .minus := fun s hs => by
  have hmem : s.erase ∈ List.replicate k (Sign.neg.token 0) := hus ▸ List.mem_map_of_mem hs
  exact Token.kind_eq_of_erase (List.eq_of_mem_replicate hmem)

/-- The first token of signs before `u`: the first sign, or `u` when there is none. -/
theorem head_of_signs (hus : us.map Token.erase = List.replicate k (Sign.neg.token 0))
    {rest : List Token} {u : Token} {P : Token → Prop} (hsign : ∀ s : Token, s.kind = .minus → P s)
    (hu : P u) : ∃ s rest', us ++ u :: rest = s :: rest' ∧ P s := by
  cases us with
  | nil => exact ⟨u, rest, rfl, hu⟩
  | cons s us => exact ⟨s, us ++ u :: rest, rfl, hsign s (kind_of_signs hus s List.mem_cons_self)⟩

end Signs

namespace Parse

variable {α β : Type} [NestingLimit]

variable {f : Unit → Parse α} {c : Cursor} {N : Nat} {r : Except ParseError (α × Cursor)}
variable {ts : List Token} {t last : Token}

/-! ## Line feeds skipped -/

theorem exec_skipFor_newline_bind_cut {ks : List TokenKind} {d : Nat} {n : Token}
    (hks : ks.head? = some .newLine) (hn : n.kind = .newLine) (hstop : (ts.headD last).kind ∉ ks)
    (hN : d + 1 + (ts.headD last).readDepth ≤ N)
    (h : d + 1 + (ts.headD last).readDepth ≤ nestingLimit →
      exec (f ()) (Cursor.onto ts last) = cut N r) :
    ∀ fuel, 1 < fuel → exec (skipFor ks d fuel >>= f) (Cursor.onto (n :: ts) last) = cut N r
  | fuel + 1, hf => by
    have hmem : ks.contains .newLine = true := by
      simpa using List.mem_of_mem_head? hks
    simp only [skipFor, exec_current_bind, Cursor.onto_current, List.headD_cons, hn, hks,
      ne_eq, not_true_eq_false, if_false, hmem, if_true, bind_assoc]
    refine exec_advance_bind_cut hN fun hl => ?_
    have h5 := Token.five_le_readDepth (ts.headD last)
    exact exec_skipFor_stop_bind_cut (by simpa using hstop) (by omega) (fun _ => h hl) fuel
      (by omega)

/-- Skipping over one line feed moves onto the token after it, read one level below the skip,
which stops there. -/
theorem exec_skip_newline_bind_cut {ks : List TokenKind} {d : Nat} {n : Token}
    (hks : ks.head? = some .newLine) (hn : n.kind = .newLine) (hstop : (ts.headD last).kind ∉ ks)
    (hN : d + 1 + (ts.headD last).readDepth ≤ N)
    (h : d + 1 + (ts.headD last).readDepth ≤ nestingLimit →
      exec (f ()) (Cursor.onto ts last) = cut N r) :
    exec (skip d ks >>= f) (Cursor.onto (n :: ts) last) = cut N r := by
  simp only [skip, bind_assoc]
  refine exec_reach_bind_cut (by omega) fun _ => ?_
  rw [exec_get_bind]
  exact exec_skipFor_newline_bind_cut hks hn hstop hN h _ (by simp [Cursor.onto])

/-- Skipping a run of at most one line feed: with none, the skip tests the token it stops at;
with one, it moves onto the token after it. -/
theorem exec_skip_lineFeeds_bind_cut {ks : List TokenKind} {d : Nat} {nls : List Token}
    (hks : ks.head? = some .newLine) (hnls : ∀ n ∈ nls, n.kind = .newLine) (hone : nls.length ≤ 1)
    (hstop : (ts.headD last).kind ∉ ks) (hN : d + 1 + nls.length * (ts.headD last).readDepth ≤ N)
    (h : d + 1 + nls.length * (ts.headD last).readDepth ≤ nestingLimit →
      exec (f ()) (Cursor.onto ts last) = cut N r) :
    exec (skip d ks >>= f) (Cursor.onto (nls ++ ts) last) = cut N r := by
  match nls, hone with
  | [], _ =>
    simp only [List.length_nil, Nat.zero_mul, Nat.add_zero] at hN h
    exact exec_skip_stop_bind_cut (by simpa using hstop) hN h
  | [n], _ =>
    simp only [List.length_singleton, Nat.one_mul] at hN h
    exact exec_skip_newline_bind_cut hks (hnls n List.mem_cons_self) hstop hN h

/-! ## Chains of signs -/

/-- A sign at level `d` takes two levels and reads its operand there. -/
theorem exec_expression_neg {u : Token} (hu : u.kind = .minus) {fuel d m : Nat} {x : Expr}
    {c' : Cursor} (hN : d + 2 + (ts.headD last).readDepth ≤ N) (hN' : d + 4 ≤ N)
    (h : exec (expression fuel (d + 2) prefixPrecedence) (Cursor.onto ts last) =
      cut N (.ok (x, c')))
    (hstop : c'.current.kind.precedence ≤ m) :
    exec (expression (fuel + 2) d m) (Cursor.onto (u :: ts) last) =
      cut N (.ok (.unary .neg u.position x, c')) := by
  simp only [Parse.expression, Parse.primary, bind_assoc]
  refine exec_reach_bind_cut (by omega) fun _ => ?_
  refine exec_reach_bind_cut (by omega) fun _ => ?_
  have hsign : Sign.ofKind? TokenKind.minus = some .neg := rfl
  simp only [exec_current_bind, Cursor.onto_current, List.headD_cons, hu, hsign, bind_assoc]
  refine exec_reach_bind_cut (by omega) fun _ => ?_
  refine exec_advance_bind_cut hN fun _ => ?_
  refine exec_bind_cut h le_rfl fun hl => ?_
  refine exec_reach_bind_cut (by omega) fun _ => ?_
  rw [pure_bind, exec_operators_stop (by omega) hstop, cut_of_le hl]

/-- A numeral at level `D`, before a token that opens no argument list and continues nothing,
is read with the token after it, `D + 2` levels below the rule that moves onto it. -/
theorem exec_expression_numeral {v : Token} {form : NumeralForm} (ts : List Token) (last : Token)
    (hv : v.kind = .numericLiteral) (hform : v.form = some form)
    (hnext : (ts.headD last).kind ≠ .openParen) (fuel D m : Nat)
    (hstop : (ts.headD last).kind.precedence ≤ m) :
    exec (expression (fuel + 3) D m) (Cursor.onto (v :: ts) last) =
      cut (D + 2 + (ts.headD last).readDepth)
        (.ok (.num v.text form v.position, Cursor.onto ts last)) := by
  have h5 := Token.five_le_readDepth (ts.headD last)
  simp only [Parse.expression, Parse.primary, bind_assoc]
  refine exec_reach_bind_cut (by omega) fun _ => ?_
  refine exec_reach_bind_cut (by omega) fun _ => ?_
  simp only [exec_current_bind, Cursor.onto_current, List.headD_cons, hv, hform, bind_assoc]
  refine exec_advance_bind_cut le_rfl fun hl => ?_
  refine exec_reach_bind_cut (by omega) fun _ => ?_
  rw [exec_bind_ok (exec_calls_stop (by omega) (by simpa using hnext) (by omega)),
    exec_operators_stop (by omega) (by simpa using hstop), cut_of_le hl]

/-- **A chain of signs.** Minus signs `us` before tokens that read at level `D` as `x`: each sign
reads its operand two levels below its own, so the chain read at `D - 2 * us.length` gives `x`
under the signs, and fails at the limit exactly where `x` does, given the signs' own reading of
the token after each stays within it. The induction is on the signs, outermost first. -/
theorem exec_expression_negs {rest : List Token} {D F : Nat} {x : Expr} {c' : Cursor}
    (hN : D + 7 ≤ N)
    (htail : ∀ fuel m, F ≤ fuel →
      exec (expression fuel D m) (Cursor.onto rest last) = cut N (.ok (x, c')))
    (hstop : c'.current.kind.precedence = 0) :
    ∀ us : List Token, (∀ u ∈ us, u.kind = .minus) → ∀ fuel d m, d + 2 * us.length = D →
      F + 2 * us.length ≤ fuel →
      exec (expression fuel d m) (Cursor.onto (us ++ rest) last) =
        cut N (.ok (us.foldr (fun u e => .unary .neg u.position e) x, c'))
  | [], _, fuel, d, m, hd, hf => by
    simp only [List.length_nil, Nat.mul_zero, Nat.add_zero] at hd hf
    subst hd
    exact htail fuel m hf
  | u :: us, hus, fuel, d, m, hd, hf => by
    simp only [List.length_cons] at hd hf
    obtain ⟨fuel, rfl⟩ : ∃ f', fuel = f' + 2 := ⟨fuel - 2, by omega⟩
    rw [List.cons_append, List.foldr_cons]
    have hrd := Token.readDepth_le ((us ++ rest).headD last)
    have hinner := exec_expression_negs hN htail hstop us
      (fun v hv => hus v (List.mem_cons_of_mem u hv)) fuel (d + 2) prefixPrecedence (by omega)
      (by omega)
    exact exec_expression_neg (hus u List.mem_cons_self) (by omega) (by omega) hinner (by omega)

/-! ## Statements -/

/-- A statement that starts with a token of an expression other than a reserved word is that
expression, read one level down. -/
theorem exec_statement_expression {u : Token} (hu : u.kind.startsExpr = true)
    (hres : u.kind = .identifier → isReserved u.text = false) {fuel d : Nat} {x : Expr}
    {c' : Cursor} (hN : d + 2 ≤ N)
    (h : exec (expression fuel (d + 1) 0) (Cursor.onto (u :: ts) last) = cut N (.ok (x, c'))) :
    exec (statement (fuel + 1) d) (Cursor.onto (u :: ts) last) = cut N (.ok (.expr x, c')) := by
  have hcurly : u.kind ≠ .openCurly := by
    intro hc
    simp [hc, TokenKind.startsExpr] at hu
  have hexpr : exec (expression fuel (d + 1) 0 >>= fun e => pure (Stmt.expr e))
      (Cursor.onto (u :: ts) last) = cut N (.ok (.expr x, c')) :=
    exec_bind_cut h le_rfl fun hl => exec_pure_cut hl
  rw [Parse.statement.eq_2]
  refine exec_reach_bind_cut hN fun _ => ?_
  simp only [exec_current_bind, Cursor.onto_current, List.headD_cons, if_neg hcurly]
  by_cases hk : u.kind = .identifier
  · -- a name that is no keyword starts an expression too
    have hw := hres hk
    simp only [isReserved, reservedWords, List.contains_cons, List.contains_nil, Bool.or_false,
      Bool.or_eq_false_iff, beq_eq_false_iff_ne, ne_eq] at hw
    obtain ⟨hlet, hif, helse, hfor, hret⟩ := hw
    simp only [if_pos hk, if_neg hlet, if_neg hif, if_neg hfor, if_neg hret, if_neg helse]
    exact hexpr
  · simp only [if_neg hk]
    exact hexpr

/-- The statement loop up to the end of input, on a last statement that is an expression. -/
theorem exec_statements_expression {u : Token} (hu : u.kind.startsExpr = true)
    (hres : u.kind = .identifier → isReserved u.text = false) (hlast : last.kind = .eof)
    {fuel d : Nat} {acc : List Stmt} {x : Expr} (hN : d + 3 ≤ N)
    (h : exec (expression fuel (d + 2) 0) (Cursor.onto (u :: ts) last) =
      cut N (.ok (x, Cursor.onto [] last))) :
    exec (statements (fuel + 2) d .eof acc) (Cursor.onto (u :: ts) last) =
      cut N (.ok ((.expr x :: acc).reverse, Cursor.onto [] last)) := by
  have heof := (TokenKind.startsStmt_ne (k := u.kind) (by simp [TokenKind.startsStmt, hu])).2.2.2
  rw [Parse.statements.eq_2]
  simp only [exec_current_bind, Cursor.onto_current, List.headD_cons, if_neg heof]
  refine exec_bind_cut (exec_statement_expression hu hres (by omega) h) le_rfl fun hl => ?_
  simp only [exec_current_bind, Cursor.onto_current, List.headD_nil, hlast, if_true]
  exact exec_pure_cut hl

/-- The statement loop on `k` minus signs before an operand read `2 * k + 2` levels below the
loop, where its reading ends the input at level `N`: the statement is the operand under the
signs. -/
theorem exec_statements_negs {us rest : List Token} {u : Token} {x : Expr} {k F : Nat}
    (hus : us.map Token.erase = List.replicate k (Sign.neg.token 0))
    (hu : u.kind.startsExpr = true) (hres : u.kind = .identifier → isReserved u.text = false)
    (hlast : last.kind = .eof) {d : Nat} (hN : d + 2 * k + 9 ≤ N)
    (htail : ∀ fuel m, F ≤ fuel →
      exec (expression fuel (d + 2 + 2 * k) m) (Cursor.onto (u :: rest) last) =
        cut N (.ok (x, Cursor.onto [] last)))
    (fuel : Nat) (acc : List Stmt) (hf : F + 2 * k + 2 ≤ fuel) :
    exec (statements fuel d .eof acc) (Cursor.onto (us ++ u :: rest) last) =
      cut N (.ok ((.expr (us.foldr (fun u e => .unary .neg u.position e) x) :: acc).reverse,
        Cursor.onto [] last)) := by
  have hlen : us.length = k := by simpa using congrArg List.length hus
  have hprec : last.kind.precedence = 0 := by simp [hlast, TokenKind.precedence]
  have htail' : ∀ fuel m, F ≤ fuel →
      exec (expression fuel (d + 2 + 2 * us.length) m) (Cursor.onto (u :: rest) last) =
        cut N (.ok (x, Cursor.onto [] last)) := by
    rw [hlen]
    exact htail
  -- the statement starts with the first sign, or with the operand when there is none
  obtain ⟨s, rest', hsr, hs, hsres⟩ : ∃ s rest', us ++ u :: rest = s :: rest' ∧
      s.kind.startsExpr = true ∧ (s.kind = .identifier → isReserved s.text = false) :=
    head_of_signs hus (fun s hs => ⟨by simp [hs, TokenKind.startsExpr], by simp [hs]⟩) ⟨hu, hres⟩
  obtain ⟨fuel, rfl⟩ : ∃ f', fuel = f' + 2 := ⟨fuel - 2, by omega⟩
  have hchain := exec_expression_negs (by omega) htail' (by simp [hprec]) us (kind_of_signs hus)
    fuel (d + 2) 0 rfl (by omega)
  rw [hsr] at hchain ⊢
  exact exec_statements_expression hs hsres hlast (by omega) hchain

/-- A declaration `let x` of a name, then a line feed: the statement loop reads the declaration,
eleven levels below its own at the deepest, and goes on after the line feed. -/
theorem exec_statements_let {l x n : Token} (hl : l.kind = .identifier) (hlet : l.text = "let")
    (hx : x.kind = .identifier) (hres : isReserved x.text = false) (hn : n.kind = .newLine)
    (hstop : (ts.headD last).kind ∉ separators) {fuel d : Nat} {acc : List Stmt}
    {res : Except ParseError (List Stmt × Cursor)} (hN : d + 11 ≤ N)
    (hN' : d + 2 + (ts.headD last).readDepth ≤ N)
    (h : exec (statements (fuel + 2) d .eof (.letDecl x.text none :: acc)) (Cursor.onto ts last) =
      cut N res) :
    exec (statements (fuel + 3) d .eof acc) (Cursor.onto (l :: x :: n :: ts) last) = cut N res := by
  have hx6 : x.readDepth = 6 := by simp [Token.readDepth, hx]
  have hn5 : n.readDepth = 5 := by simp [Token.readDepth, hn]
  rw [Parse.statements.eq_2]
  simp only [exec_current_bind, Cursor.onto_current, List.headD_cons, hl, reduceCtorEq, if_false]
  rw [Parse.statement.eq_2]
  simp only [bind_assoc]
  refine exec_reach_bind_cut (by omega) fun _ => ?_
  simp only [exec_current_bind, Cursor.onto_current, List.headD_cons, hl, hlet, reduceCtorEq,
    if_false, if_true, Parse.letDecl, bind_assoc]
  refine exec_reach_bind_cut (by omega) fun _ => ?_
  refine exec_keyword_bind_cut (by omega) (by simp only [List.headD_cons, hx6]; omega) fun _ => ?_
  refine exec_eat_bind_cut hx (by simp only [List.headD_cons, hn5]; omega) fun _ => ?_
  simp only [hres, Bool.false_eq_true, if_false, pure_bind, bind_assoc]
  refine exec_reach_bind_cut (by omega) fun _ => ?_
  simp only [exec_current_bind, Cursor.onto_current, List.headD_cons, hn, reduceCtorEq, if_false,
    bind_assoc]
  refine exec_reach_bind_cut (by omega) fun _ => ?_
  simp only [pure_bind, exec_current_bind, Cursor.onto_current, List.headD_cons, hn, reduceCtorEq,
    if_false, ne_eq, not_true_eq_false, true_or, if_true]
  exact exec_skip_newline_bind_cut rfl hn hstop hN' fun _ => h

/-- A program read at level `q` is its statements read at `q + 1` up to the end of input, after
its first token is read `q + 2` levels down. -/
theorem exec_topLevel_statements {u : Token} (hu : u.kind ∉ separators) {fuel q : Nat}
    {ss : List Stmt} {c' : Cursor} (hN : q + 2 + u.readDepth ≤ N) (hN' : q + 4 ≤ N)
    (h : exec (statements fuel (q + 1) .eof []) (Cursor.onto (u :: ts) last) =
      cut N (.ok (ss, c'))) :
    exec (topLevel (fuel + 1) q) (Cursor.onto (u :: ts) last) = cut N (.ok (ss, c')) := by
  simp only [topLevel, exec_current_bind, Cursor.onto_current, List.headD_cons]
  refine exec_reach_bind_cut hN fun _ => ?_
  simp only [Parse.block, bind_assoc, Bool.false_eq_true, if_false, pure_bind]
  refine exec_reach_bind_cut (by omega) fun _ => ?_
  refine exec_skip_stop_bind_cut (by simpa using hu) (by omega) fun _ => ?_
  refine exec_bind_cut h le_rfl fun hl => ?_
  refine exec_reach_bind_cut (by omega) fun _ => ?_
  refine exec_reach_bind_cut (by omega) fun _ => ?_
  exact exec_pure_cut hl

end Parse

/-! ## The negations of one -/

namespace Expr

variable (e : Expr)

theorem isOperation_negs (he : e.isOperation = false) :
    ∀ k, ((Expr.unary .neg 0)^[k] e).isOperation = false
  | 0 => he
  | k + 1 => by rw [Function.iterate_succ_apply']; rfl

/-- `k` signs before an operand that is no operation are written as `k` minus signs before it. -/
theorem render_negs (he : e.isOperation = false) :
    ∀ k, ((Expr.unary .neg 0)^[k] e).render = String.ofList (List.replicate k '-') ++ e.render
  | 0 => by simp
  | k + 1 => by
    rw [Function.iterate_succ_apply', Expr.render, isOperation_negs e he k, render_negs he k]
    simp [parenthesizeIf, Sign.symbol, List.replicate_succ, String.append_assoc]

theorem tokens_negs (he : e.isOperation = false) :
    ∀ k, ((Expr.unary .neg 0)^[k] e).tokens = List.replicate k (Sign.neg.token 0) ++ e.tokens
  | 0 => by simp
  | k + 1 => by
    rw [Function.iterate_succ_apply', Expr.tokens, isOperation_negs e he k, tokens_negs he k]
    simp [parenTokensIf, List.replicate_succ]

theorem printable_negs : ∀ k, ((Expr.unary .neg 0)^[k] e).Printable ↔ e.Printable
  | 0 => Iff.rfl
  | k + 1 => by
    rw [Function.iterate_succ_apply', Expr.Printable]
    exact printable_negs k

/-- Signs read from tokens, their offsets forgotten. -/
theorem erase_foldr_neg (x : Expr) : ∀ us : List Token,
    (us.foldr (fun u e => Expr.unary .neg u.position e) x).erase =
      (Expr.unary .neg 0)^[us.length] x.erase
  | [] => rfl
  | u :: us => by
    rw [List.foldr_cons, Expr.erase, erase_foldr_neg x us, List.length_cons,
      Function.iterate_succ_apply']

end Expr

/-- The program of one statement: `1` under `k` minus signs. -/
def Program.negations (k : Nat) : Program :=
  [.expr ((Expr.unary .neg 0)^[k] (.num "1" ⟨.integer, .decimal⟩ 0))]

theorem Program.printable_negations (k : Nat) : (Program.negations k).Printable := by
  have hone : Numeral ['1'] ⟨.integer, .decimal⟩ :=
    .integer (.inr ⟨⟨by simp, List.all_eq_true.1 (by decide)⟩, by decide⟩)
  simpa [Program.negations, Program.Printable, Stmt.PrintableList, Stmt.Printable,
    Expr.printable_negs, Expr.Printable] using hone

theorem Program.render_negations (k : Nat) :
    (Program.negations k).render = String.ofList (List.replicate k '-') ++ "1" := by
  simp [Program.negations, Program.render, Stmt.render, Stmt.renderLines,
    Expr.render_negs (.num "1" ⟨.integer, .decimal⟩ 0) rfl, Expr.render]

theorem Program.tokens_negations (k : Nat) :
    (Program.negations k).tokens =
      List.replicate k (Sign.neg.token 0) ++ [Expr.numeralToken "1" ⟨.integer, .decimal⟩ 0] := by
  simp [Program.negations, Program.tokens, Stmt.tokens, Stmt.lineTokens,
    Expr.tokens_negs (.num "1" ⟨.integer, .decimal⟩ 0) rfl, Expr.tokens]

section Reading

variable [NestingLimit]

/-- A text whose tokens are read by a run that ends at level `N`. -/
theorem Program.parseAt_of_exec_cut {src : String} {ts : List Token} {e : Token} {q N : Nat}
    {p : Program} {c' : Cursor} (hstream : TokenStream.ofString src = ⟨ts, .ok e⟩)
    (h : Parse.exec (Parse.topLevel (parseFuel ts.length) q) (Cursor.onto ts e) =
      Parse.cut N (.ok (p, c'))) :
    Program.parseAt q src = if nestingLimit < N then .error .tooDeep else .ok p := by
  simp only [Program.parseAt, hstream, Program.ofTokens, Cursor.start_onto]
  change (Parse.exec (Parse.topLevel _ q) (Cursor.onto ts e) >>= fun x => pure x.1 :
    Except ParseError Program) = _
  rw [h, Parse.cut]
  split <;> rfl

/-- A text whose statements, read from its first token at level `q + 1`, end the input at level
`N`: reading it at level `q` gives them within the limit, and fails at the limit past it. -/
theorem Program.parseAt_of_statements {src : String} {u last : Token} {rest : List Token}
    {q N F : Nat} {ss : List Stmt} (hstream : TokenStream.ofString src = ⟨u :: rest, .ok last⟩)
    (hu : u.kind ∉ separators) (hN : q + 9 ≤ N) (hF : F < parseFuel (u :: rest).length)
    (h : ∀ fuel, F ≤ fuel → Parse.exec (Parse.statements fuel (q + 1) .eof [])
      (Cursor.onto (u :: rest) last) = Parse.cut N (.ok (ss, Cursor.onto [] last))) :
    Program.parseAt q src = if nestingLimit < N then .error .tooDeep else .ok ss := by
  have hrd := Token.readDepth_le u
  obtain ⟨fuel, hfuel⟩ : ∃ f, parseFuel (u :: rest).length = f + 1 :=
    ⟨parseFuel (u :: rest).length - 1, by omega⟩
  have hrun : Parse.exec (Parse.topLevel (parseFuel (u :: rest).length) q)
      (Cursor.onto (u :: rest) last) = Parse.cut N (.ok (ss, Cursor.onto [] last)) := by
    rw [hfuel]
    exact Parse.exec_topLevel_statements hu (by omega) (by omega) (h fuel (by omega))
  exact Program.parseAt_of_exec_cut hstream hrun

theorem Program.parseAt_of_map_erase {q : Nat} {src : String} {e : ParseError}
    (h : (Program.parseAt q src).map Program.erase = .error e) : Program.parseAt q src = .error e := by
  cases hp : Program.parseAt q src <;> simp_all [Except.map]

open Parse in
/-- The statement loop on the tokens of `k` minus signs and `1`: the numeral is read
`2 * k + 2` levels below the loop, and seven more with the end of input after it. -/
theorem Parse.exec_statements_negations {us : List Token} {v last : Token} {k : Nat}
    (hus : us.map Token.erase = List.replicate k (Sign.neg.token 0))
    (hv : v.erase = Expr.numeralToken "1" ⟨.integer, .decimal⟩ 0) (hlast : last.kind = .eof)
    (fuel d : Nat) (acc : List Stmt) (hf : 2 * k + 5 ≤ fuel) :
    exec (statements fuel d .eof acc) (Cursor.onto (us ++ [v]) last) =
      cut (d + 2 * k + 9) (.ok ((.expr (us.foldr (fun u e => .unary .neg u.position e)
        (.num "1" ⟨.integer, .decimal⟩ v.position)) :: acc).reverse, Cursor.onto [] last)) := by
  have hvk : v.kind = .numericLiteral := Token.kind_eq_of_erase hv
  have hvf : v.form = some ⟨.integer, .decimal⟩ := congrArg Token.form hv
  have hvt : v.text = "1" := Token.text_eq_of_erase hv
  have hend5 : last.readDepth = 5 := by simp [Token.readDepth, hlast]
  have hprec : last.kind.precedence = 0 := by simp [hlast, TokenKind.precedence]
  -- the numeral at the end, read where the signs put it
  have htail : ∀ fuel m, 3 ≤ fuel →
      exec (expression fuel (d + 2 + 2 * k) m) (Cursor.onto [v] last) =
        cut (d + 2 * k + 9) (.ok (.num "1" ⟨.integer, .decimal⟩ v.position, Cursor.onto [] last)) := by
    intro fuel m hf
    obtain ⟨fuel, rfl⟩ : ∃ f', fuel = f' + 3 := ⟨fuel - 3, by omega⟩
    have h := exec_expression_numeral [] last hvk hvf (by simp [hlast]) fuel (d + 2 + 2 * k) m
      (by simp [hprec])
    rwa [List.headD_nil, hend5, hvt, show d + 2 + 2 * k + 2 + 5 = d + 2 * k + 9 by omega] at h
  exact exec_statements_negs hus (by simp [hvk, TokenKind.startsExpr]) (by simp [hvk]) hlast le_rfl
    htail fuel acc (by omega)

/-- **Signs cost two levels each.** The text of `k` minus signs before `1`, read at level `q`,
reads as `1` negated `k` times, offsets forgotten, exactly when `q + 2 * k + 10` is within the
nesting limit, and fails at the limit otherwise. -/
theorem Program.parseAt_negations (q k : Nat) :
    (Program.parseAt q (Program.negations k).render).map Program.erase =
      if nestingLimit < q + 2 * k + 10 then .error .tooDeep else .ok (Program.negations k) := by
  obtain ⟨ts, hts, hstream⟩ := TokenStream.ofString_render (Program.printable_negations k)
  rw [Program.tokens_negations] at hts
  obtain ⟨us, vs, rfl, hus, hvs⟩ := List.map_eq_append_iff.1 hts
  obtain ⟨v, rfl, hv⟩ := List.map_eq_singleton_iff.1 hvs
  have hlen : us.length = k := by simpa using congrArg List.length hus
  obtain ⟨u, rest, hur, hu⟩ : ∃ u rest, us ++ [v] = u :: rest ∧ u.kind ∉ separators :=
    head_of_signs hus (fun s hs => by simp [hs, separators])
      (by simp [Token.kind_eq_of_erase hv, separators, Expr.numeralToken])
  rw [hur] at hstream
  have hread := Program.parseAt_of_statements (q := q) (N := q + 1 + 2 * k + 9) (F := 2 * k + 5)
    hstream hu (by omega) (by rw [← hur]; simp [parseFuel]; omega) fun fuel hf => by
      rw [← hur]
      exact Parse.exec_statements_negations hus hv (by rfl) fuel (q + 1) [] hf
  rw [hread, show q + 1 + 2 * k + 9 = q + 2 * k + 10 by omega]
  split
  · rfl
  · simp [Except.map, Program.negations, Program.erase, Stmt.eraseList, Stmt.erase,
      Expr.erase_foldr_neg, hlen, Expr.erase]

end Reading

/-- The text of `1` under 4994 minus signs, which the printer writes for a printable program,
passes the command-line host's nesting limit when it is read back. -/
theorem Program.parse_render_negations_past_limit :
    (Program.negations 4994).Printable ∧
      (Program.negations 4994).render = String.ofList (List.replicate 4994 '-') ++ "1" ∧
      Program.parse (Program.negations 4994).render = .error .tooDeep := by
  refine ⟨Program.printable_negations 4994, Program.render_negations 4994, ?_⟩
  have h := Program.parseAt_negations readLevel 4994
  rw [if_pos (by decide)] at h
  exact Program.parseAt_of_map_erase h

theorem Program.render_let_negations (k : Nat) :
    Program.render (.letDecl "x" none :: Program.negations k) =
      "let x" ++ "\n" ++ (Program.negations k).render := by
  have hlet : "let " ++ "x" = "let x" := by decide
  simp only [Program.render, Program.negations, Stmt.render, Stmt.renderInit, Stmt.renderLines,
    String.append_empty, String.append_assoc]
  rw [← String.append_assoc, hlet]

section Reading

variable [NestingLimit]

/-- The text `let x`, a line feed, then `k` minus signs before `1`, read at level `q`: the
declaration reads within twelve levels, and the chain as it reads alone one level deeper. -/
theorem Program.parseAt_let_negations (q k : Nat) (hk : 0 < k) :
    (Program.parseAt q ("let x" ++ "\n" ++ (Program.negations k).render)).map Program.erase =
      if nestingLimit < q + 2 * k + 10 then .error .tooDeep
      else .ok (.letDecl "x" none :: Program.negations k) := by
  have hp : Program.Printable (.letDecl "x" none :: Program.negations k) :=
    ⟨show isName "x" = true by decide, Program.printable_negations k⟩
  obtain ⟨ts, hts, hstream⟩ := TokenStream.ofString_render hp
  rw [Program.render_let_negations] at hstream
  have htok : Program.tokens (.letDecl "x" none :: Program.negations k) =
      Token.plain .identifier "let" :: Token.plain .identifier "x" :: Token.plain .newLine "\n" ::
        (Program.negations k).tokens := by
    simp [Program.tokens, Program.negations, Stmt.tokens, Stmt.lineTokens]
  rw [htok, Program.tokens_negations] at hts
  obtain ⟨l, ts, rfl, hl, hts⟩ := List.map_eq_cons_iff.1 hts
  obtain ⟨x, ts, rfl, hx, hts⟩ := List.map_eq_cons_iff.1 hts
  obtain ⟨n, ts, rfl, hn, hts⟩ := List.map_eq_cons_iff.1 hts
  obtain ⟨us, vs, rfl, hus, hvs⟩ := List.map_eq_append_iff.1 hts
  obtain ⟨v, rfl, hv⟩ := List.map_eq_singleton_iff.1 hvs
  have hlen : us.length = k := by simpa using congrArg List.length hus
  -- the first sign stops the skip after the line feed
  obtain ⟨u, us', rfl⟩ : ∃ u us', us = u :: us' := by
    cases us with
    | nil => simp at hlen; omega
    | cons u us' => exact ⟨u, us', rfl⟩
  have hlen' : us'.length + 1 = k := by rw [← hlen, List.length_cons]
  have hu : u.kind = .minus := kind_of_signs hus u List.mem_cons_self
  have hlk : l.kind = .identifier := Token.kind_eq_of_erase hl
  have hxk : x.kind = .identifier := Token.kind_eq_of_erase hx
  have hxt : x.text = "x" := Token.text_eq_of_erase hx
  have hread := Program.parseAt_of_statements (q := q) (N := q + 1 + 2 * k + 9) (F := 2 * k + 8)
    hstream (by simp [hlk, separators]) (by omega) (by simp [parseFuel]; omega) fun fuel hf => by
      obtain ⟨fuel, rfl⟩ : ∃ f, fuel = f + 3 := ⟨fuel - 3, by omega⟩
      refine Parse.exec_statements_let hlk (Token.text_eq_of_erase hl) hxk (by rw [hxt]; decide)
        (Token.kind_eq_of_erase hn) (by simp [hu, separators]) (by omega)
        (by simp [Token.readDepth, hu]; omega) ?_
      exact Parse.exec_statements_negations hus hv (by rfl) (fuel + 2) (q + 1) [.letDecl x.text none]
        (by omega)
  rw [hread, show q + 1 + 2 * k + 9 = q + 2 * k + 10 by omega]
  split
  · rfl
  · simp only [Except.map, Program.negations, Program.erase, Stmt.eraseList, Stmt.erase,
      Expr.erase_foldr_neg, hlen, Expr.erase, hxt, List.reverse_cons, List.reverse_nil,
      List.nil_append, List.cons_append]

end Reading

end Scriptlet.Syntax

namespace Scriptlet.Session

open Syntax

/-- `let x`, then 4993 minus signs before `1` on the next line: each text reads by itself, but
a run reads its text one level deeper, where the signs pass the command-line host's limit. The
joined text fails before anything runs and leaves the globals as they were, while the first
text run alone binds `x`, and the second then fails in the same way with `x` bound. -/
theorem run_join_past_limit :
    Program.parse "let x" = .ok [.letDecl "x" none] ∧
      (∃ p, Program.parse (Program.negations 4993).render = .ok p) ∧
      (start true).run ("let x" ++ "\n" ++ (Program.negations 4993).render) =
        (⟨.error (.parse .tooDeep), ""⟩, start true) ∧
      ((start true).run "let x").1.result = .ok .null ∧
      ((start true).run "let x").2.run (Program.negations 4993).render =
        (⟨.error (.parse .tooDeep), ""⟩, ((start true).run "let x").2) ∧
      (start true).globals =
        "{const null: null, const true: true, const false: false, const print: <native print>}" ∧
      ((start true).run "let x").2.globals =
        "{const null: null, const true: true, const false: false, const print: <native print>, x: null}" ∧
      ∀ p₂, ¬ RunsInSequence (start true) "let x" (Program.negations 4993).render p₂ := by
  have hfirst : Program.parse "let x" = .ok [.letDecl "x" none] := by
    with_unfolding_all rfl
  have hread := Program.parseAt_negations readLevel 4993
  rw [if_neg (by decide)] at hread
  have hsecond : ∃ p, Program.parse (Program.negations 4993).render = .ok p := by
    cases hp : Program.parseAt readLevel (Program.negations 4993).render with
    | error e =>
      rw [hp] at hread
      cases hread
    | ok p => exact ⟨p, hp⟩
  have hjoin : Program.parseAt (runLevel + 1) ("let x" ++ "\n" ++ (Program.negations 4993).render) =
      .error .tooDeep := by
    have h := Program.parseAt_let_negations (runLevel + 1) 4993 (by decide)
    rw [if_pos (by decide)] at h
    exact Program.parseAt_of_map_erase h
  have halone : Program.parseAt (runLevel + 1) (Program.negations 4993).render = .error .tooDeep := by
    have h := Program.parseAt_negations (runLevel + 1) 4993
    rw [if_pos (by decide)] at h
    exact Program.parseAt_of_map_erase h
  -- a text that does not read leaves any session as it was
  have hjoined := fun s => run_of_parseAt_error s hjoin
  have hthen := fun s => run_of_parseAt_error s halone
  -- the value carries no number, so the kernel can evaluate the run and compare its type
  have htype : ((start true).run "let x").1.result.toOption.map Value.type = some .null := by
    decide +kernel
  have hok : ((start true).run "let x").1.result = .ok .null := by
    rcases h : ((start true).run "let x").1.result with f | v
    · simp [h, Except.toOption] at htype
    · cases v <;> simp_all [Except.toOption, Value.type]
  have hnone : ((start true).store.frame? globalFrame).any (·.binds "x") = false := by decide
  have hbound : (((start true).run "let x").2.store.frame? globalFrame).any (·.binds "x") = true := by
    decide +kernel
  refine ⟨hfirst, hsecond, hjoined _, hok, hthen _, by decide, by decide +kernel, fun p₂ h => ?_⟩
  unfold RunsInSequence at h
  rw [hok] at h
  obtain ⟨-, hstore, -⟩ := h
  rw [hjoined, hthen] at hstore
  have hx := congrArg (fun st : Store => (st.frame? globalFrame).any (·.binds "x")) hstore
  simp only [Store.frame?_erase, Option.any_map, Frame.binds_erase] at hx
  rw [hnone, hbound] at hx
  exact Bool.false_ne_true hx

end Scriptlet.Session

namespace Scriptlet.Syntax

/-! ## A line feed in a call -/

/-- `print(2,`, `j` line feeds, then `0x1)`. -/
theorem lexes_call_lineFeeds (j : Nat) :
    Lexes ("print(2," ++ String.ofList (List.replicate j '\n') ++ "0x1)").toList
      ([Token.plain .identifier "print", Token.plain .openParen "(",
        Expr.numeralToken "2" ⟨.integer, .decimal⟩ 0, Token.plain .comma ","] ++
        List.replicate j (Token.plain .newLine "\n") ++
        [Expr.numeralToken "0x1" ⟨.integer, .hex⟩ 0, Token.plain .closeParen ")"])
      (fun _ => True) := by
  have htwo : Numeral ['2'] ⟨.integer, .decimal⟩ :=
    .integer (.inr ⟨⟨by simp, List.all_eq_true.1 (by decide)⟩, by decide⟩)
  have hhex : Numeral ['0', 'x', '1'] ⟨.integer, .hex⟩ := .hex ⟨by simp, List.all_eq_true.1 (by decide)⟩
  have hclose := (lexes_numeral hhex).append lexes_closeParen
    fun _ _ => separated_cons rfl (by decide)
  have hfeeds := (Lexes.replicate lexes_newLine j).append hclose fun _ _ => trivial
  have hcomma := lexes_comma.append hfeeds fun _ _ => trivial
  have htwo' := (lexes_numeral htwo).append hcomma fun _ _ => separated_cons rfl (by decide)
  have hopen := lexes_openParen.append htwo' fun _ _ => trivial
  have hname := (lexes_name (show isName "print" = true by decide)).append hopen
    fun _ _ => separated_cons rfl (by decide)
  refine hname.of_eq ?_ ?_
  · simp
  · simp

namespace Parse

variable {α : Type} [NestingLimit]
variable {f : Unit → Parse α} {N : Nat} {r : Except ParseError (α × Cursor)}
variable {ts : List Token} {last : Token}

/-- The list of an argument list at level `d`, after its `(`: the first item is read with the
`(`, `d + 2` levels down. -/
theorem exec_items_cut {o v : Token} (ho : o.kind = .openParen) (hv : v.kind ≠ .newLine) {fuel d : Nat}
    {res : Except ParseError (List Expr × Cursor)} (hN : d + 2 + v.readDepth ≤ N)
    (h : d + 2 + v.readDepth ≤ nestingLimit →
      exec (itemsFrom fuel d []) (Cursor.onto (v :: ts) last) = cut N res) :
    exec (items (fuel + 1) d) (Cursor.onto (o :: v :: ts) last) = cut N res := by
  have h5 := Token.five_le_readDepth v
  simp only [Parse.items]
  refine exec_reach_bind_cut (by omega) fun _ => ?_
  refine exec_eat_bind_cut ho (by simpa using hN) fun hl => ?_
  refine exec_skip_stop_bind_cut (by simpa using hv) (by omega) fun _ => ?_
  exact h (by simpa using hl)

/-- A numeral item and a comma, then at most one line feed: the list goes on with the next item,
which is read one level deeper after a line feed than with none. -/
theorem exec_itemsFrom_comma {a cm v : Token} {nls : List Token} {form : NumeralForm}
    (ha : a.kind = .numericLiteral) (hform : a.form = some form) (hcm : cm.kind = .comma)
    (hnls : ∀ n ∈ nls, n.kind = .newLine) (hone : nls.length ≤ 1) (hv : v.kind ≠ .newLine)
    (hv' : v.kind ≠ .closeParen) {fuel d : Nat} {acc : List Expr}
    {res : Except ParseError (List Expr × Cursor)}
    (hN : d + 8 ≤ N) (hN' : d + 1 + ((nls ++ v :: ts).headD last).readDepth ≤ N)
    (hN'' : d + 2 + nls.length * v.readDepth ≤ N)
    (h : d + 2 + nls.length * v.readDepth ≤ nestingLimit →
      exec (itemsFrom (fuel + 3) d (.num a.text form a.position :: acc)) (Cursor.onto (v :: ts) last) =
        cut N res) :
    exec (itemsFrom (fuel + 4) d acc) (Cursor.onto (a :: cm :: (nls ++ v :: ts)) last) =
      cut N res := by
  have hcp : cm.kind ≠ .closeParen := by simp [hcm]
  rw [Parse.itemsFrom.eq_2]
  refine exec_reach_bind_cut (by omega) fun _ => ?_
  simp only [exec_current_bind, Cursor.onto_current, List.headD_cons, ha, reduceCtorEq, if_false]
  have hitem := exec_expression_numeral (cm :: (nls ++ v :: ts)) last ha hform (by simp [hcm])
    fuel (d + 1) 0 (by simp [hcm, TokenKind.precedence])
  simp only [List.headD_cons, Token.readDepth, hcm] at hitem
  refine exec_bind_cut hitem (by omega) fun _ => ?_
  refine exec_skip_stop_bind_cut (by simp [hcm]) (by omega) fun _ => ?_
  refine exec_reach_bind_cut (by omega) fun _ => ?_
  simp only [exec_current_bind, Cursor.onto_current, List.headD_cons, hcm, if_true]
  refine exec_advance_bind_cut hN' fun _ => ?_
  refine exec_skip_lineFeeds_bind_cut rfl hnls hone (by simpa using hv) (by simpa using hN'')
    fun hl => ?_
  refine exec_reach_bind_cut (by omega) fun _ => ?_
  simp only [exec_current_bind, Cursor.onto_current, List.headD_cons, hv', if_false]
  exact h (by simpa using hl)

/-- A numeral item closing the list at the end of input: the list ends eight levels below its
rule, where the item is read with the `)` after it. -/
theorem exec_itemsFrom_last {b cl : Token} {form : NumeralForm} (hb : b.kind = .numericLiteral)
    (hform : b.form = some form) (hcl : cl.kind = .closeParen) (hlast : last.kind = .eof)
    (fuel d : Nat) (acc : List Expr) :
    exec (itemsFrom (fuel + 4) d acc) (Cursor.onto [b, cl] last) =
      cut (d + 8) (.ok ((.num b.text form b.position :: acc).reverse, Cursor.onto [] last)) := by
  have hend5 : last.readDepth = 5 := by simp [Token.readDepth, hlast]
  rw [Parse.itemsFrom.eq_2]
  refine exec_reach_bind_cut (by omega) fun _ => ?_
  simp only [exec_current_bind, Cursor.onto_current, List.headD_cons, hb, reduceCtorEq, if_false]
  have hitem := exec_expression_numeral [cl] last hb hform (by simp [hcl]) fuel (d + 1) 0
    (by simp [hcl, TokenKind.precedence])
  simp only [List.headD_cons, Token.readDepth, hcl] at hitem
  refine exec_bind_cut hitem le_rfl fun hl => ?_
  refine exec_skip_stop_bind_cut (by simp [hcl]) (by omega) fun _ => ?_
  refine exec_reach_bind_cut (by omega) fun _ => ?_
  simp only [exec_current_bind, Cursor.onto_current, List.headD_cons, hcl, reduceCtorEq, if_false]
  refine exec_eat_bind_cut hcl (by simp only [List.headD_nil, hend5]; omega) fun _ => ?_
  exact exec_pure_cut hl

/-- A name called on one argument list that ends the input: the call is read at level `D` as its
list is read at `D + 4`. -/
theorem exec_expression_call {p o : Token} (hp : p.kind = .identifier)
    (hres : isReserved p.text = false) (ho : o.kind = .openParen) (hlast : last.kind = .eof)
    {fuel D m : Nat} {args : List Expr} (hN : D + 7 ≤ N)
    (h : exec (items (fuel + 1) (D + 4)) (Cursor.onto (o :: ts) last) =
      cut N (.ok (args, Cursor.onto [] last))) :
    exec (expression (fuel + 4) D m) (Cursor.onto (p :: o :: ts) last) =
      cut N (.ok (.call (.ident p.text) args, Cursor.onto [] last)) := by
  have ho5 : o.readDepth = 5 := by simp [Token.readDepth, ho]
  simp only [Parse.expression, Parse.primary, bind_assoc]
  refine exec_reach_bind_cut (by omega) fun _ => ?_
  refine exec_reach_bind_cut (by omega) fun _ => ?_
  simp only [exec_current_bind, Cursor.onto_current, List.headD_cons, hp, hres, Bool.false_eq_true,
    if_false, bind_assoc]
  refine exec_advance_bind_cut (by simp [ho5]; omega) fun _ => ?_
  refine exec_reach_bind_cut (by omega) fun _ => ?_
  rw [Parse.calls.eq_2]
  simp only [bind_assoc]
  refine exec_reach_bind_cut (by omega) fun _ => ?_
  simp only [exec_current_bind, Cursor.onto_current, List.headD_cons, ho, if_true, bind_assoc]
  refine exec_reach_bind_cut (by omega) fun _ => ?_
  refine exec_bind_cut h le_rfl fun hl => ?_
  refine exec_reach_bind_cut (by omega) fun _ => ?_
  rw [exec_bind_ok (exec_calls_stop (by omega) (by simp [hlast]) (by omega)),
    exec_operators_stop (by omega) (by simp [hlast, TokenKind.precedence]), cut_of_le hl]

end Parse

open Parse in
/-- The call `print(2, 0x1)` with `j ≤ 1` line feeds after its comma, read at level `D`: the
hexadecimal numeral after a line feed is read one level deeper than with none, and is then the
deepest step of the call. -/
theorem Parse.exec_expression_call_pair [NestingLimit] {p o a cm b cl last : Token} {nls : List Token}
    {j : Nat} (hp : p.erase = Token.plain .identifier "print")
    (ho : o.erase = Token.plain .openParen "(")
    (ha : a.erase = Expr.numeralToken "2" ⟨.integer, .decimal⟩ 0)
    (hcm : cm.erase = Token.plain .comma ",")
    (hnls : nls.map Token.erase = List.replicate j (Token.plain .newLine "\n")) (hj : j ≤ 1)
    (hb : b.erase = Expr.numeralToken "0x1" ⟨.integer, .hex⟩ 0)
    (hcl : cl.erase = Token.plain .closeParen ")") (hlast : last.kind = .eof) {fuel D m : Nat} :
    exec (expression (fuel + 9) D m) (Cursor.onto (p :: o :: a :: cm :: (nls ++ [b, cl])) last) =
      cut (D + 12 + j) (.ok (.call (.ident "print")
        [.num "2" ⟨.integer, .decimal⟩ a.position, .num "0x1" ⟨.integer, .hex⟩ b.position],
        Cursor.onto [] last)) := by
  have hlen : nls.length = j := by simpa using congrArg List.length hnls
  have hnl : ∀ n ∈ nls, n.kind = .newLine := fun n hn => by
    have hmem : n.erase ∈ List.replicate j (Token.plain .newLine "\n") := hnls ▸ List.mem_map_of_mem hn
    exact Token.kind_eq_of_erase (List.eq_of_mem_replicate hmem)
  have hak : a.kind = .numericLiteral := Token.kind_eq_of_erase ha
  have hbk : b.kind = .numericLiteral := Token.kind_eq_of_erase hb
  have haf : a.form = some ⟨.integer, .decimal⟩ := congrArg Token.form ha
  have hbf : b.form = some ⟨.integer, .hex⟩ := congrArg Token.form hb
  have ha6 : a.readDepth = 6 := by simp [Token.readDepth, hak, haf]
  have hb7 : b.readDepth = 7 := by simp [Token.readDepth, hbk, hbf]
  have hhead : ((nls ++ [b, cl]).headD last).readDepth ≤ 7 := Token.readDepth_le _
  -- the last item, and the item before its comma
  have hlast' := exec_itemsFrom_last hbk hbf (Token.kind_eq_of_erase hcl) hlast fuel (D + 4)
    [.num a.text ⟨.integer, .decimal⟩ a.position]
  have hitems : exec (itemsFrom (fuel + 5) (D + 4) []) (Cursor.onto (a :: cm :: (nls ++ [b, cl])) last) =
      cut (D + 12 + j) (.ok ([.num a.text ⟨.integer, .decimal⟩ a.position,
        .num b.text ⟨.integer, .hex⟩ b.position], Cursor.onto [] last)) := by
    refine exec_itemsFrom_comma hak haf (Token.kind_eq_of_erase hcm) hnl
      (by omega) (by simp [hbk]) (by simp [hbk]) (by omega) (by omega)
      (by rw [hlen, hb7]; omega) fun hl => ?_
    rw [hlast']
    -- after a line feed the list reaches one level more, which the last item stays within
    rcases Nat.le_one_iff_eq_zero_or_eq_one.1 hj with rfl | rfl
    · rfl
    · rw [hlen, hb7] at hl
      rw [cut_of_le (by omega), cut_of_le (by omega)]
      rfl
  have hpt : p.text = "print" := Token.text_eq_of_erase hp
  rw [← hpt]
  refine exec_expression_call (Token.kind_eq_of_erase hp) (by rw [hpt]; decide)
    (Token.kind_eq_of_erase ho) hlast ?_ ?_
  · omega
  refine exec_items_cut (Token.kind_eq_of_erase ho) (by simp [hak]) ?_ fun _ => ?_
  · rw [ha6]; omega
  rw [hitems, Token.text_eq_of_erase ha, Token.text_eq_of_erase hb]
  simp [Expr.numeralToken]

open Parse in
/-- The statement loop on `k` minus signs before the call `print(2, 0x1)`: the call's items are
read `2 * k` levels below where they would be without the signs. -/
theorem Parse.exec_statements_negated_call [NestingLimit] {us nls : List Token}
    {p o a cm b cl last : Token} {k j : Nat}
    (hus : us.map Token.erase = List.replicate k (Sign.neg.token 0))
    (hp : p.erase = Token.plain .identifier "print")
    (ho : o.erase = Token.plain .openParen "(")
    (ha : a.erase = Expr.numeralToken "2" ⟨.integer, .decimal⟩ 0)
    (hcm : cm.erase = Token.plain .comma ",")
    (hnls : nls.map Token.erase = List.replicate j (Token.plain .newLine "\n")) (hj : j ≤ 1)
    (hb : b.erase = Expr.numeralToken "0x1" ⟨.integer, .hex⟩ 0)
    (hcl : cl.erase = Token.plain .closeParen ")") (hlast : last.kind = .eof)
    (fuel d : Nat) (acc : List Stmt) (hf : 2 * k + 11 ≤ fuel) :
    exec (statements fuel d .eof acc)
        (Cursor.onto (us ++ p :: o :: a :: cm :: (nls ++ [b, cl])) last) =
      cut (d + 2 * k + 14 + j) (.ok ((.expr (us.foldr (fun u e => .unary .neg u.position e)
        (.call (.ident "print") [.num "2" ⟨.integer, .decimal⟩ a.position,
          .num "0x1" ⟨.integer, .hex⟩ b.position])) :: acc).reverse, Cursor.onto [] last)) := by
  have hpk : p.kind = .identifier := Token.kind_eq_of_erase hp
  have htail : ∀ fuel m, 9 ≤ fuel →
      exec (expression fuel (d + 2 + 2 * k) m)
          (Cursor.onto (p :: o :: a :: cm :: (nls ++ [b, cl])) last) =
        cut (d + 2 * k + 14 + j) (.ok (.call (.ident "print")
          [.num "2" ⟨.integer, .decimal⟩ a.position, .num "0x1" ⟨.integer, .hex⟩ b.position],
          Cursor.onto [] last)) := by
    intro fuel m hf
    obtain ⟨fuel, rfl⟩ : ∃ f', fuel = f' + 9 := ⟨fuel - 9, by omega⟩
    rw [exec_expression_call_pair hp ho ha hcm hnls hj hb hcl hlast]
    congr 1
    omega
  refine exec_statements_negs hus (by simp [hpk, TokenKind.startsExpr]) (fun _ => ?_) hlast
    (by omega) htail fuel acc (by omega)
  rw [Token.text_eq_of_erase hp]
  decide

section Reading

variable [NestingLimit]

/-- **A line feed inside a call costs a level.** The text of `k` minus signs before
`print(2,` then `j ≤ 1` line feeds then `0x1)`, read at level `q`, reads as the call negated
`k` times, offsets forgotten, exactly when `q + 2 * k + 15 + j` is within the nesting limit:
the line feed between two items moves the deepest step of the read one level down. -/
theorem Program.parseAt_negated_call (q k j : Nat) (hj : j ≤ 1) :
    (Program.parseAt q (String.ofList (List.replicate k '-') ++
      ("print(2," ++ String.ofList (List.replicate j '\n') ++ "0x1)"))).map Program.erase =
      if nestingLimit < q + 2 * k + 15 + j then .error .tooDeep
      else .ok [.expr ((Expr.unary .neg 0)^[k] (.call (.ident "print")
        [.num "2" ⟨.integer, .decimal⟩ 0, .num "0x1" ⟨.integer, .hex⟩ 0]))] := by
  have hsign : Lexes ['-'] [Sign.neg.token 0] (fun _ => True) := Sign.lexes_symbol .neg
  have hlex : Lexes (String.ofList (List.replicate k '-') ++
      ("print(2," ++ String.ofList (List.replicate j '\n') ++ "0x1)")).toList _ (fun _ => True) :=
    ((Lexes.replicate hsign k).append (lexes_call_lineFeeds j) fun _ _ => trivial).of_eq
      (by simp) rfl
  obtain ⟨ts, hts, hstream⟩ := TokenStream.ofString_of_lexes hlex trivial
  obtain ⟨us, rest, rfl, hus, hrest⟩ := List.map_eq_append_iff.1 hts
  simp only [List.cons_append, List.nil_append] at hrest
  obtain ⟨p, rest, rfl, hp, hrest⟩ := List.map_eq_cons_iff.1 hrest
  obtain ⟨o, rest, rfl, ho, hrest⟩ := List.map_eq_cons_iff.1 hrest
  obtain ⟨a, rest, rfl, ha, hrest⟩ := List.map_eq_cons_iff.1 hrest
  obtain ⟨cm, rest, rfl, hcm, hrest⟩ := List.map_eq_cons_iff.1 hrest
  obtain ⟨nls, rest, rfl, hnls, hrest⟩ := List.map_eq_append_iff.1 hrest
  obtain ⟨b, rest, rfl, hb, hrest⟩ := List.map_eq_cons_iff.1 hrest
  obtain ⟨cl, rest, rfl, hcl, hrest⟩ := List.map_eq_cons_iff.1 hrest
  obtain rfl := List.map_eq_nil_iff.1 hrest
  have hlen : us.length = k := by simpa using congrArg List.length hus
  have hnlen : nls.length = j := by simpa using congrArg List.length hnls
  -- the first token is a sign, or the callee when there is none
  obtain ⟨u, rest, hur, hu⟩ : ∃ u rest, us ++ p :: o :: a :: cm :: (nls ++ [b, cl]) = u :: rest ∧
      u.kind ∉ separators :=
    head_of_signs hus (fun s hs => by simp [hs, separators])
      (by simp [Token.kind_eq_of_erase hp, separators, Token.plain])
  rw [hur] at hstream
  have hread := Program.parseAt_of_statements (q := q) (N := q + 1 + 2 * k + 14 + j)
    (F := 2 * k + 11) hstream hu (by omega) (by rw [← hur]; simp [parseFuel]; omega) fun fuel hf => by
      rw [← hur]
      exact Parse.exec_statements_negated_call hus hp ho ha hcm hnls hj hb hcl (by rfl) fuel (q + 1)
        [] hf
  rw [hread, show q + 1 + 2 * k + 14 + j = q + 2 * k + 15 + j by omega]
  split
  · rfl
  · simp [Except.map, Program.erase, Stmt.eraseList, Stmt.erase, Expr.erase_foldr_neg, hlen,
      Expr.erase, Expr.eraseList]

end Reading

end Scriptlet.Syntax

namespace Scriptlet.Session

open Syntax

/-- A line feed after a comma changes what a session reads at the nesting limit. Under 4990
minus signs, `print(2,0x1)` reads as the negated call at the level a run reads its text, while
`print(2,` then a line feed then `0x1)` passes the limit there, and the run fails before any of
it runs. -/
theorem run_lineFeed_after_comma_past_limit :
    (Program.parseAt (runLevel + 1)
        (String.ofList (List.replicate 4990 '-') ++ "print(2,0x1)")).map Program.erase =
      .ok [.expr ((Expr.unary .neg 0)^[4990] (.call (.ident "print")
        [.num "2" ⟨.integer, .decimal⟩ 0, .num "0x1" ⟨.integer, .hex⟩ 0]))] ∧
    (start true).run (String.ofList (List.replicate 4990 '-') ++ "print(2,\n0x1)") =
      (⟨.error (.parse .tooDeep), ""⟩, start true) := by
  have hflat := Program.parseAt_negated_call (runLevel + 1) 4990 0 (Nat.zero_le 1)
  have hfed := Program.parseAt_negated_call (runLevel + 1) 4990 1 le_rfl
  have hflat' : "print(2," ++ String.ofList (List.replicate 0 '\n') ++ "0x1)" = "print(2,0x1)" := by
    simp
  have hfed' : "print(2," ++ String.ofList (List.replicate 1 '\n') ++ "0x1)" = "print(2,\n0x1)" := by
    simp
  rw [hflat', if_neg (by decide)] at hflat
  rw [hfed', if_pos (by decide)] at hfed
  refine ⟨hflat, ?_⟩
  exact run_of_parseAt_error (start true) (Program.parseAt_of_map_erase hfed)

end Scriptlet.Session
