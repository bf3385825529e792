import Scriptlet.Proofs.Reading
import Scriptlet.Proofs.Printed

/-!
# The parser reads printed trees back

Reading the tokens of a printed tree gives the tree back, up to the offsets it keeps: each rule
of the parser, started on the tokens of the piece of tree it reads, takes exactly those tokens
and builds that piece. The follow token decides where a rule stops, so each statement says which
tokens may follow: one that continues no operator, opens no argument list and makes no function
(`Token.Ends`), and for a statement no `else` after an open `if` (`Token.EndsStmt`).

Operators group to the left, so an expression is read by a loop that takes one operator and its
right operand per round. The statements here therefore stop in that loop (`ExprReads`): reading
`l op r` is reading `l` and stopping in the loop, then one more round. Calls are read the same
way by the loop over argument lists (`CalleeReads`).

The proof goes by induction on the height of the tree (`Back`): each rule, on a tree of a given
height, uses the statements for the trees below it. Two bounds travel with every statement: the
level at which the rule starts, plus six levels per unit of height, stays within the nesting
limit; and the fuel is at least three per token.
-/

set_option autoImplicit false

namespace Scriptlet.Syntax

/-! ## Where an expression may stand unparenthesised -/

namespace Expr

/-- Whether `e` may stand without parentheses where operators of precedence at most `p` end it:
a binary operation must bind tighter than `p`, an assignment only stands at level 0. -/
def fits (e : Expr) (p : Nat) : Bool :=
  match e with
  | .binary op .. => decide (p < op.precedence)
  | .assign .. => decide (p = 0)
  | _ => true

/-- The precedence at which the last operand of `e` is read: that of its operator, 0 for the
value of an assignment, and that of a prefix sign when `e` has no operator. -/
def tailLevel : Expr → Nat
  | .binary op .. => op.precedence
  | .assign .. => assignmentRhsPrecedence
  | _ => prefixPrecedence

/-- An operand of a prefix sign needs parentheses exactly when it is an operation. -/
theorem isOperation_eq_not_fits (e : Expr) : e.isOperation = !e.fits prefixPrecedence := by
  cases e with
  | binary op =>
    have : op.precedence ≤ 20 := by cases op <;> decide
    simp [isOperation, isAssign, binaryPrecedence?, fits, prefixPrecedence]
    exact decide_eq_false (by omega)
  | _ => rfl

/-- A right operand needs parentheses exactly when it does not fit its operator's level. -/
theorem needsParensRight_eq_not_fits (e : Expr) {p : Nat} (hp : 0 < p) :
    e.needsParensRight p = !e.fits p := by
  cases e with
  | binary op =>
    rw [Bool.eq_iff_iff]
    simp [needsParensRight, isAssign, binaryPrecedence?, fits]
  | assign => simp [needsParensRight, isAssign, fits]; omega
  | _ => rfl

/-- A left operand without parentheses binds at least as tightly as its operator. -/
theorem fits_of_needsParensLeft {e : Expr} {q p : Nat} (h : e.needsParensLeft q = false)
    (hp : p < q) : e.fits p = true := by
  cases e <;> simp_all [needsParensLeft, isAssign, binaryPrecedence?, fits]
  omega

end Expr

theorem BinOp.ofKind?_kind (op : BinOp) : BinOp.ofKind? op.kind = some op := by
  cases op <;> rfl

theorem BinOp.kind_ne_equal (op : BinOp) : op.kind ≠ .equal := by
  cases op <;> decide

theorem BinOp.precedence_pos (op : BinOp) : 4 ≤ op.precedence := by
  cases op <;> decide

theorem Sign.ofKind?_kind (s : Sign) : Sign.ofKind? s.kind = some s := by
  cases s <;> rfl

/-! ## Tokens that end a piece -/

/-- Whether `t` ends an expression read at level `p`: it continues no operator of it, opens no
argument list and does not make a function of what came before. -/
def Token.Ends (p : Nat) (t : Token) : Prop :=
  t.kind.precedence ≤ p ∧ t.kind ≠ .openParen ∧ t.kind ≠ .equalGreaterThan

/-- Whether `t` ends the statement `s`: it ends an expression at level 0, and it is no `else`
when `s` ends in an `if` that would take it. -/
def Token.EndsStmt (s : Stmt) (t : Token) : Prop :=
  t.Ends 0 ∧ (t.isWord "else" = true → s.endsOpen = false)

theorem Token.Ends.mono {p q : Nat} {t : Token} (h : t.Ends p) (hpq : p ≤ q) : t.Ends q :=
  ⟨Nat.le_trans h.1 hpq, h.2⟩

/-- A left operand without parentheses ends at the level of its operator or above. -/
theorem Expr.le_tailLevel_of_needsParensLeft {e : Expr} {q : Nat}
    (h : e.needsParensLeft q = false) (hq : q ≤ 20) : q ≤ e.tailLevel := by
  cases e <;> simp_all [needsParensLeft, isAssign, binaryPrecedence?, tailLevel, prefixPrecedence]
    <;> omega

/-- Only an assignment ends at level 0. -/
theorem Expr.tailLevel_pos {e : Expr} (h : e.isAssign = false) : 0 < e.tailLevel := by
  cases e with
  | binary op =>
    have := op.precedence_pos
    simp only [tailLevel]
    omega
  | assign => simp [isAssign] at h
  | _ => simp [tailLevel, prefixPrecedence]

/-- An operator's token ends every level at or above its precedence. -/
theorem BinOp.ends_of_le {op : BinOp} {t : Token} (ht : t.kind = op.kind) {q : Nat}
    (h : op.precedence ≤ q) : t.Ends q := by
  refine ⟨by rw [ht]; exact h, ?_, ?_⟩ <;> rw [ht] <;> cases op <;> decide

/-! ## Steps of the loops -/

namespace Parse

variable {ts more : List Token} {last : Token}

variable [NestingLimit]

/-- The operator loop stops at a token that binds no tighter than its level. -/
theorem exec_operators_stop {fuel d p : Nat} {e : Expr} {c : Cursor} (hf : 1 ≤ fuel)
    (ht : c.current.kind.precedence ≤ p) : exec (operators fuel d p e) c = .ok (e, c) := by
  obtain ⟨fuel, rfl⟩ : ∃ f, fuel = f + 1 := ⟨fuel - 1, by omega⟩
  simp only [operators, exec_current_bind, if_neg (show ¬p < c.current.kind.precedence by omega),
    exec_pure]

/-- The loop over argument lists stops at a token that opens none. -/
theorem exec_calls_stop {fuel d : Nat} {e : Expr} {c : Cursor} (hf : 1 ≤ fuel)
    (hk : c.current.kind ≠ .openParen) (h : d + 1 ≤ nestingLimit) :
    exec (calls fuel d e) c = .ok (e, c) := by
  obtain ⟨fuel, rfl⟩ : ∃ f, fuel = f + 1 := ⟨fuel - 1, by omega⟩
  simp only [calls, exec_reach_bind h, exec_current_bind, if_neg hk, exec_pure]

omit [NestingLimit] in
theorem exec_bind_congr {α β : Type} {x y : Parse α} {f : α → Parse β} {c c' : Cursor}
    (h : exec x c = exec y c') : exec (x >>= f) c = exec (y >>= f) c' := by
  rw [exec_bind, exec_bind, h]

/-- One round of the operator loop over a binary operator: its right operand is read at the
operator's own precedence, and the loop goes on with the operation built. -/
theorem exec_operators_binary {fuel d p : Nat} {l r : Expr} {op : BinOp} {t : Token}
    (ht : t.erase = op.token 0) (hp : p < op.precedence) (hd : d + 9 ≤ nestingLimit)
    (hr : exec (expression fuel (d + 2) op.precedence) (Cursor.onto (ts ++ more) last) =
      .ok (r, Cursor.onto more last)) :
    exec (operators (fuel + 1) d p l) (Cursor.onto (t :: ts ++ more) last) =
      exec (operators fuel d p (.binary op t.position l r)) (Cursor.onto more last) := by
  have hk : t.kind = op.kind := Token.kind_eq_of_erase ht
  have hp' : p < op.kind.precedence := hp
  simp only [operators, exec_current_bind, Cursor.onto_current, List.cons_append,
    List.headD_cons, hk, if_pos hp', exec_reach_bind (show d + 2 ≤ nestingLimit by omega),
    if_neg (BinOp.kind_ne_equal op), BinOp.ofKind?_kind,
    exec_reach_bind (show d + 3 ≤ nestingLimit by omega)]
  rw [exec_advance_bind (by omega), exec_bind_ok hr,
    exec_reach_bind (show d + 4 ≤ nestingLimit by omega)]

/-- One round of the operator loop over `=`: the value is read at level 0, and the loop goes on
with the assignment built. -/
theorem exec_operators_assign {fuel d : Nat} {l v : Expr} {t : Token}
    (ht : t.erase = Token.plain .equal "=") (hd : d + 9 ≤ nestingLimit)
    (hv : exec (expression fuel (d + 2) assignmentRhsPrecedence) (Cursor.onto (ts ++ more) last) =
      .ok (v, Cursor.onto more last)) :
    exec (operators (fuel + 1) d 0 l) (Cursor.onto (t :: ts ++ more) last) =
      exec (operators fuel d 0 (.assign l v)) (Cursor.onto more last) := by
  have hk : t.kind = .equal := Token.kind_eq_of_erase ht
  have hp' : 0 < TokenKind.equal.precedence := by decide
  simp only [operators, exec_current_bind, Cursor.onto_current, List.cons_append,
    List.headD_cons, hk, if_pos hp', exec_reach_bind (show d + 2 ≤ nestingLimit by omega),
    if_true]
  rw [exec_advance_bind (by omega), exec_bind_ok hv,
    exec_reach_bind (show d + 4 ≤ nestingLimit by omega)]

end Parse

/-! ## Facts about printed pieces -/

/-- The kinds of token an expression can start with. -/
def TokenKind.startsExpr : TokenKind → Bool
  | .identifier | .numericLiteral | .stringLiteral | .openParen | .plus | .minus => true
  | _ => false

/-- A printed expression starts with a name that is not reserved, a literal, a parenthesis or a
sign. -/
theorem Expr.tokens_head : ∀ e : Expr, e.Printable →
    ∃ t rest, e.tokens = t :: rest ∧ t.kind.startsExpr = true ∧
      (t.kind = .identifier → isReserved t.text = false)
  | .ident n, h => by
    simp only [Expr.Printable, isName] at h
    refine ⟨Token.plain .identifier n, [], by simp only [Expr.tokens], rfl, fun _ => ?_⟩
    split at h <;> simp_all [Token.plain]
  | .num text f _, _ => ⟨Expr.numeralToken text f 0, [], by simp only [Expr.tokens], rfl, nofun⟩
  | .str text, _ => ⟨Token.plain .stringLiteral text, [], by simp only [Expr.tokens], rfl, nofun⟩
  | .unary s _ e, _ => by
    simp only [Expr.tokens]
    exact ⟨s.token 0, _, rfl, by cases s <;> rfl, by cases s <;> nofun⟩
  | .binary op _ l r, h => by
    simp only [Expr.tokens, parenTokensIf]
    split
    · exact ⟨Token.plain .openParen "(", _, rfl, rfl, nofun⟩
    · obtain ⟨t, rest, hl, hk, hr⟩ := Expr.tokens_head l h.1
      rw [hl]
      exact ⟨t, _, rfl, hk, hr⟩
  | .assign tg v, h => by
    simp only [Expr.tokens, parenTokensIf]
    split
    · exact ⟨Token.plain .openParen "(", _, rfl, rfl, nofun⟩
    · obtain ⟨t, rest, hl, hk, hr⟩ := Expr.tokens_head tg h.1
      rw [hl]
      exact ⟨t, _, rfl, hk, hr⟩
  | .call c args, h => by
    simp only [Expr.tokens, parenTokensIf]
    split
    · exact ⟨Token.plain .openParen "(", _, rfl, rfl, nofun⟩
    · obtain ⟨t, rest, hl, hk, hr⟩ := Expr.tokens_head c h.1
      rw [hl]
      exact ⟨t, _, rfl, hk, hr⟩
  | .func ps body, _ => by
    simp only [Expr.tokens]
    exact ⟨Token.plain .openParen "(", _, rfl, rfl, nofun⟩

theorem Expr.tokens_length_pos (e : Expr) (he : e.Printable) : 0 < e.tokens.length := by
  obtain ⟨t, rest, h, -⟩ := e.tokens_head he
  simp [h]

theorem Expr.fits_zero (e : Expr) : e.fits 0 = true := by
  cases e with
  | binary op =>
    have := op.precedence_pos
    simp only [fits, decide_eq_true_eq]
    omega
  | _ => rfl

theorem TokenKind.precedence_le (k : TokenKind) : k.precedence ≤ 20 := by
  cases k <;> decide

/-- A token that binds at no level ends every expression unless it opens a list or an arrow. -/
theorem Token.ends_of_precedence {t : Token} {p : Nat} (hp : t.kind.precedence = 0)
    (h1 : t.kind ≠ .openParen) (h2 : t.kind ≠ .equalGreaterThan) : t.Ends p :=
  ⟨by omega, h1, h2⟩

/-- Where an expression fits, whatever ends its level ends its last operand. -/
theorem Token.Ends.tailLevel {t : Token} {p : Nat} {e : Expr} (h : t.Ends p)
    (hfit : e.fits p = true) : t.Ends e.tailLevel := by
  cases e with
  | binary op =>
    have : p < op.precedence := by simpa [Expr.fits] using hfit
    exact h.mono (by simp only [Expr.tailLevel]; omega)
  | assign => exact h.mono (by simp_all [Expr.fits, Expr.tailLevel])
  | _ =>
    exact ⟨Nat.le_trans t.kind.precedence_le (by simp [Expr.tailLevel, prefixPrecedence]), h.2⟩

theorem Expr.mem_printableList {es : List Expr} : Expr.PrintableList es ↔ ∀ e ∈ es, e.Printable := by
  induction es with
  | nil => simp [Expr.PrintableList]
  | cons e es ih => simp [Expr.PrintableList, ih]

theorem Stmt.mem_printableList {ss : List Stmt} : Stmt.PrintableList ss ↔ ∀ s ∈ ss, s.Printable := by
  induction ss with
  | nil => simp [Stmt.PrintableList]
  | cons s ss ih => simp [Stmt.PrintableList, ih]

theorem Expr.height_le_listHeight {e : Expr} {es : List Expr} (h : e ∈ es) :
    e.height ≤ Expr.listHeight es := by
  induction es with
  | nil => cases h
  | cons a es ih =>
    simp only [Expr.listHeight]
    rcases List.mem_cons.1 h with rfl | h
    · omega
    · have := ih h
      omega

theorem Stmt.height_le_listHeight {s : Stmt} {ss : List Stmt} (h : s ∈ ss) :
    s.height ≤ Stmt.listHeight ss := by
  induction ss with
  | nil => cases h
  | cons a ss ih =>
    simp only [Stmt.listHeight]
    rcases List.mem_cons.1 h with rfl | h
    · omega
    · have := ih h
      omega

theorem Expr.eraseList_eq_map (es : List Expr) : Expr.eraseList es = es.map Expr.erase := by
  induction es with
  | nil => rfl
  | cons e es ih => simp [Expr.eraseList, ih]

theorem Stmt.eraseList_eq_map (ss : List Stmt) : Stmt.eraseList ss = ss.map Stmt.erase := by
  induction ss with
  | nil => rfl
  | cons s ss ih => simp [Stmt.eraseList, ih]

/-- A list of printed expressions starts as its first expression does. -/
theorem Expr.listTokens_head (b : Expr) (rest : List Expr) (hb : b.Printable) :
    ∃ v restv, Expr.listTokens (b :: rest) = v :: restv ∧ v.kind.startsExpr = true := by
  obtain ⟨v, restb, hv, hk, -⟩ := b.tokens_head hb
  cases rest with
  | nil => exact ⟨v, restb, by simp only [Expr.listTokens, hv], hk⟩
  | cons c rest =>
    rw [Expr.listTokens.eq_3 b (c :: rest) (by simp), hv]
    exact ⟨v, _, rfl, hk⟩

theorem TokenKind.startsExpr_ne {k : TokenKind} (h : k.startsExpr = true) :
    k ≠ .closeParen ∧ k ≠ .newLine ∧ k ≠ .semicolon ∧ k ≠ .closeCurly ∧ k ≠ .eof ∧
      k ≠ .openCurly := by
  cases k <;> simp_all [TokenKind.startsExpr]

/-- The kinds of token a statement can start with: those of an expression, and a brace. -/
def TokenKind.startsStmt (k : TokenKind) : Bool := k.startsExpr || k == .openCurly

theorem TokenKind.startsStmt_ne {k : TokenKind} (h : k.startsStmt = true) :
    k ≠ .newLine ∧ k ≠ .semicolon ∧ k ≠ .closeCurly ∧ k ≠ .eof := by
  cases k <;> simp_all [TokenKind.startsStmt, TokenKind.startsExpr]

/-- A printed statement starts with a token that can start one. -/
theorem Stmt.tokens_head (s : Stmt) (hs : s.Printable) :
    ∃ t rest, s.tokens = t :: rest ∧ t.kind.startsStmt = true := by
  cases s with
  | expr e =>
    obtain ⟨t, rest, h, hk, -⟩ := e.tokens_head hs
    exact ⟨t, rest, by simp only [Stmt.tokens, h], by simp [TokenKind.startsStmt, hk]⟩
  | block body =>
    simp only [Stmt.tokens, Stmt.blockTokens, List.cons_append]
    exact ⟨_, _, rfl, rfl⟩
  | letDecl n init => cases init <;> simp only [Stmt.tokens] <;> exact ⟨_, _, rfl, rfl⟩
  | ite c th el => cases el <;> simp only [Stmt.tokens] <;> exact ⟨_, _, rfl, rfl⟩
  | loop c b =>
    simp only [Stmt.tokens]
    exact ⟨_, _, rfl, rfl⟩

/-- A printed statement that is not a block starts with no brace. -/
theorem Stmt.tokens_head_of_not_block (s : Stmt) (hs : s.Printable)
    (hb : ¬∃ body, s = .block body) :
    ∃ t rest, s.tokens = t :: rest ∧ t.kind ≠ .openCurly := by
  cases s with
  | expr e =>
    obtain ⟨t, rest, h, hk, -⟩ := e.tokens_head hs
    exact ⟨t, rest, by simp only [Stmt.tokens, h], (TokenKind.startsExpr_ne hk).2.2.2.2.2⟩
  | block body => exact absurd ⟨body, rfl⟩ hb
  | letDecl n init => cases init <;> simp only [Stmt.tokens] <;> exact ⟨_, _, rfl, by decide⟩
  | ite c th el => cases el <;> simp only [Stmt.tokens] <;> exact ⟨_, _, rfl, by decide⟩
  | loop c b =>
    simp only [Stmt.tokens]
    exact ⟨_, _, rfl, by decide⟩

/-- Tokens spelling a printed expression start with a token that can start one, a name only if
it is not reserved. -/
theorem Expr.spelled_head {e : Expr} (he : e.Printable) {ts : List Token}
    (h : ts.map Token.erase = e.tokens) :
    ∃ t tr, ts = t :: tr ∧ t.kind.startsExpr = true ∧
      (t.kind = .identifier → isReserved t.text = false) := by
  obtain ⟨u, us, hu, hku, hres⟩ := e.tokens_head he
  obtain ⟨t, tr, rfl, ht, -⟩ := List.map_eq_cons_iff.1 (h.trans hu)
  refine ⟨t, tr, rfl, by rw [Token.kind_eq_of_erase ht]; exact hku, fun hid => ?_⟩
  rw [Token.text_eq_of_erase ht]
  exact hres (by rwa [← Token.kind_eq_of_erase ht])

/-- Tokens spelling a list of printed expressions, and anything after it, start as its first
expression does. -/
theorem Expr.spelled_listHead {b : Expr} {rest : List Expr} (hb : b.Printable)
    {ts more : List Token} (h : ts.map Token.erase = Expr.listTokens (b :: rest) ++ more) :
    ∃ t tr, ts = t :: tr ∧ t.kind.startsExpr = true := by
  obtain ⟨v, restv, hv, hkv⟩ := Expr.listTokens_head b rest hb
  rw [hv, List.cons_append] at h
  obtain ⟨t, tr, rfl, ht, -⟩ := List.map_eq_cons_iff.1 h
  exact ⟨t, tr, rfl, by rw [Token.kind_eq_of_erase ht]; exact hkv⟩

/-- Tokens spelling a printed statement, and anything after it, start with a token that can start
a statement. -/
theorem Stmt.spelled_head {s : Stmt} (hs : s.Printable) {ts more : List Token}
    (h : ts.map Token.erase = s.tokens ++ more) :
    ∃ t tr, ts = t :: tr ∧ t.kind.startsStmt = true := by
  obtain ⟨u, us, hu, hku⟩ := s.tokens_head hs
  rw [hu, List.cons_append] at h
  obtain ⟨t, tr, rfl, ht, -⟩ := List.map_eq_cons_iff.1 h
  exact ⟨t, tr, rfl, by rw [Token.kind_eq_of_erase ht]; exact hku⟩

/-- A token that can start a statement ends no block. -/
theorem TokenKind.startsStmt_ne_stop {k stop : TokenKind} (h : k.startsStmt = true)
    (hstop : stop = .closeCurly ∨ stop = .eof) : k ≠ stop := by
  rcases hstop with rfl | rfl
  · exact (TokenKind.startsStmt_ne h).2.2.1
  · exact (TokenKind.startsStmt_ne h).2.2.2

/-- A token that can start a statement is no separator. -/
theorem TokenKind.not_mem_separators {k : TokenKind} (h : k.startsStmt = true) :
    k ∉ separators := by
  simp [separators, (TokenKind.startsStmt_ne h).1, (TokenKind.startsStmt_ne h).2.1]

/-- A line feed, a closing brace and the end of input end every statement. -/
theorem Token.endsStmt_of_kind {t : Token} {s : Stmt}
    (h : t.kind = .newLine ∨ t.kind = .closeCurly ∨ t.kind = .eof) : t.EndsStmt s := by
  rcases h with h | h | h <;>
  exact ⟨⟨by rw [h]; decide, by rw [h]; decide, by rw [h]; decide⟩, by simp [Token.isWord, h]⟩

theorem Program.tokens_cons_cons (s s2 : Stmt) (rest : List Stmt) :
    Program.tokens (s :: s2 :: rest) =
      s.tokens ++ Token.plain .newLine "\n" :: Program.tokens (s2 :: rest) := by
  simp [Program.tokens, Stmt.lineTokens]

/-- Parameter names are printed as the list of their names. -/
theorem paramTokens_eq_listTokens : ∀ ps : List String,
    paramTokens ps = Expr.listTokens (ps.map .ident)
  | [] => by simp [paramTokens, Expr.listTokens]
  | [p] => by simp [paramTokens, Expr.listTokens, Expr.tokens]
  | p :: q :: rest => by
    simp only [paramTokens, List.map_cons]
    rw [Expr.listTokens.eq_3 (.ident p) (.ident q :: rest.map .ident) (by simp), ← List.map_cons,
      ← paramTokens_eq_listTokens (q :: rest)]
    simp [Expr.tokens]

theorem Expr.eq_of_erase_eq_ident {e : Expr} {n : String} (h : e.erase = .ident n) :
    e = .ident n := by
  cases e <;> simp_all [Expr.erase]

/-- A list read back as names gives those names as parameters. -/
theorem paramNames_of_map_erase : ∀ {es : List Expr} {ps : List String},
    es.map Expr.erase = ps.map .ident → Parse.paramNames es = some ps
  | [], [], _ => rfl
  | e :: es, p :: ps, h => by
    simp only [List.map_cons, List.cons.injEq] at h
    rw [Expr.eq_of_erase_eq_ident h.1, Parse.paramNames, paramNames_of_map_erase h.2]
    rfl
  | [], _ :: _, h | _ :: _, [], h => by simp at h

/-! ## What each rule reads back -/

namespace Parse

variable [NestingLimit]

/-- Reading the expression `e`, spelled by `ts`, stops in the operator loop with `e` read back
and the cursor after it, having used at most one round of fuel per token. -/
def ExprReads (e : Expr) : Prop :=
  ∀ (ts more : List Token) (last : Token) (d p fuel : Nat),
    ts.map Token.erase = e.tokens → e.Printable → e.fits p = true →
    (more.headD last).Ends e.tailLevel → d + 6 * e.height + 16 ≤ nestingLimit →
    3 * e.tokens.length + 2 ≤ fuel →
    ∃ e' fuel', e'.erase = e.erase ∧ fuel ≤ fuel' + e.tokens.length ∧
      exec (expression fuel d p) (Cursor.onto (ts ++ more) last) =
        exec (operators fuel' d p e') (Cursor.onto more last)

/-- Reading the callee `x`, written without parentheses, as a primary stops in the loop over
argument lists with `x` read back. -/
def CalleeReads (x : Expr) : Prop :=
  ∀ (ts more : List Token) (last : Token) (d fuel : Nat),
    ts.map Token.erase = x.tokens → x.Printable → x.isOperation = false → x.isUnary = false →
    d + 6 * x.height + 15 ≤ nestingLimit → 3 * x.tokens.length + 1 ≤ fuel →
    ∃ x' fuel', x'.erase = x.erase ∧ fuel ≤ fuel' + x.tokens.length ∧
      exec (primary fuel d) (Cursor.onto (ts ++ more) last) =
        exec (calls fuel' (d + 1) x') (Cursor.onto more last)

/-- Reading `x` between parentheses as a primary stops in the loop over argument lists with `x`
read back. -/
def GroupReads (x : Expr) : Prop :=
  ∀ (ts more : List Token) (last : Token) (d fuel : Nat),
    ts.map Token.erase = parenTokensIf true x.tokens → x.Printable →
    (more.headD last).kind ≠ .equalGreaterThan → d + 6 * x.height + 19 ≤ nestingLimit →
    3 * x.tokens.length + 7 ≤ fuel →
    ∃ x', x'.erase = x.erase ∧
      exec (primary fuel d) (Cursor.onto (ts ++ more) last) =
        exec (calls (fuel - 1) (d + 1) x') (Cursor.onto more last)

/-- Reading the statement `s` takes its tokens and gives it back. -/
def StmtReads (s : Stmt) : Prop :=
  ∀ (ts more : List Token) (last : Token) (d fuel : Nat),
    ts.map Token.erase = s.tokens → s.Printable → (more.headD last).EndsStmt s →
    d + 6 * s.height + 16 ≤ nestingLimit → 3 * s.tokens.length + 3 ≤ fuel →
    ∃ s', s'.erase = s.erase ∧
      exec (statement fuel d) (Cursor.onto (ts ++ more) last) = .ok (s', Cursor.onto more last)

/-- Every rule reads back every tree lower than `h`. -/
structure Back (h : Nat) : Prop where
  expr : ∀ e : Expr, e.height < h → ExprReads e
  callee : ∀ x : Expr, x.height < h → CalleeReads x
  group : ∀ x : Expr, x.height < h → GroupReads x
  stmt : ∀ s : Stmt, s.height < h → StmtReads s

theorem back_zero : Back 0 := ⟨nofun, nofun, nofun, nofun⟩

variable {ts more : List Token} {last : Token}

/-- An expression that fits its level is read whole when the token after it ends the level. -/
theorem ExprReads.whole {e : Expr} (hr : ExprReads e) (ts more : List Token) (last : Token)
    (d p fuel : Nat) (hts : ts.map Token.erase = e.tokens) (he : e.Printable) (hfit : e.fits p = true)
    (hend : (more.headD last).Ends p) (hd : d + 6 * e.height + 16 ≤ nestingLimit)
    (hf : 3 * e.tokens.length + 2 ≤ fuel) :
    ∃ e', e'.erase = e.erase ∧
      exec (expression fuel d p) (Cursor.onto (ts ++ more) last) =
        .ok (e', Cursor.onto more last) := by
  obtain ⟨e', fuel', herase, hfuel, hrun⟩ :=
    hr ts more last d p fuel hts he hfit (hend.tailLevel hfit) hd hf
  refine ⟨e', herase, ?_⟩
  rw [hrun]
  exact exec_operators_stop (by omega) (by simpa using hend.1)

/-- The loop over the items of a list between parentheses reads them back and takes the closing
parenthesis, given that each item can be read. -/
theorem exec_itemsFrom {d : Nat} (hd : d + 9 ≤ nestingLimit) :
    ∀ (args acc : List Expr) (ts more : List Token) (last : Token) (fuel : Nat),
      (∀ a ∈ args, ExprReads a ∧ a.Printable ∧ d + 6 * a.height + 17 ≤ nestingLimit) →
      ts.map Token.erase = Expr.listTokens args ++ [Token.plain .closeParen ")"] →
      3 * (Expr.listTokens args).length + 3 ≤ fuel →
      ∃ args', args'.map Expr.erase = args.map Expr.erase ∧
        exec (itemsFrom fuel d acc) (Cursor.onto (ts ++ more) last) =
          .ok (acc.reverse ++ args', Cursor.onto more last)
  | [], acc, ts, more, last, fuel + 1, _, hts, _ => by
    simp only [Expr.listTokens, List.nil_append] at hts
    obtain ⟨t, rest, rfl, ht, hrest⟩ := List.map_eq_cons_iff.1 hts
    obtain rfl := List.map_eq_nil_iff.1 hrest
    have hk : t.kind = .closeParen := Token.kind_eq_of_erase ht
    refine ⟨[], rfl, ?_⟩
    simp only [itemsFrom, exec_reach_bind (show d + 1 ≤ nestingLimit by omega),
      exec_current_bind, Cursor.onto_current, List.cons_append, List.nil_append,
      List.headD_cons, hk, if_true, exec_eat_bind hk (show d + 1 + 8 ≤ nestingLimit by omega),
      exec_pure, List.append_nil]
  | [a], acc, ts, more, last, fuel + 1, hargs, hts, hf => by
    obtain ⟨hra, ha, hda⟩ := hargs a (List.mem_singleton_self a)
    simp only [Expr.listTokens] at hts hf
    obtain ⟨ta, tc, rfl, hta, htc⟩ := List.map_eq_append_iff.1 hts
    obtain ⟨t, rest, rfl, ht, hrest⟩ := List.map_eq_cons_iff.1 htc
    obtain rfl := List.map_eq_nil_iff.1 hrest
    have hk : t.kind = .closeParen := Token.kind_eq_of_erase ht
    obtain ⟨ua, ta', rfl, hk0, -⟩ := Expr.spelled_head ha hta
    obtain ⟨a', ha', hrun⟩ := hra.whole _ (t :: more) last (d + 1) 0 fuel hta ha a.fits_zero
      (Token.ends_of_precedence (by simp [hk]; rfl) (by simp [hk]) (by simp [hk]))
      (by omega) (by omega)
    refine ⟨[a'], by simp [ha'], ?_⟩
    simp only [List.cons_append] at hrun
    simp only [itemsFrom, exec_reach_bind (show d + 1 ≤ nestingLimit by omega),
      exec_current_bind, Cursor.onto_current, List.append_assoc, List.cons_append,
      List.nil_append, List.headD_cons, if_neg (TokenKind.startsExpr_ne hk0).1]
    rw [exec_bind_ok hrun,
      exec_skip_stop_bind (by simp [hk]) (by omega),
      exec_reach_bind (show d + 1 ≤ nestingLimit by omega)]
    simp only [exec_current_bind, Cursor.onto_current, List.headD_cons, hk,
      if_neg (show TokenKind.closeParen ≠ TokenKind.comma by decide),
      exec_eat_bind hk (show d + 1 + 8 ≤ nestingLimit by omega), exec_pure, List.reverse_cons]
  | a :: b :: rest, acc, ts, more, last, fuel + 1, hargs, hts, hf => by
    obtain ⟨hra, ha, hda⟩ := hargs a List.mem_cons_self
    rw [Expr.listTokens.eq_3 a (b :: rest) (by simp)] at hts hf
    simp only [List.append_assoc, List.cons_append] at hts
    obtain ⟨ta, tc, rfl, hta, htc⟩ := List.map_eq_append_iff.1 hts
    obtain ⟨t, tr, rfl, ht, htr⟩ := List.map_eq_cons_iff.1 htc
    have hk : t.kind = .comma := Token.kind_eq_of_erase ht
    obtain ⟨ua, ta', rfl, hk0, -⟩ := Expr.spelled_head ha hta
    -- the next item starts as `b` does, with no line feed and no closing parenthesis
    obtain ⟨tv, tr', rfl, hkv⟩ := Expr.spelled_listHead (hargs b (by simp)).2.1 htr
    obtain ⟨a', ha', hrun⟩ := hra.whole _ (t :: tv :: tr' ++ more) last (d + 1) 0 fuel hta ha
      a.fits_zero
      (Token.ends_of_precedence (by simp [hk]; rfl) (by simp [hk]) (by simp [hk]))
      (by omega) (by simp at hf; omega)
    obtain ⟨rest', hrest', hrun'⟩ := exec_itemsFrom hd (b :: rest) (a' :: acc) (tv :: tr') more last fuel
      (fun x hx => hargs x (List.mem_cons_of_mem a hx)) htr (by simp at hf ⊢; omega)
    refine ⟨a' :: rest', by simp [ha', ← hrest'], ?_⟩
    simp only [List.cons_append] at hrun hrun'
    simp only [itemsFrom, exec_reach_bind (show d + 1 ≤ nestingLimit by omega),
      exec_current_bind, Cursor.onto_current, List.append_assoc, List.cons_append,
      List.headD_cons, if_neg (TokenKind.startsExpr_ne hk0).1]
    rw [exec_bind_ok hrun, exec_skip_stop_bind (by simp [hk]) (by omega),
      exec_reach_bind (show d + 1 ≤ nestingLimit by omega)]
    simp only [exec_current_bind, Cursor.onto_current, List.headD_cons, hk, if_true]
    rw [exec_advance_bind (by omega),
      exec_skip_stop_bind (by simpa using (TokenKind.startsExpr_ne hkv).2.1) (by omega),
      exec_reach_bind (show d + 1 ≤ nestingLimit by omega)]
    simp only [exec_current_bind, Cursor.onto_current, List.cons_append, List.headD_cons,
      if_neg (TokenKind.startsExpr_ne hkv).1, hrun', List.reverse_cons, List.append_assoc,
      List.nil_append]

/-- A parenthesised list is read back item by item. -/
theorem exec_items {args : List Expr} (ts more : List Token) (last : Token) (d fuel : Nat)
    (hd : d + 10 ≤ nestingLimit)
    (hargs : ∀ a ∈ args, ExprReads a ∧ a.Printable ∧ d + 6 * a.height + 17 ≤ nestingLimit)
    (hts : ts.map Token.erase =
      Token.plain .openParen "(" :: (Expr.listTokens args ++ [Token.plain .closeParen ")"]))
    (hf : 3 * (Expr.listTokens args).length + 5 ≤ fuel) :
    ∃ args', args'.map Expr.erase = args.map Expr.erase ∧
      exec (items fuel d) (Cursor.onto (ts ++ more) last) = .ok (args', Cursor.onto more last) := by
  obtain ⟨t, tr, rfl, ht, htr⟩ := List.map_eq_cons_iff.1 hts
  have hk : t.kind = .openParen := Token.kind_eq_of_erase ht
  obtain ⟨fuel, rfl⟩ : ∃ f, fuel = f + 1 := ⟨fuel - 1, by omega⟩
  obtain ⟨args', hargs', hrun⟩ := exec_itemsFrom (by omega) args [] tr more last fuel hargs htr
    (by omega)
  refine ⟨args', hargs', ?_⟩
  -- after the opening parenthesis stands the first item, or the closing parenthesis
  have hnext : ((tr ++ more).headD last).kind ≠ .newLine := by
    cases args with
    | nil =>
      rw [Expr.listTokens, List.nil_append] at htr
      obtain ⟨u, us, rfl, hu, -⟩ := List.map_eq_cons_iff.1 htr
      simp [Token.kind_eq_of_erase hu, Token.plain]
    | cons a rest =>
      obtain ⟨u, us, rfl, hku⟩ := Expr.spelled_listHead (hargs a (by simp)).2.1 htr
      simpa using (TokenKind.startsExpr_ne hku).2.1
  simp only [items, exec_reach_bind (show d ≤ nestingLimit by omega), List.cons_append]
  rw [exec_eat_bind hk (by omega),
    exec_skip_stop_bind (by simpa using hnext) (by omega), hrun, List.reverse_nil,
    List.nil_append]

/-- An expression between parentheses is a primary that reads back as the expression. -/
theorem groupReads_of_exprReads {x : Expr} (hr : ExprReads x) : GroupReads x := by
  intro ts more last d fuel hts hx harrow hd hf
  obtain ⟨fuel, rfl⟩ : ∃ f, fuel = f + 2 := ⟨fuel - 2, by omega⟩
  simp only [parenTokensIf, if_true] at hts
  obtain ⟨t, tr, rfl, ht, -⟩ := List.map_eq_cons_iff.1 hts
  have hk : t.kind = .openParen := Token.kind_eq_of_erase ht
  have hts' : (t :: tr).map Token.erase = Token.plain .openParen "(" ::
      (Expr.listTokens [x] ++ [Token.plain .closeParen ")"]) := by
    simpa [Expr.listTokens, List.cons_append] using hts
  obtain ⟨args', hargs', hrun⟩ := exec_items (t :: tr) more last (d + 2) fuel (by omega)
    (by simpa using ⟨hr, hx, by omega⟩) hts' (by simp [Expr.listTokens]; omega)
  obtain ⟨x', rfl, hx'⟩ : ∃ x', args' = [x'] ∧ x'.erase = x.erase := by
    simpa [List.map_eq_singleton_iff] using hargs'
  refine ⟨x', hx', ?_⟩
  simp only [primary, exec_reach_bind (show d + 1 ≤ nestingLimit by omega), exec_current_bind,
    Cursor.onto_current, List.cons_append, List.headD_cons, hk]
  have hpar : exec (parenthesized (fuel + 1) (d + 1)) (Cursor.onto (t :: (tr ++ more)) last) =
      .ok (x', Cursor.onto more last) := by
    simp only [parenthesized, exec_reach_bind (show d + 1 ≤ nestingLimit by omega)]
    rw [← List.cons_append, exec_bind_ok hrun, exec_reach_bind (by omega)]
    simp only [exec_current_bind, Cursor.onto_current, if_neg harrow, exec_pure]
  rw [exec_bind_ok hpar]
  rfl

/-- An expression between parentheses, or one that fits its level and ends where its last
operand does, is read up to the operator loop. -/
theorem exec_expression_left {x : Expr} (hr : ExprReads x) {b : Bool} (ts more : List Token)
    (last : Token) (d p fuel : Nat) (hts : ts.map Token.erase = parenTokensIf b x.tokens)
    (hx : x.Printable) (hbare : b = false → x.fits p = true ∧ (more.headD last).Ends x.tailLevel)
    (hk : (more.headD last).kind ≠ .openParen ∧ (more.headD last).kind ≠ .equalGreaterThan)
    (hd : d + 6 * x.height + 20 ≤ nestingLimit)
    (hf : 3 * (parenTokensIf b x.tokens).length + 2 ≤ fuel) :
    ∃ x' fuel', x'.erase = x.erase ∧ fuel ≤ fuel' + (parenTokensIf b x.tokens).length ∧
      exec (expression fuel d p) (Cursor.onto (ts ++ more) last) =
        exec (operators fuel' d p x') (Cursor.onto more last) := by
  cases b with
  | false =>
    obtain ⟨hfit, hend⟩ := hbare rfl
    simp only [parenTokensIf, Bool.false_eq_true, if_false] at hts hf ⊢
    exact hr ts more last d p fuel hts hx hfit hend (by omega) hf
  | true =>
    simp only [parenTokensIf, if_true, List.length_cons, List.length_append] at hf ⊢
    obtain ⟨fuel, rfl⟩ : ∃ f, fuel = f + 1 := ⟨fuel - 1, by omega⟩
    obtain ⟨x', hx', hrun⟩ := groupReads_of_exprReads hr ts more last (d + 1) fuel hts hx hk.2
      (by omega) (by omega)
    refine ⟨x', fuel, hx', by omega, ?_⟩
    simp only [expression, exec_reach_bind (show d ≤ nestingLimit by omega)]
    rw [exec_bind_congr hrun, exec_bind_ok (exec_calls_stop (by omega) (by simpa using hk.1)
      (by omega))]

/-- An operand, written with parentheses exactly where it does not fit the level `q` at which it
is read, is read back by an expression at that level. -/
theorem exec_operand {r : Expr} (hr : ExprReads r) (ts more : List Token) (last : Token)
    (d q fuel : Nat) (hts : ts.map Token.erase = parenTokensIf (!r.fits q) r.tokens) (he : r.Printable)
    (hend : (more.headD last).Ends q) (hd : d + 6 * r.height + 20 ≤ nestingLimit)
    (hf : 3 * (parenTokensIf (!r.fits q) r.tokens).length + 2 ≤ fuel) :
    ∃ r', r'.erase = r.erase ∧
      exec (expression fuel d q) (Cursor.onto (ts ++ more) last) =
        .ok (r', Cursor.onto more last) := by
  obtain ⟨r', fuel', hr', hfuel, hrun⟩ := exec_expression_left hr ts more last d q fuel hts he
    (fun hb => by
      have hfit : r.fits q = true := by simpa using hb
      exact ⟨hfit, hend.tailLevel hfit⟩)
    hend.2 hd hf
  refine ⟨r', hr', ?_⟩
  rw [hrun]
  exact exec_operators_stop (by omega) (by simpa using hend.1)

/-- A list of arguments extends a call in the loop over argument lists. -/
theorem exec_calls_args {c : Expr} {args : List Expr} (ts more : List Token) (last : Token)
    (d fuel : Nat)
    (hargs : ∀ a ∈ args, ExprReads a ∧ a.Printable ∧ d + 6 * a.height + 19 ≤ nestingLimit)
    (hts : ts.map Token.erase =
      Token.plain .openParen "(" :: (Expr.listTokens args ++ [Token.plain .closeParen ")"]))
    (hd : d + 12 ≤ nestingLimit) (hf : 3 * (Expr.listTokens args).length + 6 ≤ fuel) :
    ∃ args', args'.map Expr.erase = args.map Expr.erase ∧
      exec (calls fuel d c) (Cursor.onto (ts ++ more) last) =
        exec (calls (fuel - 1) d (.call c args')) (Cursor.onto more last) := by
  obtain ⟨fuel, rfl⟩ : ∃ f, fuel = f + 1 := ⟨fuel - 1, by omega⟩
  obtain ⟨args', hargs', hrun⟩ := exec_items ts more last (d + 2) fuel (by omega) (fun a ha => by
      obtain ⟨h1, h2, h3⟩ := hargs a ha
      exact ⟨h1, h2, by omega⟩) hts (by omega)
  refine ⟨args', hargs', ?_⟩
  obtain ⟨t, tr, rfl, ht, -⟩ := List.map_eq_cons_iff.1 hts
  have hk : t.kind = .openParen := Token.kind_eq_of_erase ht
  simp only [calls, exec_reach_bind (show d + 1 ≤ nestingLimit by omega), exec_current_bind,
    Cursor.onto_current, List.cons_append, List.headD_cons, hk, if_true, Nat.add_sub_cancel]
  rw [← List.cons_append, exec_bind_ok hrun, exec_reach_bind (by omega)]

/-! ## Expressions, constructor by constructor -/

/-- A name or a literal is one token, which a primary takes before the loop over argument
lists. -/
theorem calleeReads_atom {x : Expr} (hx : x.height = 0) : CalleeReads x := by
  intro ts more last d fuel hts hp _ _ hd hf
  obtain ⟨fuel, rfl⟩ : ∃ f, fuel = f + 1 := ⟨fuel - 1, by omega⟩
  have hd1 : d + 1 ≤ nestingLimit := by omega
  cases x with
  | ident n =>
    simp only [Expr.tokens, List.map_eq_singleton_iff] at hts
    obtain ⟨⟨k, text, pos, form⟩, rfl, ht⟩ := hts
    simp only [Token.erase, Token.plain, Token.mk.injEq, true_and] at ht
    obtain ⟨rfl, rfl, rfl⟩ := ht
    refine ⟨.ident text, fuel, rfl, by simp [Expr.tokens], ?_⟩
    simp only [primary, exec_reach_bind hd1, exec_current_bind, Cursor.onto_current,
      List.singleton_append, List.headD_cons, isReserved_eq_false_of_isName hp,
      Bool.false_eq_true, if_false]
    rw [exec_advance_bind (by omega), exec_reach_bind (by omega)]
  | num text f pos =>
    simp only [Expr.tokens, List.map_eq_singleton_iff] at hts
    obtain ⟨⟨k, text', pos', form⟩, rfl, ht⟩ := hts
    simp only [Token.erase, Expr.numeralToken, Token.mk.injEq, true_and] at ht
    obtain ⟨rfl, rfl, rfl⟩ := ht
    refine ⟨.num text' f pos', fuel, rfl, by simp [Expr.tokens], ?_⟩
    simp only [primary, exec_reach_bind hd1, exec_current_bind, Cursor.onto_current,
      List.singleton_append, List.headD_cons]
    rw [exec_advance_bind (by omega), exec_reach_bind (by omega)]
  | str text =>
    simp only [Expr.tokens, List.map_eq_singleton_iff] at hts
    obtain ⟨⟨k, text', pos, form⟩, rfl, ht⟩ := hts
    simp only [Token.erase, Token.plain, Token.mk.injEq, true_and] at ht
    obtain ⟨rfl, rfl, rfl⟩ := ht
    refine ⟨.str text', fuel, rfl, by simp [Expr.tokens], ?_⟩
    simp only [primary, exec_reach_bind hd1, exec_current_bind, Cursor.onto_current,
      List.singleton_append, List.headD_cons]
    rw [exec_advance_bind (by omega), exec_reach_bind (by omega)]
  | _ => simp [Expr.height] at hx

/-- A callee written without parentheses is an expression that stops in the operator loop as
soon as the loop over argument lists has. -/
theorem exprReads_of_calleeReads {x : Expr} (hc : CalleeReads x) (hop : x.isOperation = false)
    (hu : x.isUnary = false) : ExprReads x := by
  intro ts more last d p fuel hts hx _ hend hd hf
  have hlen := x.tokens_length_pos hx
  obtain ⟨fuel, rfl⟩ : ∃ f, fuel = f + 1 := ⟨fuel - 1, by omega⟩
  obtain ⟨x', fuel', hx', hfuel, hrun⟩ :=
    hc ts more last (d + 1) fuel hts hx hop hu (by omega) (by omega)
  refine ⟨x', fuel, hx', by omega, ?_⟩
  simp only [expression, exec_reach_bind (show d ≤ nestingLimit by omega)]
  rw [exec_bind_congr hrun,
    exec_bind_ok (exec_calls_stop (by omega) (by simpa using hend.2.1) (by omega))]

/-- A primary on a sign takes the operand that follows at the level of a prefix sign. -/
theorem exec_primary_sign {s : Sign} {t : Token} {fuel d : Nat} {x : Expr}
    (ht : t.erase = s.token 0) (hd : d + 10 ≤ nestingLimit)
    (hx : exec (expression fuel (d + 1) prefixPrecedence) (Cursor.onto ts last) =
      .ok (x, Cursor.onto more last)) :
    exec (primary (fuel + 1) d) (Cursor.onto (t :: ts) last) =
      .ok (.unary s t.position x, Cursor.onto more last) := by
  obtain ⟨k, text, pos, form⟩ := t
  simp only [Token.erase, Sign.token, Token.mk.injEq, true_and] at ht
  obtain ⟨rfl, rfl, rfl⟩ := ht
  cases s <;>
  · simp only [primary, exec_reach_bind (show d + 1 ≤ nestingLimit by omega), exec_current_bind,
      Cursor.onto_current, List.headD_cons, Sign.kind, Sign.ofKind?,
      exec_reach_bind (show d + 2 ≤ nestingLimit by omega)]
    rw [exec_advance_bind (by omega), exec_bind_ok hx, exec_reach_bind (by omega)]
    rfl

/-- A signed operand is read by the primary, which leaves the operator loop to go on. -/
theorem exprReads_unary {s : Sign} {pos : Nat} {e : Expr} (he : ExprReads e) :
    ExprReads (.unary s pos e) := by
  intro ts more last d p fuel hts hx _ hend hd hf
  simp only [Expr.tokens] at hts hf
  simp only [Expr.height] at hd
  obtain ⟨t, te, rfl, ht, hte⟩ := List.map_eq_cons_iff.1 hts
  obtain ⟨fuel, rfl⟩ : ∃ f, fuel = f + 2 := ⟨fuel - 2, by omega⟩
  rw [e.isOperation_eq_not_fits] at hte hf
  simp only [List.length_cons] at hf
  obtain ⟨e', he', hrun⟩ :=
    exec_operand he te more last (d + 2) prefixPrecedence fuel hte hx hend (by omega) (by omega)
  refine ⟨.unary s t.position e', fuel + 1, by simp [Expr.erase, he'],
    by simp only [Expr.tokens, List.length_cons]; omega, ?_⟩
  simp only [expression, exec_reach_bind (show d ≤ nestingLimit by omega), List.cons_append]
  rw [exec_bind_ok (exec_primary_sign ht (by omega) hrun)]

/-- A binary operation is read as its left operand, then one round of the operator loop. -/
theorem exprReads_binary {op : BinOp} {pos : Nat} {l r : Expr} (hl : ExprReads l)
    (hr : ExprReads r) : ExprReads (.binary op pos l r) := by
  intro ts more last d p fuel hts hx hfit hend hd hf
  have hp : p < op.precedence := by simpa [Expr.fits] using hfit
  simp only [Expr.tokens] at hts hf
  simp only [Expr.height] at hd
  obtain ⟨tl, tor, rfl, htl, htor⟩ := List.map_eq_append_iff.1 hts
  obtain ⟨t, tr, rfl, ht, htr⟩ := List.map_eq_cons_iff.1 htor
  have hk : t.kind = op.kind := Token.kind_eq_of_erase ht
  have hprec : op.precedence ≤ 20 := by cases op <;> decide
  simp only [List.length_append, List.length_cons] at hf
  obtain ⟨l', fuel1, hl', hfuel1, hrunl⟩ := exec_expression_left hl tl (t :: (tr ++ more)) last d
    p fuel htl hx.1
    (fun hb => ⟨Expr.fits_of_needsParensLeft hb hp,
      BinOp.ends_of_le hk (Expr.le_tailLevel_of_needsParensLeft hb hprec)⟩)
    (BinOp.ends_of_le hk (Nat.le_refl _)).2 (by omega) (by omega)
  obtain ⟨fuel2, rfl⟩ : ∃ f, fuel1 = f + 1 := ⟨fuel1 - 1, by omega⟩
  rw [r.needsParensRight_eq_not_fits (by have := op.precedence_pos; omega)] at htr hf
  obtain ⟨r', hr', hrunr⟩ :=
    exec_operand hr tr more last (d + 2) op.precedence fuel2 htr hx.2 hend (by omega) (by omega)
  refine ⟨.binary op t.position l' r', fuel2, by simp [Expr.erase, hl', hr'],
    by simp only [Expr.tokens, List.length_append, List.length_cons]; omega, ?_⟩
  rw [List.append_assoc, List.cons_append, hrunl, ← List.cons_append]
  exact exec_operators_binary ht hp (by omega) hrunr

/-- An assignment is read as its target, then one round of the operator loop at level 0. -/
theorem exprReads_assign {tg v : Expr} (htg : ExprReads tg) (hv : ExprReads v) :
    ExprReads (.assign tg v) := by
  intro ts more last d p fuel hts hx hfit hend hd hf
  obtain rfl : p = 0 := by simpa [Expr.fits] using hfit
  simp only [Expr.tokens] at hts hf
  simp only [Expr.height] at hd
  obtain ⟨tl, tor, rfl, htl, htor⟩ := List.map_eq_append_iff.1 hts
  obtain ⟨t, tr, rfl, ht, htr⟩ := List.map_eq_cons_iff.1 htor
  have hk : t.kind = .equal := Token.kind_eq_of_erase ht
  simp only [List.length_append, List.length_cons] at hf
  obtain ⟨tg', fuel1, htg', hfuel1, hrunt⟩ := exec_expression_left htg tl (t :: (tr ++ more))
    last d 0 fuel htl hx.1
    (fun hb => ⟨tg.fits_zero, by
      have := Expr.tailLevel_pos hb
      exact ⟨by simp only [List.headD_cons, hk]; exact this, by simp [hk], by simp [hk]⟩⟩)
    (by simp [hk]) (by omega) (by omega)
  obtain ⟨fuel2, rfl⟩ : ∃ f, fuel1 = f + 1 := ⟨fuel1 - 1, by omega⟩
  obtain ⟨v', hv', hrunv⟩ := hv.whole tr more last (d + 2) 0 fuel2 htr hx.2 v.fits_zero hend
    (by omega) (by omega)
  refine ⟨.assign tg' v', fuel2, by simp [Expr.erase, htg', hv'],
    by simp only [Expr.tokens, List.length_append, List.length_cons]; omega, ?_⟩
  rw [List.append_assoc, List.cons_append, hrunt, ← List.cons_append]
  exact exec_operators_assign ht (by omega) hrunv

/-! ## Statements and blocks -/

/-- The loop over the statements of a block reads them back, separated by line feeds, up to the
token that ends the block; a line feed may stand before that token. -/
theorem exec_statements {d : Nat} {stop : TokenKind} (hstop : stop = .closeCurly ∨ stop = .eof)
    (hd : d + 9 ≤ nestingLimit) :
    ∀ (body acc : List Stmt) (ts tail more : List Token) (last : Token) (fuel : Nat), body ≠ [] →
      (∀ s ∈ body, StmtReads s ∧ s.Printable ∧ d + 6 * s.height + 17 ≤ nestingLimit) →
      ts.map Token.erase = Program.tokens body →
      (tail = [] ∨ tail.map Token.erase = [Token.plain .newLine "\n"]) →
      (more.headD last).kind = stop → 3 * (Program.tokens body).length + 4 ≤ fuel →
      ∃ body', body'.map Stmt.erase = body.map Stmt.erase ∧
        exec (statements fuel d stop acc) (Cursor.onto (ts ++ (tail ++ more)) last) =
          .ok (acc.reverse ++ body', Cursor.onto more last)
  | [], _, _, _, _, _, _, h, _, _, _, _, _ => absurd rfl h
  | [s], acc, ts, tail, more, last, fuel + 1, _, hbody, hts, htail, hmore, hf => by
    obtain ⟨hrs, hs, hds⟩ := hbody s (List.mem_singleton_self s)
    obtain ⟨t, tr, rfl, hkt⟩ := Stmt.spelled_head hs hts
    simp only [Program.tokens, Stmt.lineTokens, List.append_nil] at hts hf
    have hnl : TokenKind.newLine ≠ stop := by rcases hstop with rfl | rfl <;> decide
    -- the statement ends on the line feed, or on the token that ends the block
    rcases htail with rfl | htail
    · obtain ⟨s', hs', hrun⟩ := hrs (t :: tr) more last (d + 1) fuel hts hs
        (Token.endsStmt_of_kind (by rw [hmore]; rcases hstop with rfl | rfl <;> simp)) (by omega)
        (by omega)
      refine ⟨[s'], by simp [hs'], ?_⟩
      simp only [List.cons_append] at hrun
      simp only [statements, exec_current_bind, Cursor.onto_current, List.nil_append,
        List.cons_append, List.headD_cons, if_neg (TokenKind.startsStmt_ne_stop hkt hstop)]
      rw [exec_bind_ok hrun]
      simp only [exec_current_bind, Cursor.onto_current, hmore, if_true, exec_pure,
        List.reverse_cons]
    · obtain ⟨tn, rfl, htn⟩ := List.map_eq_singleton_iff.1 htail
      have hkn : tn.kind = .newLine := Token.kind_eq_of_erase htn
      obtain ⟨s', hs', hrun⟩ := hrs (t :: tr) (tn :: more) last (d + 1) fuel hts hs
        (Token.endsStmt_of_kind (.inl hkn)) (by omega) (by omega)
      refine ⟨[s'], by simp [hs'], ?_⟩
      simp only [List.cons_append] at hrun
      simp only [statements, exec_current_bind, Cursor.onto_current, List.cons_append,
        List.nil_append, List.headD_cons, if_neg (TokenKind.startsStmt_ne_stop hkt hstop)]
      rw [exec_bind_ok hrun]
      simp only [exec_current_bind, Cursor.onto_current, List.headD_cons, hkn, if_neg hnl,
        ne_eq, not_true_eq_false, if_false, true_or, if_true]
      rw [exec_skip_cons_bind (by simp [hkn, separators])
        (by rw [hmore]; rcases hstop with rfl | rfl <;> simp [separators]) (by omega)]
      obtain ⟨fuel, rfl⟩ : ∃ f, fuel = f + 1 := ⟨fuel - 1, by omega⟩
      simp only [statements, exec_current_bind, Cursor.onto_current, hmore, if_true, exec_pure,
        List.reverse_cons]
  | s :: s2 :: rest, acc, ts, tail, more, last, fuel + 1, _, hbody, hts, htail, hmore, hf => by
    obtain ⟨hrs, hs, hds⟩ := hbody s List.mem_cons_self
    rw [Program.tokens_cons_cons] at hts hf
    obtain ⟨ts1, tr, rfl, hts1, htr⟩ := List.map_eq_append_iff.1 hts
    obtain ⟨tn, ts2, rfl, htn, hts2⟩ := List.map_eq_cons_iff.1 htr
    have hkn : tn.kind = .newLine := Token.kind_eq_of_erase htn
    have hnl : TokenKind.newLine ≠ stop := by rcases hstop with rfl | rfl <;> decide
    obtain ⟨t, tr', rfl, hkt⟩ := Stmt.spelled_head hs (hts1.trans (List.append_nil _).symm)
    simp only [List.length_append, List.length_cons] at hf
    obtain ⟨s', hs', hrun⟩ := hrs (t :: tr') (tn :: (ts2 ++ (tail ++ more))) last (d + 1) fuel
      hts1 hs (Token.endsStmt_of_kind (.inl hkn)) (by omega) (by omega)
    -- the next statement starts with neither a separator nor the end of the block
    obtain ⟨tv, ts2', rfl, hkv⟩ := Stmt.spelled_head (hbody s2 (by simp)).2.1 hts2
    obtain ⟨body2, hbody2, hrun2⟩ := exec_statements hstop hd (s2 :: rest) (s' :: acc)
      (tv :: ts2') tail more last fuel (by simp) (fun x hx => hbody x (List.mem_cons_of_mem s hx))
      hts2 htail hmore (by omega)
    refine ⟨s' :: body2, by simp [hs', hbody2], ?_⟩
    simp only [List.cons_append] at hrun
    simp only [statements, exec_current_bind, Cursor.onto_current, List.append_assoc,
      List.cons_append, List.headD_cons, if_neg (TokenKind.startsStmt_ne_stop hkt hstop)]
    rw [exec_bind_ok hrun]
    simp only [exec_current_bind, Cursor.onto_current, List.headD_cons, hkn, if_neg hnl,
      ne_eq, not_true_eq_false, if_false, true_or, if_true]
    rw [exec_skip_cons_bind (by simp [hkn, separators])
      (by simpa using TokenKind.not_mem_separators hkv) (by omega)]
    simp only [List.cons_append] at hrun2
    rw [hrun2]
    simp

/-- A braced block is read back statement by statement, given that each statement can be. -/
theorem exec_block {body : List Stmt} (ts more : List Token) (last : Token) (d fuel : Nat)
    (hbody : ∀ s ∈ body, StmtReads s ∧ s.Printable ∧ d + 6 * s.height + 17 ≤ nestingLimit)
    (hts : ts.map Token.erase = Stmt.blockTokens body) (hd : d + 12 ≤ nestingLimit)
    (hf : 3 * (Stmt.blockTokens body).length + 1 ≤ fuel) :
    ∃ body', body'.map Stmt.erase = body.map Stmt.erase ∧
      exec (block fuel d true) (Cursor.onto (ts ++ more) last) =
        .ok (body', Cursor.onto more last) := by
  obtain ⟨fuel, rfl⟩ : ∃ f, fuel = f + 1 := ⟨fuel - 1, by omega⟩
  simp only [Stmt.blockTokens, List.cons_append] at hts hf
  obtain ⟨tb, tr, rfl, htb, htr⟩ := List.map_eq_cons_iff.1 hts
  have hkb : tb.kind = .openCurly := Token.kind_eq_of_erase htb
  cases body with
  | nil =>
    simp only [Stmt.lineTokens, List.nil_append] at htr
    obtain ⟨tn, tr, rfl, htn, htr⟩ := List.map_eq_cons_iff.1 htr
    obtain ⟨tc, tr, rfl, htc, htr⟩ := List.map_eq_cons_iff.1 htr
    obtain rfl := List.map_eq_nil_iff.1 htr
    have hkn : tn.kind = .newLine := Token.kind_eq_of_erase htn
    have hkc : tc.kind = .closeCurly := Token.kind_eq_of_erase htc
    refine ⟨[], rfl, ?_⟩
    obtain ⟨fuel, rfl⟩ : ∃ f, fuel = f + 1 := ⟨fuel - 1, by simp at hf; omega⟩
    -- an empty block is its two braces with a line feed between them
    have hempty : exec (statements (fuel + 1) d .closeCurly []) (Cursor.onto (tc :: more) last) =
        .ok ([], Cursor.onto (tc :: more) last) := by
      simp only [statements, exec_current_bind, Cursor.onto_current, List.headD_cons, hkc,
        if_true, exec_pure, List.reverse_nil]
    simp only [block, exec_reach_bind (show d + 1 ≤ nestingLimit by omega), if_true,
      List.cons_append, List.nil_append]
    rw [exec_eat_bind hkb (by omega), exec_skip_cons_bind (by simp [hkn, separators])
      (by simp [hkc, separators]) (by omega), exec_bind_ok hempty, exec_eat_bind hkc (by omega),
      exec_reach_bind (by omega)]
    rfl
  | cons s rest =>
    have htr' : tr.map Token.erase = Token.plain .newLine "\n" ::
        (Program.tokens (s :: rest) ++
          [Token.plain .newLine "\n", Token.plain .closeCurly "\x7d"]) := by
      rw [htr]
      simp [Stmt.lineTokens, Program.tokens]
    obtain ⟨tn, tr, rfl, htn, htr⟩ := List.map_eq_cons_iff.1 htr'
    obtain ⟨tp, tq, rfl, htp, htq⟩ := List.map_eq_append_iff.1 htr
    obtain ⟨tn2, tq, rfl, htn2, htq⟩ := List.map_eq_cons_iff.1 htq
    obtain ⟨tc, tq, rfl, htc, htq⟩ := List.map_eq_cons_iff.1 htq
    obtain rfl := List.map_eq_nil_iff.1 htq
    have hkn : tn.kind = .newLine := Token.kind_eq_of_erase htn
    have hkc : tc.kind = .closeCurly := Token.kind_eq_of_erase htc
    -- the first statement starts with no separator
    obtain ⟨tu, tp', rfl, hku⟩ := Stmt.spelled_head (hbody s List.mem_cons_self).2.1 htp
    have hf' : 3 * (Program.tokens (s :: rest)).length + 4 ≤ fuel := by
      simp only [Program.tokens, Stmt.lineTokens, List.length_cons, List.length_append] at hf ⊢
      omega
    obtain ⟨body', hbody', hrun⟩ := exec_statements (Or.inl rfl) (by omega) (s :: rest) []
      (tu :: tp') [tn2] (tc :: more) last fuel (by simp) hbody htp (.inr (by simp [htn2]))
      (by simp [hkc]) hf'
    refine ⟨body', hbody', ?_⟩
    simp only [List.cons_append, List.nil_append, List.reverse_nil] at hrun
    simp only [block, exec_reach_bind (show d + 1 ≤ nestingLimit by omega), if_true,
      List.cons_append, List.append_assoc, List.nil_append]
    rw [exec_eat_bind hkb (by omega), exec_skip_cons_bind (by simp [hkn, separators])
      (by simpa using TokenKind.not_mem_separators hku) (by omega), exec_bind_ok hrun,
      exec_eat_bind hkc (by omega), exec_reach_bind (by omega)]
    rfl

/-! ## Calls and functions -/

/-- A call is read as its callee, then one round of the loop over argument lists. -/
theorem calleeReads_call {c : Expr} {args : List Expr} (hc : CalleeReads c) (hg : GroupReads c)
    (hargs : ∀ a ∈ args, ExprReads a) : CalleeReads (.call c args) := by
  intro ts more last d fuel hts hx _ _ hd hf
  simp only [Expr.height] at hd
  simp only [Expr.tokens, List.append_assoc, List.cons_append] at hts hf
  obtain ⟨tc, targs, rfl, htc, htargs⟩ := List.map_eq_append_iff.1 hts
  obtain ⟨t, tr, rfl, ht, -⟩ := List.map_eq_cons_iff.1 htargs
  have hk : t.kind = .openParen := Token.kind_eq_of_erase ht
  simp only [List.length_append, List.length_cons] at hf
  -- the callee, in the parentheses it needs or without them
  generalize hb : (c.isOperation || c.isUnary) = b at htc hf
  obtain ⟨c', fuel1, hc', hfuel1, hrunc⟩ : ∃ c' fuel1, c'.erase = c.erase ∧
      fuel ≤ fuel1 + (parenTokensIf b c.tokens).length ∧
      exec (primary fuel d) (Cursor.onto (tc ++ (t :: tr ++ more)) last) =
        exec (calls fuel1 (d + 1) c') (Cursor.onto (t :: tr ++ more) last) := by
    cases b with
    | true =>
      simp only [parenTokensIf, if_true, List.length_cons, List.length_append] at hf ⊢
      obtain ⟨c', hc', hrun⟩ := hg tc (t :: tr ++ more) last d fuel htc hx.1 (by simp [hk])
        (by omega) (by omega)
      exact ⟨c', fuel - 1, hc', by omega, hrun⟩
    | false =>
      simp only [Bool.or_eq_false_iff] at hb
      simp only [parenTokensIf, Bool.false_eq_true, if_false] at htc hf ⊢
      exact hc tc (t :: tr ++ more) last d fuel htc hx.1 hb.1 hb.2 (by omega) (by omega)
  have hargs' : ∀ a ∈ args, ExprReads a ∧ a.Printable ∧
      d + 1 + 6 * a.height + 19 ≤ nestingLimit := fun a ha => by
    have := Expr.height_le_listHeight ha
    exact ⟨hargs a ha, Expr.mem_printableList.1 hx.2 a ha, by omega⟩
  obtain ⟨args', hargs'', hrunargs⟩ := exec_calls_args (t :: tr) more last (d + 1) fuel1 hargs'
    htargs (by omega) (by omega)
  refine ⟨.call c' args', fuel1 - 1, by simp [Expr.erase, Expr.eraseList_eq_map, hc', hargs''],
    by simp only [Expr.tokens, List.length_append, List.length_cons, hb]; omega, ?_⟩
  rw [List.append_assoc, hrunc, hrunargs]

/-- A function is read as the list of its parameters, the arrow and its block. -/
theorem calleeReads_func {ps : List String} {body : List Stmt} (hbody : ∀ s ∈ body, StmtReads s) :
    CalleeReads (.func ps body) := by
  intro ts more last d fuel hts hx _ _ hd hf
  obtain ⟨hps, hbodyP⟩ := hx
  simp only [Expr.height] at hd
  have hts' : ts.map Token.erase = (Token.plain .openParen "(" ::
      (Expr.listTokens (ps.map .ident) ++ [Token.plain .closeParen ")"])) ++
        Token.plain .equalGreaterThan "=>" :: Stmt.blockTokens body := by
    rw [hts, Expr.tokens, paramTokens_eq_listTokens]
    simp
  obtain ⟨ti, tab, rfl, hti, htab⟩ := List.map_eq_append_iff.1 hts'
  obtain ⟨ta, tb, rfl, hta, htb⟩ := List.map_eq_cons_iff.1 htab
  obtain ⟨t0, ti', rfl, ht0, -⟩ := List.map_eq_cons_iff.1 hti
  have hk0 : t0.kind = .openParen := Token.kind_eq_of_erase ht0
  have hka : ta.kind = .equalGreaterThan := Token.kind_eq_of_erase hta
  simp only [Expr.tokens, paramTokens_eq_listTokens, List.length_cons, List.length_append] at hf
  obtain ⟨fuel, rfl⟩ : ∃ f, fuel = f + 2 := ⟨fuel - 2, by omega⟩
  -- the parameters are names, each read back as itself
  have hnames : ∀ a ∈ ps.map Expr.ident, ExprReads a ∧ a.Printable ∧
      d + 2 + 6 * a.height + 17 ≤ nestingLimit := by
    simp only [List.mem_map]
    rintro _ ⟨p, hp, rfl⟩
    exact ⟨exprReads_of_calleeReads (calleeReads_atom rfl) rfl rfl, hps p hp,
      by simp [Expr.height]; omega⟩
  obtain ⟨args', hargs', hrunargs⟩ := exec_items (t0 :: ti') (ta :: (tb ++ more)) last (d + 2)
    fuel (by omega) hnames hti (by omega)
  have hparams : paramNames args' = some ps :=
    paramNames_of_map_erase (hargs'.trans (by simp [Function.comp_def, Expr.erase]))
  have hbody' : ∀ s ∈ body, StmtReads s ∧ s.Printable ∧ d + 3 + 6 * s.height + 17 ≤ nestingLimit :=
    fun s hs => by
      have := Stmt.height_le_listHeight hs
      exact ⟨hbody s hs, Stmt.mem_printableList.1 hbodyP s hs, by omega⟩
  obtain ⟨body', hbody'', hrunb⟩ := exec_block tb more last (d + 3) fuel hbody' htb (by omega)
    (by omega)
  refine ⟨.func ps body', fuel + 1, by simp [Expr.erase, Stmt.eraseList_eq_map, hbody''],
    by simp only [Expr.tokens, paramTokens_eq_listTokens, List.length_cons, List.length_append]
       omega, ?_⟩
  have hpar : exec (parenthesized (fuel + 1) (d + 1))
      (Cursor.onto ((t0 :: ti') ++ (ta :: (tb ++ more))) last) =
        .ok (.func ps body', Cursor.onto more last) := by
    simp only [parenthesized, exec_reach_bind (show d + 1 ≤ nestingLimit by omega)]
    rw [exec_bind_ok hrunargs, exec_reach_bind (by omega)]
    simp only [exec_current_bind, Cursor.onto_current, List.headD_cons, hka, if_true,
      exec_reach_bind (show d + 1 + 1 ≤ nestingLimit by omega)]
    rw [exec_eat_bind hka (by omega)]
    simp only [hparams]
    rw [exec_bind_ok hrunb, exec_reach_bind (by omega)]
    rfl
  simp only [primary, exec_reach_bind (show d + 1 ≤ nestingLimit by omega), exec_current_bind,
    Cursor.onto_current, List.append_assoc, List.cons_append, List.headD_cons, hk0]
  rw [← List.cons_append, exec_bind_ok hpar]

/-! ## Statements, constructor by constructor -/

/-- An expression statement starts with no keyword, so the statement rule reads an expression. -/
theorem stmtReads_expr {e : Expr} (he : ExprReads e) : StmtReads (.expr e) := by
  intro ts more last d fuel hts hx hend hd hf
  simp only [Stmt.tokens] at hts hf
  simp only [Stmt.height] at hd
  obtain ⟨fuel, rfl⟩ : ∃ f, fuel = f + 1 := ⟨fuel - 1, by omega⟩
  obtain ⟨e', he', hrun⟩ := he.whole ts more last (d + 1) 0 fuel hts hx e.fits_zero hend.1
    (by omega) (by omega)
  refine ⟨.expr e', by simp [Stmt.erase, he'], ?_⟩
  obtain ⟨t, tr, rfl, hku, hres⟩ := Expr.spelled_head hx hts
  simp only [List.cons_append] at hrun
  simp only [statement, exec_reach_bind (show d + 2 ≤ nestingLimit by omega), exec_current_bind,
    Cursor.onto_current, List.cons_append, List.headD_cons,
    if_neg (TokenKind.startsExpr_ne hku).2.2.2.2.2]
  by_cases hid : t.kind = .identifier
  · -- a name that starts an expression is no keyword
    have hw' : t.text ≠ "let" ∧ t.text ≠ "if" ∧ t.text ≠ "else" ∧ t.text ≠ "for" ∧
        t.text ≠ "return" := by
      simpa [isReserved, reservedWords] using hres hid
    simp only [hid, if_true, if_neg hw'.1, if_neg hw'.2.1, if_neg hw'.2.2.1, if_neg hw'.2.2.2.1,
      if_neg hw'.2.2.2.2]
    rw [exec_bind_ok hrun]
    rfl
  · simp only [hid, if_false]
    rw [exec_bind_ok hrun]
    rfl

/-- A block statement starts with a brace, on which the statement rule reads a block. -/
theorem stmtReads_block {body : List Stmt} (hbody : ∀ s ∈ body, StmtReads s) :
    StmtReads (.block body) := by
  intro ts more last d fuel hts hx _ hd hf
  simp only [Stmt.tokens] at hts hf
  simp only [Stmt.height] at hd
  obtain ⟨fuel, rfl⟩ : ∃ f, fuel = f + 1 := ⟨fuel - 1, by omega⟩
  obtain ⟨body', hbody', hrun⟩ := exec_block ts more last (d + 2) fuel
    (fun s hs => ⟨hbody s hs, Stmt.mem_printableList.1 hx s hs,
      by have := Stmt.height_le_listHeight hs; omega⟩) hts (by omega) (by omega)
  refine ⟨.block body', by simp [Stmt.erase, Stmt.eraseList_eq_map, hbody'], ?_⟩
  simp only [Stmt.blockTokens, List.cons_append] at hts
  obtain ⟨t, tr, rfl, ht, -⟩ := List.map_eq_cons_iff.1 hts
  have hk : t.kind = .openCurly := Token.kind_eq_of_erase ht
  simp only [statement, exec_reach_bind (show d + 2 ≤ nestingLimit by omega), exec_current_bind,
    Cursor.onto_current, List.cons_append, List.headD_cons, hk, if_true]
  rw [← List.cons_append, exec_bind_ok hrun]
  rfl

/-- A declaration starts with the keyword `let`, on which the statement rule reads a
declaration: the name, then the initial value when `=` follows. -/
theorem stmtReads_letDecl {n : String} {init : Option Expr}
    (he : ∀ e, init = some e → ExprReads e) : StmtReads (.letDecl n init) := by
  intro ts more last d fuel hts hx hend hd hf
  obtain ⟨fuel, rfl⟩ : ∃ f, fuel = f + 2 := ⟨fuel - 2, by cases init <;> simp [Stmt.tokens] at hf <;> omega⟩
  cases init with
  | none =>
    simp only [Stmt.tokens, Stmt.height] at hts hd
    obtain ⟨tl, tr, rfl, htl, htr⟩ := List.map_eq_cons_iff.1 hts
    obtain ⟨tn, tr, rfl, htn, htr⟩ := List.map_eq_cons_iff.1 htr
    obtain rfl := List.map_eq_nil_iff.1 htr
    have hkl : tl.kind = .identifier := Token.kind_eq_of_erase htl
    have hxl : tl.text = "let" := Token.text_eq_of_erase htl
    have hkn : tn.kind = .identifier := Token.kind_eq_of_erase htn
    have hxn : tn.text = n := Token.text_eq_of_erase htn
    -- no `=` follows a declaration without a value
    have hneq : (more.headD last).kind ≠ .equal := fun h => by
      have := hend.1.1
      rw [h] at this
      exact absurd this (by decide)
    refine ⟨.letDecl n none, rfl, ?_⟩
    simp only [statement, exec_reach_bind (show d + 2 ≤ nestingLimit by omega), exec_current_bind,
      Cursor.onto_current, List.cons_append, List.nil_append, List.headD_cons, hkl, hxl, if_true,
      reduceCtorEq, if_false]
    simp only [letDecl, exec_reach_bind (show d + 2 ≤ nestingLimit by omega)]
    rw [exec_keyword_bind (by omega), exec_eat_bind hkn (by omega)]
    simp only [hxn, isReserved_eq_false_of_isName hx, Bool.false_eq_true, if_false,
      exec_reach_bind (show d + 2 + 1 ≤ nestingLimit by omega), exec_current_bind,
      Cursor.onto_current, if_neg hneq, pure_bind,
      exec_reach_bind (show d + 2 + 3 ≤ nestingLimit by omega), exec_pure]
  | some e =>
    simp only [Stmt.tokens, Stmt.height] at hts hd hf
    obtain ⟨tl, tr, rfl, htl, htr⟩ := List.map_eq_cons_iff.1 hts
    obtain ⟨tn, tr, rfl, htn, htr⟩ := List.map_eq_cons_iff.1 htr
    obtain ⟨tq, te, rfl, htq, hte⟩ := List.map_eq_cons_iff.1 htr
    have hkl : tl.kind = .identifier := Token.kind_eq_of_erase htl
    have hxl : tl.text = "let" := Token.text_eq_of_erase htl
    have hkn : tn.kind = .identifier := Token.kind_eq_of_erase htn
    have hxn : tn.text = n := Token.text_eq_of_erase htn
    have hkq : tq.kind = .equal := Token.kind_eq_of_erase htq
    simp only [List.length_cons] at hf
    obtain ⟨e', he', hrun⟩ := (he e rfl).whole te more last (d + 2 + 1) assignmentRhsPrecedence
      fuel hte hx.2 e.fits_zero hend.1 (by omega) (by omega)
    refine ⟨.letDecl n (some e'), by simp [Stmt.erase, he'], ?_⟩
    simp only [statement, exec_reach_bind (show d + 2 ≤ nestingLimit by omega), exec_current_bind,
      Cursor.onto_current, List.cons_append, List.headD_cons, hkl, hxl, if_true,
      reduceCtorEq, if_false]
    simp only [letDecl, exec_reach_bind (show d + 2 ≤ nestingLimit by omega)]
    rw [exec_keyword_bind (by omega), exec_eat_bind hkn (by omega)]
    simp only [hxn, isReserved_eq_false_of_isName hx.1, Bool.false_eq_true, if_false,
      exec_reach_bind (show d + 2 + 1 ≤ nestingLimit by omega), exec_current_bind,
      Cursor.onto_current, List.headD_cons, hkq, if_true]
    rw [exec_advance_bind (by omega), exec_bind_ok (exec_map_ok hrun),
      exec_reach_bind (by omega)]
    rfl

/-- A condition is read back between its parentheses. -/
theorem exec_condition {c : Expr} (hc : ExprReads c) (ts more : List Token) (last : Token)
    (d fuel : Nat)
    (hts : ts.map Token.erase =
      Token.plain .openParen "(" :: (c.tokens ++ [Token.plain .closeParen ")"]))
    (hx : c.Printable) (hd : d + 6 * c.height + 17 ≤ nestingLimit)
    (hf : 3 * c.tokens.length + 3 ≤ fuel) :
    ∃ c', c'.erase = c.erase ∧
      exec (condition fuel d) (Cursor.onto (ts ++ more) last) = .ok (c', Cursor.onto more last) := by
  obtain ⟨fuel, rfl⟩ : ∃ f, fuel = f + 1 := ⟨fuel - 1, by omega⟩
  obtain ⟨t0, tr, rfl, ht0, htr⟩ := List.map_eq_cons_iff.1 hts
  obtain ⟨tc, tq, rfl, htc, htq⟩ := List.map_eq_append_iff.1 htr
  obtain ⟨tp, tq, rfl, htp, htq⟩ := List.map_eq_cons_iff.1 htq
  obtain rfl := List.map_eq_nil_iff.1 htq
  have hk0 : t0.kind = .openParen := Token.kind_eq_of_erase ht0
  have hkp : tp.kind = .closeParen := Token.kind_eq_of_erase htp
  obtain ⟨tu, tc, rfl, hku, -⟩ := Expr.spelled_head hx htc
  obtain ⟨c', hc', hrun⟩ := hc.whole (tu :: tc) (tp :: more) last (d + 1) 0 fuel htc hx
    c.fits_zero (Token.ends_of_precedence (by simp [hkp]; rfl) (by simp [hkp]) (by simp [hkp]))
    (by omega) (by omega)
  refine ⟨c', hc', ?_⟩
  simp only [List.cons_append] at hrun
  simp only [condition, exec_reach_bind (show d ≤ nestingLimit by omega), List.cons_append,
    List.append_assoc, List.nil_append]
  rw [exec_eat_bind hk0 (by omega),
    exec_skip_stop_bind (by simpa using (TokenKind.startsExpr_ne hku).2.1) (by omega),
    exec_bind_ok hrun, exec_skip_stop_bind (by simp [hkp]) (by omega),
    exec_eat_bind hkp (by omega)]
  rfl

/-- A branch is read back: a block directly, any other statement by the statement rule. -/
theorem exec_branch {h : Nat} (ih : Back h) {s : Stmt} (hh : s.height < h) (ts more : List Token)
    (last : Token) (d fuel : Nat) (hts : ts.map Token.erase = s.tokens) (hx : s.Printable)
    (hend : (more.headD last).EndsStmt s) (hd : d + 6 * s.height + 17 ≤ nestingLimit)
    (hf : 3 * s.tokens.length + 4 ≤ fuel) :
    ∃ s', s'.erase = s.erase ∧
      exec (branch fuel d) (Cursor.onto (ts ++ more) last) = .ok (s', Cursor.onto more last) := by
  obtain ⟨fuel, rfl⟩ : ∃ f, fuel = f + 1 := ⟨fuel - 1, by omega⟩
  by_cases hb : ∃ body, s = .block body
  · obtain ⟨body, rfl⟩ := hb
    simp only [Stmt.tokens, Stmt.height] at hts hf hd hh
    obtain ⟨body', hbody', hrun⟩ := exec_block ts more last (d + 1) fuel (fun x hx' => by
        have := Stmt.height_le_listHeight hx'
        exact ⟨ih.stmt x (by omega), Stmt.mem_printableList.1 hx x hx', by omega⟩)
      hts (by omega) (by omega)
    refine ⟨.block body', by simp [Stmt.erase, Stmt.eraseList_eq_map, hbody'], ?_⟩
    simp only [Stmt.blockTokens, List.cons_append] at hts
    obtain ⟨t, tr, rfl, ht, -⟩ := List.map_eq_cons_iff.1 hts
    have hk : t.kind = .openCurly := Token.kind_eq_of_erase ht
    simp only [branch, exec_reach_bind (show d + 1 ≤ nestingLimit by omega), exec_current_bind,
      Cursor.onto_current, List.cons_append, List.headD_cons, hk, if_true]
    rw [← List.cons_append, exec_bind_ok hrun]
    rfl
  · obtain ⟨u, rest, hu, hku⟩ := s.tokens_head_of_not_block hx hb
    obtain ⟨s', hs', hrun⟩ := ih.stmt s hh ts more last (d + 1) fuel hts hx hend (by omega)
      (by omega)
    refine ⟨s', hs', ?_⟩
    obtain ⟨t, tr, rfl, ht, -⟩ := List.map_eq_cons_iff.1 (hts.trans hu)
    have hk : t.kind = u.kind := Token.kind_eq_of_erase ht
    simp only [List.cons_append] at hrun
    simp only [branch, exec_reach_bind (show d + 1 ≤ nestingLimit by omega), exec_current_bind,
      Cursor.onto_current, List.cons_append, List.headD_cons, hk, if_neg hku]
    exact hrun

/-- A conditional starts with the keyword `if`, on which the statement rule reads the condition,
the branch, and the branch after `else` when `else` comes next. -/
theorem stmtReads_ite {h : Nat} (ih : Back h) {c : Expr} {th : Stmt} {el : Option Stmt}
    (hh : (Stmt.ite c th el).height ≤ h) : StmtReads (.ite c th el) := by
  intro ts more last d fuel hts hx hend hd hf
  obtain ⟨fuel, rfl⟩ : ∃ f, fuel = f + 2 :=
    ⟨fuel - 2, by cases el <;> simp [Stmt.tokens] at hf <;> omega⟩
  cases el with
  | none =>
    simp only [Stmt.height] at hh hd
    have hts' : ts.map Token.erase = Token.plain .identifier "if" ::
        ((Token.plain .openParen "(" :: (c.tokens ++ [Token.plain .closeParen ")"])) ++
          th.tokens) := by
      rw [hts]
      simp [Stmt.tokens]
    simp only [Stmt.tokens, List.length_cons, List.length_append] at hf
    obtain ⟨ti, tr, rfl, hti, htr⟩ := List.map_eq_cons_iff.1 hts'
    obtain ⟨tc, tt, rfl, htc, htt⟩ := List.map_eq_append_iff.1 htr
    have hki : ti.kind = .identifier := Token.kind_eq_of_erase hti
    have hxi : ti.text = "if" := Token.text_eq_of_erase hti
    -- no `else` follows, or this `if` would have taken it
    have hnot : (more.headD last).isWord "else" = false := by
      cases hw : (more.headD last).isWord "else"
      · rfl
      · simpa [Stmt.endsOpen] using hend.2 hw
    obtain ⟨c', hc', hrunc⟩ := exec_condition (ih.expr c (by omega)) tc (tt ++ more) last (d + 3)
      fuel htc hx.1 (by omega) (by omega)
    obtain ⟨th', hth', hrunt⟩ := exec_branch ih (show th.height < h by omega) tt more last (d + 3)
      fuel htt hx.2 ⟨hend.1, fun hw => absurd (hnot.symm.trans hw) Bool.false_ne_true⟩ (by omega)
      (by omega)
    refine ⟨.ite c' th' none, by simp [Stmt.erase, hc', hth'], ?_⟩
    simp only [statement, exec_reach_bind (show d + 2 ≤ nestingLimit by omega), exec_current_bind,
      Cursor.onto_current, List.cons_append, List.headD_cons, hki, hxi, if_true,
      reduceCtorEq, if_false, if_neg (show ("if" : String) ≠ "let" by decide)]
    simp only [ifStmt, exec_reach_bind (show d + 2 ≤ nestingLimit by omega)]
    rw [exec_keyword_bind (by omega), List.append_assoc, exec_bind_ok hrunc, exec_bind_ok hrunt]
    simp only [exec_reach_bind (show d + 2 + 2 ≤ nestingLimit by omega), exec_current_bind,
      Cursor.onto_current, hnot, Bool.false_eq_true, if_false, pure_bind,
      exec_reach_bind (show d + 2 + 3 ≤ nestingLimit by omega), exec_pure]
  | some el =>
    simp only [Stmt.height] at hh hd
    have hts' : ts.map Token.erase = Token.plain .identifier "if" ::
        ((Token.plain .openParen "(" :: (c.tokens ++ [Token.plain .closeParen ")"])) ++
          (th.tokens ++ Token.plain .identifier "else" :: el.tokens)) := by
      rw [hts]
      simp [Stmt.tokens]
    simp only [Stmt.tokens, List.length_cons, List.length_append] at hf
    obtain ⟨ti, tr, rfl, hti, htr⟩ := List.map_eq_cons_iff.1 hts'
    obtain ⟨tc, tte, rfl, htc, htte⟩ := List.map_eq_append_iff.1 htr
    obtain ⟨tt, twe, rfl, htt, htwe⟩ := List.map_eq_append_iff.1 htte
    obtain ⟨tw, te, rfl, htw, hte⟩ := List.map_eq_cons_iff.1 htwe
    have hki : ti.kind = .identifier := Token.kind_eq_of_erase hti
    have hxi : ti.text = "if" := Token.text_eq_of_erase hti
    have hkw : tw.kind = .identifier := Token.kind_eq_of_erase htw
    have hw : tw.isWord "else" = true := by
      simp [Token.isWord, hkw, Token.text_eq_of_erase htw, Token.plain]
    obtain ⟨c', hc', hrunc⟩ := exec_condition (ih.expr c (by omega)) tc (tt ++ tw :: te ++ more)
      last (d + 3) fuel htc hx.1 (by omega) (by omega)
    -- the `else` ends the first branch, which ends in no open `if`
    obtain ⟨th', hth', hrunt⟩ := exec_branch ih (show th.height < h by omega) tt
      (tw :: (te ++ more)) last (d + 3) fuel htt hx.2.1
      ⟨Token.ends_of_precedence (by simp [hkw]; rfl) (by simp [hkw]) (by simp [hkw]),
        fun _ => hx.2.2.1⟩ (by omega) (by omega)
    obtain ⟨el', hel', hrune⟩ := exec_branch ih (show el.height < h by omega) te more last (d + 3)
      fuel hte hx.2.2.2 ⟨hend.1, fun hw => by simpa [Stmt.endsOpen] using hend.2 hw⟩ (by omega)
      (by omega)
    refine ⟨.ite c' th' (some el'), by simp [Stmt.erase, hc', hth', hel'], ?_⟩
    simp only [statement, exec_reach_bind (show d + 2 ≤ nestingLimit by omega), exec_current_bind,
      Cursor.onto_current, List.cons_append, List.headD_cons, hki, hxi, if_true,
      reduceCtorEq, if_false, if_neg (show ("if" : String) ≠ "let" by decide)]
    simp only [ifStmt, exec_reach_bind (show d + 2 ≤ nestingLimit by omega)]
    rw [exec_keyword_bind (by omega)]
    simp only [List.append_assoc, List.cons_append] at hrunc ⊢
    rw [exec_bind_ok hrunc, exec_bind_ok hrunt]
    simp only [exec_reach_bind (show d + 2 + 2 ≤ nestingLimit by omega), exec_current_bind,
      Cursor.onto_current, List.headD_cons, hw, if_true]
    rw [exec_advance_bind (by omega), exec_bind_ok (exec_map_ok hrune),
      exec_reach_bind (by omega)]
    rfl

/-- A loop starts with the keyword `for`, on which the statement rule reads the condition and the
body. -/
theorem stmtReads_loop {h : Nat} (ih : Back h) {c : Expr} {b : Stmt}
    (hh : (Stmt.loop c b).height ≤ h) : StmtReads (.loop c b) := by
  intro ts more last d fuel hts hx hend hd hf
  simp only [Stmt.height] at hh hd
  have hts' : ts.map Token.erase = Token.plain .identifier "for" ::
      ((Token.plain .openParen "(" :: (c.tokens ++ [Token.plain .closeParen ")"])) ++
        b.tokens) := by
    rw [hts]
    simp [Stmt.tokens]
  simp only [Stmt.tokens, List.length_cons, List.length_append] at hf
  obtain ⟨fuel, rfl⟩ : ∃ f, fuel = f + 2 := ⟨fuel - 2, by omega⟩
  obtain ⟨ti, tr, rfl, hti, htr⟩ := List.map_eq_cons_iff.1 hts'
  obtain ⟨tc, tt, rfl, htc, htt⟩ := List.map_eq_append_iff.1 htr
  have hki : ti.kind = .identifier := Token.kind_eq_of_erase hti
  have hxi : ti.text = "for" := Token.text_eq_of_erase hti
  obtain ⟨c', hc', hrunc⟩ := exec_condition (ih.expr c (by omega)) tc (tt ++ more) last (d + 3)
    fuel htc hx.1 (by omega) (by omega)
  obtain ⟨b', hb', hrunb⟩ := exec_branch ih (show b.height < h by omega) tt more last (d + 3)
    fuel htt hx.2 ⟨hend.1, fun hw => by simpa [Stmt.endsOpen] using hend.2 hw⟩ (by omega)
    (by omega)
  refine ⟨.loop c' b', by simp [Stmt.erase, hc', hb'], ?_⟩
  simp only [statement, exec_reach_bind (show d + 2 ≤ nestingLimit by omega), exec_current_bind,
    Cursor.onto_current, List.cons_append, List.headD_cons, hki, hxi, if_true,
    reduceCtorEq, if_false, if_neg (show ("for" : String) ≠ "let" by decide),
    if_neg (show ("for" : String) ≠ "if" by decide)]
  simp only [forStmt, exec_reach_bind (show d + 2 ≤ nestingLimit by omega)]
  rw [exec_keyword_bind (by omega), List.append_assoc, exec_bind_ok hrunc, exec_bind_ok hrunb,
    exec_reach_bind (by omega)]
  rfl

/-! ## Every tree reads back -/

/-- The rules read back every tree of height `h`, given that they read back all lower trees. -/
theorem back_succ {h : Nat} (ih : Back h) : Back (h + 1) := by
  have callee : ∀ x : Expr, x.height < h + 1 → CalleeReads x := by
    intro x hx
    cases x with
    | ident | num | str => exact calleeReads_atom rfl
    | unary =>
      intro _ _ _ _ _ _ _ _ hu
      simp [Expr.isUnary] at hu
    | binary | assign =>
      intro _ _ _ _ _ _ _ hop
      simp [Expr.isOperation, Expr.isAssign, Expr.binaryPrecedence?] at hop
    | call c args =>
      simp only [Expr.height] at hx
      exact calleeReads_call (ih.callee c (by omega)) (ih.group c (by omega))
        (fun a ha => ih.expr a (by have := Expr.height_le_listHeight ha; omega))
    | func ps body =>
      simp only [Expr.height] at hx
      exact calleeReads_func
        (fun s hs => ih.stmt s (by have := Stmt.height_le_listHeight hs; omega))
  have expr : ∀ e : Expr, e.height < h + 1 → ExprReads e := by
    intro e he
    cases e with
    | unary s pos e =>
      simp only [Expr.height] at he
      exact exprReads_unary (ih.expr e (by omega))
    | binary op pos l r =>
      simp only [Expr.height] at he
      exact exprReads_binary (ih.expr l (by omega)) (ih.expr r (by omega))
    | assign tg v =>
      simp only [Expr.height] at he
      exact exprReads_assign (ih.expr tg (by omega)) (ih.expr v (by omega))
    | _ => exact exprReads_of_calleeReads (callee _ he) rfl rfl
  refine ⟨expr, callee, fun x hx => groupReads_of_exprReads (expr x hx), ?_⟩
  intro s hs
  cases s with
  | expr e =>
    simp only [Stmt.height] at hs
    exact stmtReads_expr (ih.expr e (by omega))
  | block body =>
    simp only [Stmt.height] at hs
    exact stmtReads_block
      (fun x hx => ih.stmt x (by have := Stmt.height_le_listHeight hx; omega))
  | letDecl n init =>
    refine stmtReads_letDecl (fun e he => ih.expr e ?_)
    subst he
    simp only [Stmt.height] at hs
    omega
  | ite c th el => exact stmtReads_ite ih (by omega)
  | loop c b => exact stmtReads_loop ih (by omega)

/-- The rules read back trees of every height. -/
theorem back : ∀ h, Back h
  | 0 => back_zero
  | h + 1 => back_succ (back h)

theorem exprReads (e : Expr) : ExprReads e := (back (e.height + 1)).expr e (Nat.lt_succ_self _)

theorem stmtReads (s : Stmt) : StmtReads s := (back (s.height + 1)).stmt s (Nat.lt_succ_self _)

end Parse

/-- A stream that ends well starts with the cursor on its tokens. -/
theorem Cursor.start_eq {s : TokenStream} {eof : Token} (hfin : s.finish = .ok eof) :
    Cursor.start s = .ok (Cursor.onto s.tokens eof) := by
  obtain ⟨ts, fin⟩ := s
  subst hfin
  cases ts <;> rfl

variable [NestingLimit]

open Parse in
/-- The parser reads a printed program back from its tokens, when the end of input follows them
and the program nests no deeper than the parser allows. -/
theorem Program.ofTokens_of_tokens {p : Program} (hp : p.Printable) {s : TokenStream}
    {eof : Token} (hs : s.tokens.map Token.erase = p.tokens) (hfin : s.finish = .ok eof)
    (heof : eof.kind = .eof) {q : Nat} (hd : q + 6 * p.height + 18 ≤ nestingLimit) :
    ∃ p', Program.ofTokens s q = .ok p' ∧ p'.erase = p.erase := by
  have hq : q + 1 + 9 ≤ nestingLimit := by omega
  -- the whole program is the unbraced block up to the end of input
  have hblock : ∃ p', p'.map Stmt.erase = p.map Stmt.erase ∧
      exec (block (parseFuel s.tokens.length) (q + 1) false) (Cursor.onto s.tokens eof) =
        .ok (p', Cursor.onto [] eof) := by
    obtain ⟨fuel, hfuel⟩ : ∃ f, parseFuel s.tokens.length = f + 2 :=
      ⟨parseFuel s.tokens.length - 2, by simp [parseFuel]; omega⟩
    rw [hfuel]
    cases p with
    | nil =>
      rw [List.map_eq_nil_iff.1 hs]
      refine ⟨[], rfl, ?_⟩
      simp only [block, exec_reach_bind (show q + 1 + 1 ≤ nestingLimit by omega),
        Bool.false_eq_true, if_false]
      have hempty : exec (statements (fuel + 1) (q + 1) .eof []) (Cursor.onto [] eof) =
          .ok ([], Cursor.onto [] eof) := by
        simp only [statements, exec_current_bind, Cursor.onto_current, List.headD_nil, heof,
          if_true, exec_pure, List.reverse_nil]
      rw [exec_skip_stop_bind (by simp [heof, separators]) (by omega), exec_bind_ok hempty,
        exec_reach_bind (by omega)]
      rfl
    | cons st rest =>
      have hbody : ∀ x ∈ st :: rest, StmtReads x ∧ x.Printable ∧
          q + 1 + 6 * x.height + 17 ≤ nestingLimit := fun x hx => by
        have := Stmt.height_le_listHeight hx
        exact ⟨stmtReads x, Stmt.mem_printableList.1 hp x hx, by
          simp only [Program.height] at hd; omega⟩
      have hlen : s.tokens.length = (Program.tokens (st :: rest)).length := by
        rw [← hs, List.length_map]
      obtain ⟨p', hp', hrun⟩ := exec_statements (Or.inr rfl) hq (st :: rest) [] s.tokens [] []
        eof (fuel + 1) (by simp) hbody hs (.inl rfl) (by simp [heof])
        (by simp only [parseFuel] at hfuel; omega)
      refine ⟨p', hp', ?_⟩
      obtain ⟨tu, tr, htu, hku⟩ := Stmt.spelled_head (hbody st List.mem_cons_self).2.1 hs
      simp only [List.append_nil, List.reverse_nil, List.nil_append] at hrun
      simp only [block, exec_reach_bind (show q + 1 + 1 ≤ nestingLimit by omega),
        Bool.false_eq_true, if_false]
      rw [exec_skip_stop_bind (by simpa [htu] using TokenKind.not_mem_separators hku) (by omega)]
      rw [exec_bind_ok hrun, exec_reach_bind (by omega)]
      rfl
  obtain ⟨p', hp', hrun⟩ := hblock
  refine ⟨p', ?_, by simp [Program.erase, Stmt.eraseList_eq_map, hp']⟩
  have htop : exec (topLevel (parseFuel s.tokens.length) q) (Cursor.onto s.tokens eof) =
      .ok (p', Cursor.onto [] eof) := by
    have := (Cursor.onto s.tokens eof).current.readDepth_le
    simp only [topLevel, exec_current_bind, exec_reach_bind (show q + 2 +
      (Cursor.onto s.tokens eof).current.readDepth ≤ nestingLimit by omega)]
    rw [exec_bind_ok hrun, exec_reach_bind (by omega)]
    rfl
  simp only [Program.ofTokens, Cursor.start_eq hfin]
  show (StateT.run (topLevel _ q) (Cursor.onto s.tokens eof) >>= fun x => pure x.1) = _
  rw [show StateT.run _ _ = _ from htop]
  rfl

end Scriptlet.Syntax
