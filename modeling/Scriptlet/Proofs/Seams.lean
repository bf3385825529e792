import Scriptlet.Proofs.Offsets
import Scriptlet.Proofs.Reading
import Scriptlet.Proofs.Printed

/-!
# A piece of text read alone and inside a longer text

A program read by itself ends at the end of input; in a longer text, the same program may be
followed by a line feed and more. Every rule of the parser stops alike at both: a line feed binds
no operator, opens no argument list, is no `else` and no closing bracket, and is read as deep as
the end of input. Where a rule skips line feeds (inside parentheses, and between the statements of
a block), skipping into what follows the piece leaves the piece read alone at its end, where the
rule fails. And tokens moved to a later offset read as the same trees with their offsets moved
(`Expr.shift`).

This file sets up the comparison: a `Seam` says what follows the piece, `Seam.Joins` relates the
cursors of the two readings, and `Seam.Alike` the outcomes, with one lemma for each step of the
parser.

## Main definitions

* `Expr.shift`, `Stmt.shift`, `Program.shift`: trees with their offsets moved.
* `Parse.Fails`: a reading that gives no value.
* `Seam`: where a piece read alone meets what follows it in a longer text.
* `Seam.Joins`: the cursors of the two readings stand on the same token, or both at the end of
  the piece.
* `Seam.Alike`: whenever the piece alone is read to a value, the longer text is read to a related
  value, on joined cursors.
-/

set_option autoImplicit false

namespace Scriptlet.Syntax

/-! ## Trees with their offsets moved -/

mutual

/-- An expression with the offsets of its operators and numerals moved by `k`. -/
def Expr.shift (k : Nat) : Expr → Expr
  | .ident n => .ident n
  | .num text f pos => .num text f (pos + k)
  | .str text => .str text
  | .unary s pos e => .unary s (pos + k) (e.shift k)
  | .binary op pos l r => .binary op (pos + k) (l.shift k) (r.shift k)
  | .assign t v => .assign (t.shift k) (v.shift k)
  | .call c args => .call (c.shift k) (Expr.shiftList k args)
  | .func ps body => .func ps (Stmt.shiftList k body)

/-- Expressions with their offsets moved by `k`. -/
def Expr.shiftList (k : Nat) : List Expr → List Expr
  | [] => []
  | e :: rest => e.shift k :: Expr.shiftList k rest

/-- A statement with the offsets of its operators and numerals moved by `k`. -/
def Stmt.shift (k : Nat) : Stmt → Stmt
  | .expr e => .expr (e.shift k)
  | .block body => .block (Stmt.shiftList k body)
  | .letDecl n none => .letDecl n none
  | .letDecl n (some e) => .letDecl n (some (e.shift k))
  | .ite c th none => .ite (c.shift k) (th.shift k) none
  | .ite c th (some el) => .ite (c.shift k) (th.shift k) (some (el.shift k))
  | .loop c b => .loop (c.shift k) (b.shift k)

/-- Statements with their offsets moved by `k`. -/
def Stmt.shiftList (k : Nat) : List Stmt → List Stmt
  | [] => []
  | s :: rest => s.shift k :: Stmt.shiftList k rest

end

/-- A program with its offsets moved by `k`. -/
def Program.shift (k : Nat) (p : Program) : Program := Stmt.shiftList k p

theorem Expr.shiftList_eq_map (k : Nat) (es : List Expr) :
    Expr.shiftList k es = es.map (Expr.shift k) := by
  induction es with
  | nil => rfl
  | cons e es ih => simp [Expr.shiftList, ih]

theorem Stmt.shiftList_eq_map (k : Nat) (ss : List Stmt) :
    Stmt.shiftList k ss = ss.map (Stmt.shift k) := by
  induction ss with
  | nil => rfl
  | cons s ss ih => simp [Stmt.shiftList, ih]

theorem Stmt.shift_letDecl (k : Nat) (n : String) (init : Option Expr) :
    (Stmt.letDecl n init).shift k = .letDecl n (init.map (Expr.shift k)) := by
  cases init <;> rfl

theorem Stmt.shift_block (k : Nat) (body : List Stmt) :
    (Stmt.block body).shift k = .block (body.map (Stmt.shift k)) := by
  simp only [Stmt.shift, Stmt.shiftList_eq_map]

theorem Expr.shift_call (k : Nat) (callee : Expr) (args : List Expr) :
    (Expr.call callee args).shift k = .call (callee.shift k) (args.map (Expr.shift k)) := by
  simp only [Expr.shift, Expr.shiftList_eq_map]

theorem Expr.shift_func (k : Nat) (ps : List String) (body : List Stmt) :
    (Expr.func ps body).shift k = .func ps (body.map (Stmt.shift k)) := by
  simp only [Expr.shift, Stmt.shiftList_eq_map]

mutual

theorem Expr.shift_zero : ∀ e : Expr, e.shift 0 = e
  | .ident _ | .num .. | .str _ => rfl
  | .unary _ _ e => by simp only [Expr.shift, Nat.add_zero, Expr.shift_zero e]
  | .binary _ _ l r => by simp only [Expr.shift, Nat.add_zero, Expr.shift_zero l, Expr.shift_zero r]
  | .assign t v => by simp only [Expr.shift, Expr.shift_zero t, Expr.shift_zero v]
  | .call c args => by simp only [Expr.shift, Expr.shift_zero c, Expr.shiftList_zero args]
  | .func _ body => by simp only [Expr.shift, Stmt.shiftList_zero body]

theorem Expr.shiftList_zero : ∀ es : List Expr, Expr.shiftList 0 es = es
  | [] => rfl
  | e :: rest => by simp only [Expr.shiftList, Expr.shift_zero e, Expr.shiftList_zero rest]

theorem Stmt.shift_zero : ∀ s : Stmt, s.shift 0 = s
  | .expr e => by simp only [Stmt.shift, Expr.shift_zero e]
  | .block body => by simp only [Stmt.shift, Stmt.shiftList_zero body]
  | .letDecl _ none => rfl
  | .letDecl _ (some e) => by simp only [Stmt.shift, Expr.shift_zero e]
  | .ite c th none => by simp only [Stmt.shift, Expr.shift_zero c, Stmt.shift_zero th]
  | .ite c th (some el) => by
    simp only [Stmt.shift, Expr.shift_zero c, Stmt.shift_zero th, Stmt.shift_zero el]
  | .loop c b => by simp only [Stmt.shift, Expr.shift_zero c, Stmt.shift_zero b]

theorem Stmt.shiftList_zero : ∀ ss : List Stmt, Stmt.shiftList 0 ss = ss
  | [] => rfl
  | s :: rest => by simp only [Stmt.shiftList, Stmt.shift_zero s, Stmt.shiftList_zero rest]

end

theorem Program.shift_zero (p : Program) : p.shift 0 = p := Stmt.shiftList_zero p

/-- Parameter names are read off names, which keep no offsets. -/
theorem paramNames_shift (k : Nat) : ∀ es : List Expr,
    Parse.paramNames (es.map (Expr.shift k)) = Parse.paramNames es
  | [] => rfl
  | .ident n :: rest => by
    simp only [List.map_cons, Expr.shift, Parse.paramNames, paramNames_shift k rest]
  | .num .. :: _ | .str _ :: _ | .unary .. :: _ | .binary .. :: _ | .assign .. :: _
  | .call .. :: _ | .func .. :: _ => rfl

/-! ## Readings that fail -/

namespace Parse

variable {α β : Type}

/-- A reading that gives no value from cursor `c`, whatever its failure. -/
def Fails (x : Parse α) (c : Cursor) : Prop := ∀ a c', exec x c ≠ .ok (a, c')

namespace Fails

variable {c : Cursor}

theorem bind {x : Parse α} {f : α → Parse β} (h : Fails x c) : Fails (x >>= f) c := by
  intro b c' hr
  rw [exec_bind] at hr
  rcases hx : exec x c with e | ⟨a, c''⟩
  · rw [hx] at hr
    cases hr
  · exact h a c'' hx

variable [NestingLimit]

theorem reach_bind {n : Nat} {f : Unit → Parse α} (h : Fails (f ()) c) :
    Fails (reach n >>= f) c := by
  intro a c' hr
  by_cases hn : n ≤ nestingLimit
  · rw [exec_reach_bind hn] at hr
    exact h a c' hr
  · rw [exec_bind, exec_reach, if_pos (by omega)] at hr
    cases hr

theorem failAt {d : Nat} {t : Token} {w : Expectation} : Fails (Parse.failAt d t w : Parse α) c :=
  reach_bind fun _ _ hr => by cases hr

omit [NestingLimit] in
theorem throw {e : ParseError} : Fails (MonadExcept.throw e : Parse α) c :=
  fun _ _ hr => by cases hr

end Fails

end Parse

/-! ## Tokens where a piece ends -/

@[simp] theorem Cursor.onto_ahead (ts : List Token) (last : Token) :
    (Cursor.onto ts last).ahead = ts.tail := by
  cases ts <;> rfl

/-- A line feed and the end of input are read as deep. -/
theorem Token.readDepth_of_ends {t : Token} (h : t.kind = .eof ∨ t.kind = .newLine) :
    t.readDepth = 5 := by
  unfold Token.readDepth
  rcases h with h | h <;> rw [h]

/-- Where a piece may end, no operator binds: at the end of input and at a line feed. -/
theorem TokenKind.ends_facts {k : TokenKind} (h : k = .eof ∨ k = .newLine) :
    k.precedence = 0 ∧ Sign.ofKind? k = none ∧ BinOp.ofKind? k = none := by
  rcases h with rfl | rfl <;> exact ⟨rfl, rfl, rfl⟩

/-- Where a piece read alone meets what follows it in a longer text: how far its tokens move,
the tokens after it, and the ends of input of both readings. A piece is followed by the end of
input or by a line feed. -/
structure Seam where
  /-- How far the tokens of the piece move in the longer text. -/
  offset : Nat
  /-- The tokens after the piece in the longer text. -/
  more : List Token
  /-- The end of input after the piece read alone. -/
  endAlone : Token
  /-- The end of input of the longer text. -/
  endJoined : Token
  endAlone_kind : endAlone.kind = .eof
  endJoined_kind : endJoined.kind = .eof
  /-- After the piece comes the end of input or a line feed. -/
  next_kind : (more.headD endJoined).kind = .eof ∨ (more.headD endJoined).kind = .newLine

namespace Seam

variable (σ : Seam)

/-- The token after the piece in the longer text. -/
def next : Token := σ.more.headD σ.endJoined

/-- The cursor `c₁` of the reading of the piece alone stands on `us` before its end; the cursor
`c₂` of the reading of the longer text on the same tokens moved, before what follows the piece. -/
def Joins (c₁ c₂ : Cursor) : Prop :=
  ∃ us : List Token, (∀ t ∈ us, t.kind ≠ .eof) ∧ c₁ = Cursor.onto us σ.endAlone ∧
    c₂ = Cursor.onto (us.map (Token.shift σ.offset) ++ σ.more) σ.endJoined

/-- Two outcomes of reading that end alike: whenever the piece alone is read to a value, the
longer text is read to a related value, and the cursors after both are joined. -/
def Alike {α β : Type} (V : α → β → Prop) (r₁ : Except ParseError (α × Cursor))
    (r₂ : Except ParseError (β × Cursor)) : Prop :=
  ∀ a c₁, r₁ = .ok (a, c₁) → ∃ b c₂, r₂ = .ok (b, c₂) ∧ V a b ∧ σ.Joins c₁ c₂

variable {σ}

theorem next_kind_ne {K : TokenKind} (h₁ : K ≠ .eof) (h₂ : K ≠ .newLine) : σ.next.kind ≠ K := by
  rcases σ.next_kind with h | h <;> simp only [next, h] <;> exact Ne.symm ‹_›

/-! ### Joined cursors -/

/-- Joined cursors stand on a token of the piece and its moved copy, or both after the piece. -/
theorem Joins.cases {c₁ c₂ : Cursor} (h : σ.Joins c₁ c₂) :
    (∃ u us, u.kind ≠ .eof ∧ (∀ t ∈ us, t.kind ≠ .eof) ∧ c₁ = Cursor.onto (u :: us) σ.endAlone ∧
      c₂ = Cursor.onto (u.shift σ.offset :: (us.map (Token.shift σ.offset) ++ σ.more))
        σ.endJoined) ∨
    (c₁ = Cursor.onto [] σ.endAlone ∧ c₂ = Cursor.onto σ.more σ.endJoined) := by
  obtain ⟨us, hus, rfl, rfl⟩ := h
  cases us with
  | nil => exact .inr ⟨rfl, rfl⟩
  | cons u us =>
    exact .inl ⟨u, us, hus u (by simp), fun t ht => hus t (by simp [ht]), rfl, rfl⟩

theorem joins_end : σ.Joins (Cursor.onto [] σ.endAlone) (Cursor.onto σ.more σ.endJoined) :=
  ⟨[], nofun, rfl, rfl⟩

/-- Inside the piece, the longer text stands on the moved copy of the same token. -/
theorem Joins.current_of_ne {c₁ c₂ : Cursor} (h : σ.Joins c₁ c₂)
    (hc : c₁.current.kind ≠ .eof) : c₂.current = c₁.current.shift σ.offset := by
  rcases h.cases with ⟨u, us, -, -, rfl, rfl⟩ | ⟨rfl, -⟩
  · rfl
  · exact absurd σ.endAlone_kind hc

/-- Joined cursors see the same kind of token, except at the end of the piece, where the longer
text may see a line feed. -/
theorem Joins.kind_iff {c₁ c₂ : Cursor} (h : σ.Joins c₁ c₂) {K : TokenKind} (h₁ : K ≠ .eof)
    (h₂ : K ≠ .newLine) : c₁.current.kind = K ↔ c₂.current.kind = K := by
  rcases h.cases with ⟨u, us, -, -, rfl, rfl⟩ | ⟨rfl, rfl⟩
  · rfl
  · simp only [Cursor.onto_current, List.headD_nil, σ.endAlone_kind]
    exact ⟨fun h => absurd h.symm h₁, fun h => absurd h (next_kind_ne h₁ h₂)⟩

/-! ### Outcomes that end alike -/

theorem Alike.error {α β : Type} {V : α → β → Prop} {r₁ : Except ParseError (α × Cursor)}
    (h : ∀ a c, r₁ ≠ .ok (a, c)) (r₂ : Except ParseError (β × Cursor)) : σ.Alike V r₁ r₂ :=
  fun a c hr => absurd hr (h a c)

theorem Alike.ok {α β : Type} {V : α → β → Prop} {a : α} {b : β} {c₁ c₂ : Cursor} (hv : V a b)
    (h : σ.Joins c₁ c₂) : σ.Alike V (.ok (a, c₁)) (.ok (b, c₂)) := by
  intro a' c hr
  obtain ⟨rfl, rfl⟩ := Prod.mk.inj (Except.ok.inj hr)
  exact ⟨b, c₂, rfl, hv, h⟩

/-- Readings that end alike compose as the rules do. -/
theorem Alike.bind {α β γ δ : Type} {V : α → β → Prop} {W : γ → δ → Prop} {x : Parse α}
    {y : Parse β} {f : α → Parse γ} {g : β → Parse δ} {c₁ c₂ : Cursor}
    (hx : σ.Alike V (Parse.exec x c₁) (Parse.exec y c₂))
    (hf : ∀ a b c₁' c₂', V a b → σ.Joins c₁' c₂' →
      σ.Alike W (Parse.exec (f a) c₁') (Parse.exec (g b) c₂')) :
    σ.Alike W (Parse.exec (x >>= f) c₁) (Parse.exec (y >>= g) c₂) := by
  intro v c₁'' h
  rw [Parse.exec_bind] at h
  rcases hx₁ : Parse.exec x c₁ with e | ⟨a, c₁'⟩
  · rw [hx₁] at h
    cases h
  · rw [hx₁] at h
    obtain ⟨b, c₂', hy, hv, hj⟩ := hx a c₁' hx₁
    rw [Parse.exec_bind_ok hy]
    exact hf a b c₁' c₂' hv hj v c₁'' h

variable [NestingLimit]

/-- A test of the level passes or fails alike; the rest starts from the same cursors. -/
theorem Alike.reach_bind {α β : Type} {V : α → β → Prop} {n : Nat} {f : Unit → Parse α}
    {g : Unit → Parse β} {c₁ c₂ : Cursor}
    (h : n ≤ nestingLimit → σ.Alike V (Parse.exec (f ()) c₁) (Parse.exec (g ()) c₂)) :
    σ.Alike V (Parse.exec (Parse.reach n >>= f) c₁) (Parse.exec (Parse.reach n >>= g) c₂) := by
  by_cases hn : n ≤ nestingLimit
  · rw [Parse.exec_reach_bind hn, Parse.exec_reach_bind hn]
    exact h hn
  · refine Alike.error (fun a c hr => ?_) _
    rw [Parse.exec_bind, Parse.exec_reach, if_pos (by omega)] at hr
    cases hr

/-- A syntax error of the piece read alone leaves nothing to compare. -/
theorem Alike.failAt {α β : Type} {V : α → β → Prop} {d : Nat} {t : Token} {w : Expectation}
    {c₁ : Cursor} (r₂ : Except ParseError (β × Cursor)) :
    σ.Alike V (Parse.exec (Parse.failAt d t w : Parse α) c₁) r₂ := by
  refine Alike.error (fun a c hr => ?_) r₂
  simp only [Parse.failAt, Parse.exec_bind, Parse.exec_reach] at hr
  split at hr <;> cases hr

omit [NestingLimit] in
theorem Alike.throw {α β : Type} {V : α → β → Prop} {e : ParseError} {c₁ : Cursor}
    (r₂ : Except ParseError (β × Cursor)) :
    σ.Alike V (Parse.exec (throw e : Parse α) c₁) r₂ :=
  Alike.error (fun _ _ hr => by cases hr) r₂

/-! ### The steps of reading -/

/-- Moving from a token steps onto the next, or onto the end, reaching as deep as that token. -/
theorem exec_advance_onto (a : Nat) (t last : Token) (ts : List Token) :
    Parse.exec (Parse.advance a) (Cursor.onto (t :: ts) last) =
      if nestingLimit < a + (ts.headD last).readDepth then .error .tooDeep
      else .ok ((), Cursor.onto ts last) := by
  have hstep : Parse.exec (Parse.advance a) (Cursor.onto (t :: ts) last) =
      Parse.exec (Parse.reach (a + (ts.headD last).readDepth) >>= fun _ =>
        set (Cursor.onto ts last)) (Cursor.onto (t :: ts) last) := by
    cases ts <;> rfl
  rw [hstep, Parse.exec_bind, Parse.exec_reach]
  by_cases hn : nestingLimit < a + (ts.headD last).readDepth
  · simp only [if_pos hn]
  · simp only [if_neg hn, Parse.exec_set]

omit [NestingLimit] in
/-- The token after the next one reads as deep in both texts. -/
theorem readDepth_after (us : List Token) :
    ((us.map (Token.shift σ.offset) ++ σ.more).headD σ.endJoined).readDepth =
      (us.headD σ.endAlone).readDepth := by
  cases us with
  | nil =>
    simp only [List.map_nil, List.nil_append, List.headD_nil]
    rw [Token.readDepth_of_ends σ.next_kind, Token.readDepth_of_ends (.inl σ.endAlone_kind)]
  | cons v vs => rfl

/-- Moving on from a token of the piece, then going on. -/
theorem advance_onto_bind {α β : Type} {W : α → β → Prop} (a : Nat) {u : Token}
    {us : List Token} {f : Unit → Parse α} {g : Unit → Parse β}
    (h : a + (us.headD σ.endAlone).readDepth ≤ nestingLimit →
      σ.Alike W (Parse.exec (f ()) (Cursor.onto us σ.endAlone))
        (Parse.exec (g ()) (Cursor.onto (us.map (Token.shift σ.offset) ++ σ.more) σ.endJoined))) :
    σ.Alike W (Parse.exec (Parse.advance a >>= f) (Cursor.onto (u :: us) σ.endAlone))
      (Parse.exec (Parse.advance a >>= g)
        (Cursor.onto (u.shift σ.offset :: (us.map (Token.shift σ.offset) ++ σ.more))
          σ.endJoined)) := by
  rw [Parse.exec_bind, exec_advance_onto, Parse.exec_bind, exec_advance_onto, readDepth_after]
  by_cases hn : nestingLimit < a + (us.headD σ.endAlone).readDepth
  · simp only [if_pos hn]
    exact Alike.error (fun _ _ hr => by cases hr) _
  · simp only [if_neg hn]
    exact h (by omega)

/-- Moving on inside the piece moves on in the longer text, onto the moved copy of the next
token, or onto what follows the piece, which is read as deep as the end of input. -/
theorem Joins.advance {c₁ c₂ : Cursor} (h : σ.Joins c₁ c₂) (hc : c₁.current.kind ≠ .eof)
    (a : Nat) :
    σ.Alike (fun _ _ => True) (Parse.exec (Parse.advance a) c₁) (Parse.exec (Parse.advance a) c₂) := by
  rcases h.cases with ⟨u, us, -, hus, rfl, rfl⟩ | ⟨rfl, -⟩
  · rw [exec_advance_onto, exec_advance_onto, readDepth_after]
    split
    · exact Alike.error (fun _ _ hr => by cases hr) _
    · exact Alike.ok trivial ⟨us, hus, rfl, rfl⟩
  · exact absurd σ.endAlone_kind hc

theorem Joins.keyword {c₁ c₂ : Cursor} (h : σ.Joins c₁ c₂) (hc : c₁.current.kind ≠ .eof)
    (d : Nat) :
    σ.Alike (fun _ _ => True) (Parse.exec (Parse.keyword d) c₁) (Parse.exec (Parse.keyword d) c₂) :=
  Alike.reach_bind fun _ => h.advance hc _

/-- Taking a token of a kind other than the end takes the same token, moved. -/
theorem Joins.eat {c₁ c₂ : Cursor} (h : σ.Joins c₁ c₂) {K : TokenKind} (hK : K ≠ .eof) (d : Nat) :
    σ.Alike (fun t t' => t' = t.shift σ.offset) (Parse.exec (Parse.eat d K) c₁)
      (Parse.exec (Parse.eat d K) c₂) := by
  simp only [Parse.eat]
  refine Alike.reach_bind fun _ => ?_
  simp only [Parse.exec_current_bind]
  by_cases hk : c₁.current.kind = K
  · have hc : c₁.current.kind ≠ .eof := by rw [hk]; exact hK
    rw [if_pos hk, h.current_of_ne hc, if_pos (by simpa using hk)]
    exact (h.advance hc _).bind fun _ _ _ _ _ hj => Alike.ok rfl hj
  · rw [if_neg hk]
    exact Alike.failAt _

/-- Skipping tokens of kinds `ks`, then going on, runs alike, as long as the piece alone has the
fuel to reach its end: inside the piece both readings skip the same tokens. At its end the longer
text may go on skipping what follows the piece; the piece alone then goes on from its end, where
it must fail. -/
theorem Joins.skipFor_bind {α β : Type} {W : α → β → Prop} {ks : List TokenKind}
    (hks : TokenKind.eof ∉ ks) (d : Nat) {f : Unit → Parse α} {g : Unit → Parse β}
    (hf : ∀ c₁ c₂, σ.Joins c₁ c₂ → σ.Alike W (Parse.exec (f ()) c₁) (Parse.exec (g ()) c₂))
    (hend : σ.next.kind ∈ ks → Parse.Fails (f ()) (Cursor.onto [] σ.endAlone)) :
    ∀ (us : List Token) (fuel fuel' : Nat), us.length < fuel → fuel ≤ fuel' →
      (∀ t ∈ us, t.kind ≠ .eof) →
      σ.Alike W (Parse.exec (Parse.skipFor ks d fuel >>= f) (Cursor.onto us σ.endAlone))
        (Parse.exec (Parse.skipFor ks d fuel' >>= g)
          (Cursor.onto (us.map (Token.shift σ.offset) ++ σ.more) σ.endJoined))
  | [], fuel + 1, fuel' + 1, _, _, _ => by
    simp only [Parse.skipFor, bind_assoc, Parse.exec_current_bind, Cursor.onto_current,
      List.headD_nil, List.map_nil, List.nil_append]
    -- the piece alone stands at its end, which is never skipped
    have hA : ks.head? ≠ some σ.endAlone.kind := fun h =>
      hks (σ.endAlone_kind ▸ List.mem_of_mem_head? h)
    have hB : ks.contains σ.endAlone.kind = false := by simpa [σ.endAlone_kind] using hks
    rw [if_pos hA]
    simp only [hB, Bool.false_eq_true, if_false, bind_assoc, pure_bind]
    by_cases hn : σ.next.kind ∈ ks
    · refine Alike.error (fun a c hr => ?_) _
      by_cases hd : d + 1 ≤ nestingLimit
      · rw [Parse.exec_reach_bind hd] at hr
        exact hend hn a c hr
      · rw [Parse.exec_bind, Parse.exec_reach, if_pos (by omega)] at hr
        cases hr
    · have hn' : (σ.more.headD σ.endJoined).kind ∉ ks := hn
      have hA' : ks.head? ≠ some (σ.more.headD σ.endJoined).kind := fun h =>
        hn' (List.mem_of_mem_head? h)
      have hB' : ks.contains (σ.more.headD σ.endJoined).kind = false := by simpa using hn'
      rw [if_pos hA']
      simp only [hB', Bool.false_eq_true, if_false, bind_assoc, pure_bind]
      exact Alike.reach_bind fun _ => hf _ _ joins_end
  | u :: us, fuel + 1, fuel' + 1, hlen, hle, hus => by
    simp only [Parse.skipFor, bind_assoc, Parse.exec_current_bind, Cursor.onto_current,
      List.headD_cons, List.map_cons, List.cons_append, Token.kind_shift]
    have hround : σ.Alike W
        (Parse.exec ((if ks.contains u.kind = true then
            Parse.advance (d + 1) >>= fun _ => Parse.skipFor ks d fuel else pure ()) >>= f)
          (Cursor.onto (u :: us) σ.endAlone))
        (Parse.exec ((if ks.contains u.kind = true then
            Parse.advance (d + 1) >>= fun _ => Parse.skipFor ks d fuel' else pure ()) >>= g)
          (Cursor.onto (u.shift σ.offset :: (us.map (Token.shift σ.offset) ++ σ.more))
            σ.endJoined)) := by
      by_cases hB : ks.contains u.kind = true
      · rw [if_pos hB, if_pos hB]
        simp only [bind_assoc]
        exact advance_onto_bind _ fun _ =>
          Joins.skipFor_bind hks d hf hend us fuel fuel' (by simp at hlen; omega) (by omega)
            fun t ht => hus t (by simp [ht])
      · rw [if_neg hB, if_neg hB]
        simp only [pure_bind]
        exact hf _ _ ⟨u :: us, hus, rfl, rfl⟩
    by_cases hA : ks.head? ≠ some u.kind
    · rw [if_pos hA, if_pos hA]
      simp only [bind_assoc]
      exact Alike.reach_bind fun _ => hround
    · rw [if_neg hA, if_neg hA]
      exact hround
  | _, 0, _, hlen, _, _ => absurd hlen (Nat.not_lt_zero _)
  | [], _ + 1, 0, _, hle, _ => absurd hle (Nat.not_succ_le_zero _)
  | _ :: _, _ + 1, 0, _, hle, _ => absurd hle (Nat.not_succ_le_zero _)

/-- `skip`, then going on, runs alike: it has a round for each token left in the piece, and one
for its end. -/
theorem Joins.skip_bind {α β : Type} {W : α → β → Prop} {ks : List TokenKind}
    (hks : TokenKind.eof ∉ ks) (d : Nat) {f : Unit → Parse α} {g : Unit → Parse β}
    (hf : ∀ c₁ c₂, σ.Joins c₁ c₂ → σ.Alike W (Parse.exec (f ()) c₁) (Parse.exec (g ()) c₂))
    (hend : σ.next.kind ∈ ks → Parse.Fails (f ()) (Cursor.onto [] σ.endAlone))
    {c₁ c₂ : Cursor} (h : σ.Joins c₁ c₂) :
    σ.Alike W (Parse.exec (Parse.skip d ks >>= f) c₁) (Parse.exec (Parse.skip d ks >>= g) c₂) := by
  obtain ⟨us, hus, rfl, rfl⟩ := h
  simp only [Parse.skip, bind_assoc]
  refine Alike.reach_bind fun _ => ?_
  simp only [Parse.exec_get_bind, Cursor.onto_ahead]
  refine Joins.skipFor_bind hks d hf hend us _ _ ?_ ?_ hus
  · simp only [List.length_tail]
    omega
  · simp only [List.length_tail, List.length_append, List.length_map]
    omega

end Seam

end Scriptlet.Syntax
