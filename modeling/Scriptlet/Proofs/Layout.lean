import Scriptlet.Proofs.JoinedPrograms

/-!
# The layout of a token stream

Between two tokens a text may hold a run of separators: line feeds and `;`. The parser passes over
some of these runs. It passes over every run at the start and at the end of a block or of the
text, and over a run of line feeds after an opening parenthesis or a comma and before a closing
parenthesis or a comma. Every other run stands between two statements, where its length and its
mix of line feeds and `;` do not matter. The layout form of a token list (`Layout.form`) keeps
the tokens other than separators, with their offsets forgotten. It drops the runs that the parser
passes over and writes every other run as one line feed. Two token streams with the same form
are laid out alike (`TokenStream.SameLayout`).

This file sets up the comparison of the readings of two streams laid out alike. `Layout.Joined`
relates cursors whose remaining tokens have the same form. `Layout.Alike` relates the outcomes,
with one lemma for each step of the parser. The two readings need not reach the same depth: a
token read after a run that the parser passes over is read by a deeper rule than the same token
read with no run before it. So the second reading may be cut short at the nesting limit
(`Layout.Cut`).

## Main definitions

* `Layout.drops`: the runs of separators that the parser passes over.
* `Layout.form`: the layout form of a token list.
* `TokenStream.SameLayout`: two streams read to their end with the same layout form.
* `Layout.Joined`, `Layout.Aligned`, `Layout.Laid`: cursors on the two streams.
* `Layout.Alike`: outcomes of the two readings that end alike.
-/

set_option autoImplicit false

namespace Scriptlet.Syntax

/-- Whether a token separates statements: a line feed or `;`. -/
def Token.isSeparator (t : Token) : Bool := separators.contains t.kind

namespace Layout

/-! ## The layout form -/

/-- Whether a run that the parser passes over may follow a token of this kind: the start of the
text (`none`), an opening parenthesis or brace, or a comma. -/
def opens (before : Option TokenKind) : Bool :=
  before == none || before == some .openParen || before == some .comma ||
    before == some .openCurly

/-- Whether a run that the parser passes over may come before a token of this kind: a closing
parenthesis or brace, a comma, or the end of input. -/
def closes (after : TokenKind) : Bool :=
  after == .closeParen || after == .comma || after == .closeCurly || after == .eof

/-- Whether the parser passes over a run of separators between a token of kind `before` and one
of kind `after`; `lineFeeds` tells whether the run holds line feeds only. Every run at the start
or the end of a block or of the text is passed over. A run of line feeds only is also passed over
after an opening parenthesis or a comma and before a closing parenthesis or a comma. -/
def drops (before : Option TokenKind) (lineFeeds : Bool) (after : TokenKind) : Bool :=
  before == none || before == some .openCurly || after == .closeCurly || after == .eof ||
    lineFeeds && (before == some .openParen || before == some .comma || after == .closeParen ||
      after == .comma)

/-- The line feed that a run the parser does not pass over is written as. -/
def separator : Token := ⟨.newLine, "\n", 0, none⟩

/-- What a run of separators between a token of kind `before` and one of kind `after` leaves in
the layout form. `run` is `none` where there is no run, and `some lineFeeds` for a run, where
`lineFeeds` tells whether it holds line feeds only. No run, and a run that the parser passes
over, leave nothing; any other run leaves one separator. -/
def mark (before : Option TokenKind) (run : Option Bool) (after : TokenKind) : List Token :=
  match run with
  | none => []
  | some lineFeeds => if drops before lineFeeds after then [] else [separator]

/-- A run followed by one more separator `t`: it holds line feeds only if it did and `t` is one. -/
def extend (run : Option Bool) (t : Token) : Option Bool :=
  some (run.getD true && t.kind == .newLine)

/-- The layout form of the tokens that follow a token of kind `before` and a run `run` of
separators. -/
def formFrom (before : Option TokenKind) (run : Option Bool) : List Token → List Token
  | [] => mark before run .eof
  | t :: ts =>
    if t.isSeparator then formFrom before (extend run t) ts
    else mark before run t.kind ++ t.erase :: formFrom (some t.kind) none ts

/-- The layout form of the tokens of a text. -/
def form (ts : List Token) : List Token := formFrom none none ts

end Layout

/-- Two token streams are laid out alike when both are read to their end of input and their
tokens have the same layout form. -/
def TokenStream.SameLayout (s₁ s₂ : TokenStream) : Prop :=
  (∃ e₁, s₁.finish = .ok e₁) ∧ (∃ e₂, s₂.finish = .ok e₂) ∧
    Layout.form s₁.tokens = Layout.form s₂.tokens

namespace Layout

variable {b : Option TokenKind} {r : Option Bool} {t : Token} {ts : List Token}

theorem isSeparator_iff (t : Token) :
    t.isSeparator = true ↔ t.kind = .newLine ∨ t.kind = .semicolon := by
  simp [Token.isSeparator, separators]

theorem isSeparator_eq_false_iff (t : Token) :
    t.isSeparator = false ↔ t.kind ∉ separators := by
  simp [Token.isSeparator]

/-- A token that is no separator stops a skip of line feeds. -/
theorem not_lineFeed_of_isSeparator (h : t.isSeparator = false) :
    t.kind ∉ [TokenKind.newLine] := by
  have := (isSeparator_eq_false_iff t).1 h
  simp only [separators, List.mem_cons, not_or] at this
  simpa using this.1

/-- A run that the parser passes over follows a token that opens, or comes before one that
closes. -/
theorem opens_or_closes_of_drops {lineFeeds : Bool} {k : TokenKind}
    (h : drops b lineFeeds k = true) : opens b = true ∨ closes k = true := by
  simp only [drops, Bool.or_eq_true, Bool.and_eq_true, beq_iff_eq] at h
  rcases h with (((h | h) | h) | h) | ⟨-, ((h | h) | h) | h⟩ <;> simp [opens, closes, h]

theorem mark_cases (b : Option TokenKind) (r : Option Bool) (k : TokenKind) :
    mark b r k = [] ∨ mark b r k = [separator] := by
  unfold mark
  split
  · exact .inl rfl
  · split
    · exact .inl rfl
    · exact .inr rfl

@[simp] theorem mark_none (k : TokenKind) : mark b none k = [] := rfl

theorem mark_some (lineFeeds : Bool) (k : TokenKind) :
    mark b (some lineFeeds) k = [] ↔ drops b lineFeeds k = true := by
  unfold mark
  split <;> simp_all

theorem formFrom_separator (ht : t.isSeparator = true) :
    formFrom b r (t :: ts) = formFrom b (extend r t) ts := by
  simp only [formFrom, ht, if_true]

theorem formFrom_cons (ht : t.isSeparator = false) :
    formFrom b r (t :: ts) = mark b r t.kind ++ t.erase :: formFrom (some t.kind) none ts := by
  simp only [formFrom, ht, Bool.false_eq_true, if_false]

/-- A run of separators only changes the run the form has passed. -/
theorem formFrom_run {run : List Token} (hrun : ∀ u ∈ run, u.isSeparator = true)
    (rest : List Token) : formFrom b r (run ++ rest) = formFrom b (run.foldl extend r) rest := by
  induction run generalizing r with
  | nil => rfl
  | cons u run ih =>
    rw [List.cons_append, formFrom_separator (hrun u (by simp)),
      ih fun v hv => hrun v (by simp [hv])]
    rfl

/-- The run left by passing separators from no run: none for none of them, else a run. -/
theorem foldl_extend_none {run : List Token} (h : run ≠ []) :
    ∃ lineFeeds, run.foldl extend none = some lineFeeds := by
  obtain ⟨u, run, rfl⟩ := List.exists_cons_of_ne_nil h
  have hsome : ∀ (vs : List Token) (lf : Bool), ∃ lf', vs.foldl extend (some lf) = some lf' := by
    intro vs
    induction vs with
    | nil => exact fun lf => ⟨lf, rfl⟩
    | cons v vs ih => exact fun _ => ih _
  exact hsome run _

/-- A run of line feeds only leaves a run of line feeds only. -/
theorem foldl_extend_lineFeeds {run : List Token} (hrun : ∀ u ∈ run, u.kind = .newLine) :
    ∀ lf : Bool, run.foldl extend (some lf) = some lf := by
  induction run with
  | nil => exact fun _ => rfl
  | cons u run ih =>
    intro lf
    simp only [List.foldl_cons, extend, hrun u (by simp), Option.getD_some, beq_self_eq_true,
      Bool.and_true]
    exact ih (fun v hv => hrun v (by simp [hv])) lf

/-- A run with a `;` in it holds more than line feeds. -/
theorem foldl_extend_semicolon {run : List Token} {u : Token} (hu : u ∈ run)
    (hk : u.kind = .semicolon) (r : Option Bool) : run.foldl extend r = some false := by
  induction run generalizing r with
  | nil => cases hu
  | cons v run ih =>
    rw [List.foldl_cons]
    rcases List.mem_cons.1 hu with rfl | hu
    · have hend : ∀ (vs : List Token), vs.foldl extend (some false) = some false := by
        intro vs
        induction vs with
        | nil => rfl
        | cons w vs ihw => simpa only [List.foldl_cons, extend, Option.getD_some,
            Bool.false_and] using ihw
      have hne : (TokenKind.semicolon == TokenKind.newLine) = false := rfl
      simpa only [extend, hk, hne, Bool.and_false] using hend run
    · exact ih hu _

theorem erase_ne_separator (ht : t.isSeparator = false) : t.erase ≠ separator := by
  intro h
  have hk : t.kind = .newLine := Token.kind_eq_of_erase h
  rw [isSeparator_eq_false_iff, hk] at ht
  exact ht (by decide)

/-- A mark before a token other than the separator is told apart from another: the marks, the
tokens and what follows them agree. -/
theorem mark_append_cons_inj {b₁ b₂ : Option TokenKind} {r₁ r₂ : Option Bool}
    {k₁ k₂ : TokenKind} {x₁ x₂ : Token} {F₁ F₂ : List Token} (hx₁ : x₁ ≠ separator)
    (hx₂ : x₂ ≠ separator) (h : mark b₁ r₁ k₁ ++ x₁ :: F₁ = mark b₂ r₂ k₂ ++ x₂ :: F₂) :
    mark b₁ r₁ k₁ = mark b₂ r₂ k₂ ∧ x₁ = x₂ ∧ F₁ = F₂ := by
  rcases mark_cases b₁ r₁ k₁ with h₁ | h₁ <;> rcases mark_cases b₂ r₂ k₂ with h₂ | h₂ <;>
    rw [h₁, h₂] at h ⊢ <;> simp_all

/-- A mark before a token other than the separator is longer than a mark alone. -/
theorem mark_append_cons_ne {b₁ b₂ : Option TokenKind} {r₁ r₂ : Option Bool}
    {k₁ k₂ : TokenKind} {x : Token} {F : List Token} (hx : x ≠ separator) :
    mark b₁ r₁ k₁ ++ x :: F ≠ mark b₂ r₂ k₂ := by
  rcases mark_cases b₁ r₁ k₁ with h₁ | h₁ <;> rcases mark_cases b₂ r₂ k₂ with h₂ | h₂ <;>
    rw [h₁, h₂] <;> simp_all

/-- Two forms that agree after runs, where no separator comes next, agree token by token: both
lists end with the same mark, or both go on with the same token after the same mark, and agree
after it. -/
theorem formFrom_heads {r₁ r₂ : Option Bool} {rest₁ rest₂ : List Token}
    (h₁ : ∀ u ∈ rest₁.head?, u.isSeparator = false) (h₂ : ∀ u ∈ rest₂.head?, u.isSeparator = false)
    (h : formFrom b r₁ rest₁ = formFrom b r₂ rest₂) :
    (rest₁ = [] ∧ rest₂ = [] ∧ mark b r₁ .eof = mark b r₂ .eof) ∨
      ∃ t₁ w₁ t₂ w₂, rest₁ = t₁ :: w₁ ∧ rest₂ = t₂ :: w₂ ∧ t₁.erase = t₂.erase ∧
        mark b r₁ t₁.kind = mark b r₂ t₁.kind ∧
        formFrom (some t₁.kind) none w₁ = formFrom (some t₁.kind) none w₂ := by
  match rest₁, rest₂ with
  | [], [] => exact .inl ⟨rfl, rfl, h⟩
  | t₁ :: w₁, [] =>
    rw [formFrom_cons (h₁ t₁ rfl)] at h
    exact absurd h (mark_append_cons_ne (erase_ne_separator (h₁ t₁ rfl)))
  | [], t₂ :: w₂ =>
    rw [formFrom_cons (h₂ t₂ rfl)] at h
    exact absurd h.symm (mark_append_cons_ne (erase_ne_separator (h₂ t₂ rfl)))
  | t₁ :: w₁, t₂ :: w₂ =>
    rw [formFrom_cons (h₁ t₁ rfl), formFrom_cons (h₂ t₂ rfl)] at h
    obtain ⟨hm, he, hf⟩ := mark_append_cons_inj (erase_ne_separator (h₁ t₁ rfl))
      (erase_ne_separator (h₂ t₂ rfl)) h
    have hk : t₁.kind = t₂.kind := by
      have hk := congrArg Token.kind he
      exact hk
    rw [← hk] at hm hf
    exact .inr ⟨t₁, w₁, t₂, w₂, rfl, rfl, he, hm, hf⟩

/-- Every token list is a run of separators followed by tokens that start with no separator. -/
theorem exists_separators (us : List Token) :
    ∃ run rest, us = run ++ rest ∧ (∀ u ∈ run, u.isSeparator = true) ∧
      ∀ u ∈ rest.head?, u.isSeparator = false := by
  obtain ⟨run, rest, rfl, hrun, hrest⟩ := Parse.exists_run separators us
  refine ⟨run, rest, rfl, fun u hu => ?_, fun u hu => (isSeparator_eq_false_iff u).2 (hrest u hu)⟩
  simpa [Token.isSeparator] using hrun u hu

/-- A form after runs, where no separator comes next, is the form with no run before. -/
theorem formFrom_rest {r₁ r₂ : Option Bool} {rest₁ rest₂ : List Token}
    (h₁ : ∀ u ∈ rest₁.head?, u.isSeparator = false) (h₂ : ∀ u ∈ rest₂.head?, u.isSeparator = false)
    (h : formFrom b r₁ rest₁ = formFrom b r₂ rest₂) :
    formFrom b none rest₁ = formFrom b none rest₂ := by
  rcases formFrom_heads h₁ h₂ h with ⟨rfl, rfl, -⟩ | ⟨t₁, w₁, t₂, w₂, rfl, rfl, he, -, hf⟩
  · rfl
  · have hk : t₁.kind = t₂.kind := by
      have hk := congrArg Token.kind he
      exact hk
    rw [formFrom_cons (h₁ t₁ rfl), formFrom_cons (h₂ t₂ rfl), ← hk, he, hf]

/-! ## Cursors on two streams laid out alike -/

/-- A cursor on the tokens `us`, none of them the end of input, before an end of input. -/
def On (c : Cursor) (us : List Token) : Prop :=
  (∀ t ∈ us, t.kind ≠ .eof) ∧ ∃ e : Token, e.kind = .eof ∧ c = Cursor.onto us e

/-- Cursors whose remaining tokens have the same layout form after a token of kind `before`. -/
def Joined (before : Option TokenKind) (c₁ c₂ : Cursor) : Prop :=
  ∃ us₁ us₂, On c₁ us₁ ∧ On c₂ us₂ ∧ formFrom before none us₁ = formFrom before none us₂

/-- Cursors that both stand on a token other than a separator. -/
def Aligned (c₁ c₂ : Cursor) : Prop :=
  c₁.current.isSeparator = false ∧ c₂.current.isSeparator = false

/-- Joined cursors, both on a token other than a separator. -/
def Matched (c₁ c₂ : Cursor) : Prop :=
  ∃ before, Joined before c₁ c₂ ∧ Aligned c₁ c₂

/-- Cursors where the rules of the parser start and stop: joined after a token, and past the run
after it if that token may open a run that the parser passes over. -/
def Laid (c₁ c₂ : Cursor) : Prop :=
  ∃ before, Joined before c₁ c₂ ∧ (opens before = true → Aligned c₁ c₂)

variable {c c₁ c₂ : Cursor} {us : List Token}

theorem On.current_cons {w : List Token} (h : On c (t :: w)) : c.current = t := by
  obtain ⟨-, e, -, rfl⟩ := h
  rfl

theorem On.current_nil (h : On c []) : c.current.kind = .eof := by
  obtain ⟨-, e, he, rfl⟩ := h
  exact he

/-- The end of input is no separator. -/
theorem isSeparator_of_eof (h : t.kind = .eof) : t.isSeparator = false := by
  rw [isSeparator_eq_false_iff, h]
  decide

/-- A cursor on a token other than a separator stands past every run. -/
theorem On.run_eq_nil {run rest : List Token} (h : On c (run ++ rest))
    (hrun : ∀ u ∈ run, u.isSeparator = true) (hs : c.current.isSeparator = false) : run = [] := by
  cases run with
  | nil => rfl
  | cons u run =>
    rw [List.cons_append] at h
    rw [h.current_cons, hrun u (by simp)] at hs
    cases hs

/-- A cursor past every run stands on the next token, or on the end of input. -/
theorem On.isSeparator {rest : List Token} (h : On c rest)
    (hrest : ∀ u ∈ rest.head?, u.isSeparator = false) : c.current.isSeparator = false := by
  cases rest with
  | nil => exact isSeparator_of_eof h.current_nil
  | cons u w => rw [h.current_cons]; exact hrest u rfl

theorem Joined.symm {before : Option TokenKind} (h : Joined before c₁ c₂) :
    Joined before c₂ c₁ := by
  obtain ⟨us₁, us₂, h₁, h₂, hf⟩ := h
  exact ⟨us₂, us₁, h₂, h₁, hf.symm⟩

theorem Aligned.symm (h : Aligned c₁ c₂) : Aligned c₂ c₁ := ⟨h.2, h.1⟩

theorem Laid.symm (h : Laid c₁ c₂) : Laid c₂ c₁ := by
  obtain ⟨before, hj, ha⟩ := h
  exact ⟨before, hj.symm, fun hb => (ha hb).symm⟩

theorem Matched.laid (h : Matched c₁ c₂) : Laid c₁ c₂ := by
  obtain ⟨before, hj, ha⟩ := h
  exact ⟨before, hj, fun _ => ha⟩

/-- Joined cursors each stand on a run of separators, followed by tokens that start with no
separator, and the forms after the two runs agree. -/
theorem Joined.split {before : Option TokenKind} (h : Joined before c₁ c₂) :
    ∃ run₁ rest₁ run₂ rest₂, On c₁ (run₁ ++ rest₁) ∧ On c₂ (run₂ ++ rest₂) ∧
      (∀ u ∈ run₁, u.isSeparator = true) ∧ (∀ u ∈ rest₁.head?, u.isSeparator = false) ∧
      (∀ u ∈ run₂, u.isSeparator = true) ∧ (∀ u ∈ rest₂.head?, u.isSeparator = false) ∧
      formFrom before (run₁.foldl extend none) rest₁ =
        formFrom before (run₂.foldl extend none) rest₂ := by
  obtain ⟨us₁, us₂, h₁, h₂, hf⟩ := h
  obtain ⟨run₁, rest₁, rfl, hr₁, hh₁⟩ := exists_separators us₁
  obtain ⟨run₂, rest₂, rfl, hr₂, hh₂⟩ := exists_separators us₂
  rw [formFrom_run hr₁, formFrom_run hr₂] at hf
  exact ⟨run₁, rest₁, run₂, rest₂, h₁, h₂, hr₁, hh₁, hr₂, hh₂, hf⟩

/-- Matched cursors both stand at the end of input, or on the same token up to its offset, with
the same form after it. -/
theorem Joined.aligned_cases {before : Option TokenKind} (h : Joined before c₁ c₂)
    (ha : Aligned c₁ c₂) :
    (On c₁ [] ∧ On c₂ []) ∨
      ∃ t₁ w₁ t₂ w₂, On c₁ (t₁ :: w₁) ∧ On c₂ (t₂ :: w₂) ∧ t₁.erase = t₂.erase ∧
        formFrom (some t₁.kind) none w₁ = formFrom (some t₁.kind) none w₂ := by
  obtain ⟨run₁, rest₁, run₂, rest₂, h₁, h₂, hr₁, hh₁, hr₂, hh₂, hf⟩ := h.split
  obtain rfl := h₁.run_eq_nil hr₁ ha.1
  obtain rfl := h₂.run_eq_nil hr₂ ha.2
  rcases formFrom_heads hh₁ hh₂ hf with ⟨rfl, rfl, -⟩ | ⟨t₁, w₁, t₂, w₂, rfl, rfl, he, -, hf'⟩
  · exact .inl ⟨h₁, h₂⟩
  · exact .inr ⟨t₁, w₁, t₂, w₂, h₁, h₂, he, hf'⟩

theorem Matched.kind_eq (h : Matched c₁ c₂) : c₁.current.kind = c₂.current.kind := by
  obtain ⟨before, hj, ha⟩ := h
  rcases hj.aligned_cases ha with ⟨h₁, h₂⟩ | ⟨t₁, w₁, t₂, w₂, h₁, h₂, he, -⟩
  · rw [h₁.current_nil, h₂.current_nil]
  · rw [h₁.current_cons, h₂.current_cons]
    have hk := congrArg Token.kind he
    exact hk

theorem Matched.erase_eq (h : Matched c₁ c₂) (hc : c₁.current.kind ≠ .eof) :
    c₁.current.erase = c₂.current.erase := by
  obtain ⟨before, hj, ha⟩ := h
  rcases hj.aligned_cases ha with ⟨h₁, -⟩ | ⟨t₁, w₁, t₂, w₂, h₁, h₂, he, -⟩
  · exact absurd h₁.current_nil hc
  · rw [h₁.current_cons, h₂.current_cons, he]

/-- Where a rule starts or stops, a token other than a separator that no run the parser passes
over may come before stands under both cursors. -/
theorem Laid.aligned (h : Laid c₁ c₂) (hs : c₁.current.isSeparator = false)
    (hk : closes c₁.current.kind = false) : Aligned c₁ c₂ := by
  obtain ⟨before, hj, hop⟩ := h
  cases hb : opens before
  · refine ⟨hs, ?_⟩
    obtain ⟨run₁, rest₁, run₂, rest₂, h₁, h₂, hr₁, hh₁, hr₂, hh₂, hf⟩ := hj.split
    obtain rfl := h₁.run_eq_nil hr₁ hs
    rcases formFrom_heads hh₁ hh₂ hf with ⟨rfl, -, -⟩ | ⟨t₁, w₁, t₂, w₂, rfl, rfl, -, hm, -⟩
    · rw [h₁.current_nil] at hk
      cases hk
    · rw [List.nil_append] at h₁
      rw [h₁.current_cons] at hk
      -- a run before the token in the second stream would be one that the parser passes over
      by_cases hne : run₂ = []
      · subst hne
        rw [List.nil_append] at h₂
        exact h₂.isSeparator hh₂
      · obtain ⟨lf, hlf⟩ := foldl_extend_none hne
        rw [hlf, List.foldl_nil, mark_none, eq_comm, mark_some] at hm
        rcases opens_or_closes_of_drops hm with ho | hc
        · rw [hb] at ho
          cases ho
        · rw [hk] at hc
          cases hc
  · exact hop hb

/-- Where a rule starts or stops, both cursors see a token of a kind that no run the parser
passes over may come before, or neither does. -/
theorem Laid.kind_iff (h : Laid c₁ c₂) {K : TokenKind} (hs : K ∉ separators)
    (hK : closes K = false) : c₁.current.kind = K ↔ c₂.current.kind = K := by
  have hsep : ∀ {u : Token}, u.kind = K → u.isSeparator = false := fun hu => by
    rw [isSeparator_eq_false_iff, hu]
    exact hs
  constructor
  · intro hk
    have ha := h.aligned (hsep hk) (hk ▸ hK)
    obtain ⟨before, hj, -⟩ := h
    rw [← Matched.kind_eq ⟨before, hj, ha⟩]
    exact hk
  · intro hk
    have ha := h.symm.aligned (hsep hk) (hk ▸ hK)
    obtain ⟨before, hj, -⟩ := h
    rw [Matched.kind_eq ⟨before, hj, ha.symm⟩]
    exact hk

/-- An operator binds neither at a separator nor where a run the parser passes over may end. -/
theorem precedence_pos {k : TokenKind} (h : 0 < k.precedence) :
    k ∉ separators ∧ closes k = false := by
  cases k <;> simp_all [TokenKind.precedence, separators, closes]

/-- Where a rule starts or stops, both cursors see operators that bind alike. -/
theorem Laid.precedence_eq (h : Laid c₁ c₂) :
    c₁.current.kind.precedence = c₂.current.kind.precedence := by
  have hmatch : ∀ {c c' : Cursor}, Laid c c' → 0 < c.current.kind.precedence →
      c.current.kind = c'.current.kind := fun {c c'} h hp => by
    obtain ⟨hs, hk⟩ := precedence_pos hp
    have ha := h.aligned ((isSeparator_eq_false_iff _).2 hs) hk
    obtain ⟨before, hj, -⟩ := h
    exact Matched.kind_eq ⟨before, hj, ha⟩
  by_cases h₁ : 0 < c₁.current.kind.precedence
  · rw [hmatch h h₁]
  by_cases h₂ : 0 < c₂.current.kind.precedence
  · rw [hmatch h.symm h₂]
  omega

/-- Where a rule starts or stops, both cursors see the same keyword, or neither sees it. -/
theorem Laid.isWord_eq (h : Laid c₁ c₂) (w : String) :
    c₁.current.isWord w = c₂.current.isWord w := by
  have hmatch : ∀ {c c' : Cursor}, Laid c c' → c.current.isWord w = true →
      c.current.isWord w = c'.current.isWord w := fun {c c'} h hw => by
    have hk : c.current.kind = .identifier := by
      simp only [Token.isWord, Bool.and_eq_true, beq_iff_eq] at hw
      exact hw.1
    have ha := h.aligned (by rw [isSeparator_eq_false_iff, hk]; decide) (by rw [hk]; rfl)
    obtain ⟨before, hj, -⟩ := h
    have he := Matched.erase_eq ⟨before, hj, ha⟩ (by rw [hk]; decide)
    show c.current.erase.isWord w = c'.current.erase.isWord w
    rw [he]
  cases h₁ : c₁.current.isWord w
  · cases h₂ : c₂.current.isWord w
    · rfl
    · rw [← h₁, ← h₂, hmatch h.symm h₂]
  · rw [← h₁, hmatch h h₁]

/-! ## Outcomes that end alike -/

/-- A reading cut short: at the nesting limit, or for want of fuel. -/
def Cut {β : Type} (r : Except ParseError (β × Cursor)) : Prop :=
  r = .error .tooDeep ∨ r = .error .exhausted

/-- Two outcomes of reading that end alike: whenever the first reading gives a value, the second
is cut short or gives a value related by `V`, and the cursors after both are related by `R`. -/
def Alike {α β : Type} (R : Cursor → Cursor → Prop) (V : α → β → Prop)
    (r₁ : Except ParseError (α × Cursor)) (r₂ : Except ParseError (β × Cursor)) : Prop :=
  ∀ a c₁, r₁ = .ok (a, c₁) → Cut r₂ ∨ ∃ b c₂, r₂ = .ok (b, c₂) ∧ V a b ∧ R c₁ c₂

namespace Alike

variable {α β γ δ : Type} {R S : Cursor → Cursor → Prop} {V : α → β → Prop} {W : γ → δ → Prop}
  {r₁ r₁' : Except ParseError (α × Cursor)} {r₂ r₂' : Except ParseError (β × Cursor)}

theorem error (h : ∀ a c, r₁ ≠ .ok (a, c)) (r₂ : Except ParseError (β × Cursor)) :
    Alike R V r₁ r₂ :=
  fun a c hr => absurd hr (h a c)

theorem cut (r₁ : Except ParseError (α × Cursor)) (h : Cut r₂) : Alike R V r₁ r₂ :=
  fun _ _ _ => .inl h

theorem ok {a : α} {b : β} (hv : V a b) (h : R c₁ c₂) : Alike R V (.ok (a, c₁)) (.ok (b, c₂)) := by
  intro a' c hr
  obtain ⟨rfl, rfl⟩ := Prod.mk.inj (Except.ok.inj hr)
  exact .inr ⟨b, c₂, rfl, hv, h⟩

/-- A first reading that may stop at an error before going on as `r₁'`. -/
theorem of_error_or (h : (∃ e, r₁ = .error e) ∨ r₁ = r₁') (h' : Alike R V r₁' r₂) :
    Alike R V r₁ r₂ := by
  rcases h with ⟨e, rfl⟩ | rfl
  · exact error (fun _ _ hr => by cases hr) r₂
  · exact h'

/-- A second reading that may stop at the nesting limit before going on as `r₂'`. -/
theorem of_tooDeep_or (h : r₂ = .error .tooDeep ∨ r₂ = r₂') (h' : Alike R V r₁ r₂') :
    Alike R V r₁ r₂ := by
  rcases h with rfl | rfl
  · exact cut r₁ (.inl rfl)
  · exact h'

/-- A first reading that may stop at the nesting limit before going on as `r₁'`. -/
theorem of_tooDeep_or_left (h : r₁ = .error .tooDeep ∨ r₁ = r₁') (h' : Alike R V r₁' r₂) :
    Alike R V r₁ r₂ :=
  of_error_or (h.imp (fun h => ⟨_, h⟩) id) h'

/-- Readings that end alike compose as the rules do. -/
theorem bind {x : Parse α} {y : Parse β} {f : α → Parse γ} {g : β → Parse δ}
    (hx : Alike R V (Parse.exec x c₁) (Parse.exec y c₂))
    (hf : ∀ a b c₁' c₂', V a b → R c₁' c₂' →
      Alike S W (Parse.exec (f a) c₁') (Parse.exec (g b) c₂')) :
    Alike S W (Parse.exec (x >>= f) c₁) (Parse.exec (y >>= g) c₂) := by
  intro v c₁'' h
  rw [Parse.exec_bind] at h
  rcases hx₁ : Parse.exec x c₁ with e | ⟨a, c₁'⟩
  · rw [hx₁] at h
    cases h
  · rw [hx₁] at h
    rcases hx a c₁' hx₁ with hcut | ⟨b, c₂', hy, hv, hj⟩
    · -- a second reading cut short stays so
      left
      rw [Parse.exec_bind]
      rcases hcut with hy | hy <;> rw [hy] <;> simp [Cut]
    · rw [Parse.exec_bind_ok hy]
      exact hf a b c₁' c₂' hv hj v c₁'' h

section

variable [NestingLimit]

theorem exec_reach_bind_cases (n : Nat) (f : Unit → Parse α) (c : Cursor) :
    (∃ e, Parse.exec (Parse.reach n >>= f) c = .error e) ∨
      Parse.exec (Parse.reach n >>= f) c = Parse.exec (f ()) c := by
  by_cases hn : n ≤ nestingLimit
  · exact .inr (Parse.exec_reach_bind hn f c)
  · rw [Parse.exec_bind, Parse.exec_reach, if_pos (by omega)]
    exact .inl ⟨_, rfl⟩

/-- A test of the level in the first reading: past the limit it ends that reading. -/
theorem reach_left {n : Nat} {f : Unit → Parse α} (h : Alike R V (Parse.exec (f ()) c₁) r₂) :
    Alike R V (Parse.exec (Parse.reach n >>= f) c₁) r₂ :=
  of_error_or (exec_reach_bind_cases n f c₁) h

/-- A test of the level in the second reading: past the limit it cuts that reading short. -/
theorem reach_right {n : Nat} {g : Unit → Parse β} (h : Alike R V r₁ (Parse.exec (g ()) c₂)) :
    Alike R V r₁ (Parse.exec (Parse.reach n >>= g) c₂) := by
  refine of_tooDeep_or ?_ h
  by_cases hn : n ≤ nestingLimit
  · exact .inr (Parse.exec_reach_bind hn g c₂)
  · rw [Parse.exec_bind, Parse.exec_reach, if_pos (by omega)]
    exact .inl rfl

/-- Tests of the level in both readings, of levels that may differ. -/
theorem reach_bind {n₁ n₂ : Nat} {f : Unit → Parse α} {g : Unit → Parse β}
    (h : Alike R V (Parse.exec (f ()) c₁) (Parse.exec (g ()) c₂)) :
    Alike R V (Parse.exec (Parse.reach n₁ >>= f) c₁) (Parse.exec (Parse.reach n₂ >>= g) c₂) :=
  reach_left (reach_right h)
end

/-- Both readings take the same branch of a choice. -/
theorem cond {p q : Prop} [Decidable p] [Decidable q] {x y : Parse α} {x' y' : Parse β}
    (hpq : p ↔ q) (ht : p → Alike R V (Parse.exec x c₁) (Parse.exec x' c₂))
    (he : ¬p → Alike R V (Parse.exec y c₁) (Parse.exec y' c₂)) :
    Alike R V (Parse.exec (if p then x else y) c₁) (Parse.exec (if q then x' else y') c₂) := by
  by_cases h : p
  · rw [if_pos h, if_pos (hpq.1 h)]
    exact ht h
  · rw [if_neg h, if_neg (mt hpq.2 h)]
    exact he h

variable [NestingLimit] in
/-- A syntax error of the first reading leaves nothing to compare. -/
theorem failAt {d : Nat} {t : Token} {w : Expectation} (r₂ : Except ParseError (β × Cursor)) :
    Alike R V (Parse.exec (Parse.failAt d t w : Parse α) c₁) r₂ :=
  error (fun _ _ => Parse.failAt_ne_ok) r₂

theorem throw {e : ParseError} (r₂ : Except ParseError (β × Cursor)) :
    Alike R V (Parse.exec (MonadExcept.throw e : Parse α) c₁) r₂ :=
  error (fun _ _ hr => by cases hr) r₂

theorem fails {x : Parse α} (h : Parse.Fails x c₁) (r₂ : Except ParseError (β × Cursor)) :
    Alike R V (Parse.exec x c₁) r₂ :=
  error h r₂

/-- The second reading out of fuel is cut short. -/
theorem exhausted (r₁ : Except ParseError (α × Cursor)) :
    Alike R V r₁ (Parse.exec (MonadExcept.throw .exhausted : Parse β) c₂) :=
  cut r₁ (.inr rfl)

end Alike

/-! ## The steps of reading -/

theorem isSeparator_eq_true_iff (t : Token) : t.isSeparator = true ↔ t.kind ∈ separators := by
  simp [Token.isSeparator]

/-- `r` is `r'`, or stops at the nesting limit before. -/
theorem tooDeep_or_trans {γ : Type} {r r' r'' : Except ParseError γ}
    (h : r = .error .tooDeep ∨ r = r') (h' : r' = .error .tooDeep ∨ r' = r'') :
    r = .error .tooDeep ∨ r = r'' := by
  rcases h with h | rfl
  · exact .inl h
  · exact h'

variable {α β γ δ : Type} {R : Cursor → Cursor → Prop} {W : γ → δ → Prop}

section

variable [NestingLimit]

theorem exec_reach_bind_cases (n : Nat) (f : Unit → Parse α) (c : Cursor) :
    Parse.exec (Parse.reach n >>= f) c = .error .tooDeep ∨
      Parse.exec (Parse.reach n >>= f) c = Parse.exec (f ()) c := by
  by_cases hn : nestingLimit < n
  · left
    rw [Parse.exec_bind, Parse.exec_reach, if_pos hn]
  · exact .inr (Parse.exec_reach_bind (by omega) f c)

/-- A test of the level that only some tokens make, then going on. -/
theorem exec_ite_reach_bind_cases (p : Prop) [Decidable p] (n : Nat) (x : Parse α)
    (f : α → Parse β) (c : Cursor) :
    Parse.exec ((if p then Parse.reach n >>= (fun _ => x) else x) >>= f) c = .error .tooDeep ∨
      Parse.exec ((if p then Parse.reach n >>= (fun _ => x) else x) >>= f) c =
        Parse.exec (x >>= f) c := by
  by_cases hp : p
  · rw [if_pos hp, bind_assoc]
    exact exec_reach_bind_cases n _ c
  · rw [if_neg hp]
    exact .inr rfl

/-- Moving from a token steps onto the next, unless the nesting limit is passed first. -/
theorem exec_advance_bind_cases (a : Nat) (u e : Token) (us : List Token) (f : Unit → Parse α) :
    Parse.exec (Parse.advance a >>= f) (Cursor.onto (u :: us) e) = .error .tooDeep ∨
      Parse.exec (Parse.advance a >>= f) (Cursor.onto (u :: us) e) =
        Parse.exec (f ()) (Cursor.onto us e) := by
  rw [Parse.exec_bind, Seam.exec_advance_onto]
  by_cases hn : nestingLimit < a + (us.headD e).readDepth
  · left
    rw [if_pos hn]
  · right
    rw [if_neg hn]

/-- Skipping tokens of kinds `ks`, given a round for each, moves past a run of them, unless the
nesting limit is passed first. -/
theorem exec_skipFor_bind_cases {ks : List TokenKind} {rest : List Token} {e : Token}
    (hrest : (rest.headD e).kind ∉ ks) (d : Nat) (f : Unit → Parse α) :
    ∀ (run : List Token) (fuel : Nat), run.length < fuel → (∀ u ∈ run, u.kind ∈ ks) →
      Parse.exec (Parse.skipFor ks d fuel >>= f) (Cursor.onto (run ++ rest) e) = .error .tooDeep ∨
        Parse.exec (Parse.skipFor ks d fuel >>= f) (Cursor.onto (run ++ rest) e) =
          Parse.exec (f ()) (Cursor.onto rest e)
  | [], fuel + 1, _, _ => by
    have hB : ks.contains (rest.headD e).kind = false := by simpa using hrest
    simp only [Parse.skipFor, bind_assoc, Parse.exec_current_bind, List.nil_append,
      Cursor.onto_current]
    refine tooDeep_or_trans (exec_ite_reach_bind_cases _ _ _ _ _) (.inr ?_)
    simp only [hB, Bool.false_eq_true, if_false, pure_bind]
  | u :: run, fuel + 1, hlen, hrun => by
    have hB : ks.contains u.kind = true := by simpa using hrun u (by simp)
    simp only [Parse.skipFor, bind_assoc, Parse.exec_current_bind, List.cons_append,
      Cursor.onto_current, List.headD_cons]
    refine tooDeep_or_trans (exec_ite_reach_bind_cases _ _ _ _ _) ?_
    simp only [hB, if_true, bind_assoc]
    refine tooDeep_or_trans (exec_advance_bind_cases _ _ _ _ _) ?_
    exact exec_skipFor_bind_cases hrest d f run fuel (by simp at hlen; omega)
      fun v hv => hrun v (by simp [hv])
  | _, 0, hlen, _ => absurd hlen (Nat.not_lt_zero _)

/-- Skipping tokens of kinds `ks` moves past a run of them, unless the nesting limit is passed
first. -/
theorem exec_skip_bind_cases {ks : List TokenKind} (hks : TokenKind.eof ∉ ks)
    {run rest : List Token} {e : Token} (he : e.kind = .eof) (hrun : ∀ u ∈ run, u.kind ∈ ks)
    (hrest : ∀ u ∈ rest.head?, u.kind ∉ ks) (d : Nat) (f : Unit → Parse α) :
    Parse.exec (Parse.skip d ks >>= f) (Cursor.onto (run ++ rest) e) = .error .tooDeep ∨
      Parse.exec (Parse.skip d ks >>= f) (Cursor.onto (run ++ rest) e) =
        Parse.exec (f ()) (Cursor.onto rest e) := by
  simp only [Parse.skip, bind_assoc]
  refine tooDeep_or_trans (exec_reach_bind_cases d _ _) ?_
  simp only [Parse.exec_get_bind, Cursor.onto_ahead]
  refine exec_skipFor_bind_cases (Parse.headD_not_mem hrest (he ▸ hks)) d f run _ ?_ hrun
  simp only [List.length_tail, List.length_append]
  omega

/-- Skipping tokens of kinds `ks` from a cursor on a run of them moves past the run, unless the
nesting limit is passed first. -/
theorem On.skip_bind {ks : List TokenKind} (hks : TokenKind.eof ∉ ks) {c : Cursor}
    {run rest : List Token} (hc : On c (run ++ rest)) (hrun : ∀ u ∈ run, u.kind ∈ ks)
    (hrest : ∀ u ∈ rest.head?, u.kind ∉ ks) (d : Nat) (f : Unit → Parse α) :
    ∃ c', On c' rest ∧ (Parse.exec (Parse.skip d ks >>= f) c = .error .tooDeep ∨
      Parse.exec (Parse.skip d ks >>= f) c = Parse.exec (f ()) c') := by
  obtain ⟨hne, e, he, rfl⟩ := hc
  exact ⟨Cursor.onto rest e, ⟨fun t ht => hne t (by simp [ht]), e, he, rfl⟩,
    exec_skip_bind_cases hks he hrun hrest d f⟩

/-- Skipping changes nothing on a token of a kind not skipped. -/
theorem On.skip_bind_stop {ks : List TokenKind} (hks : TokenKind.eof ∉ ks) {c : Cursor}
    (hc : On c us) (hs : c.current.kind ∉ ks) (d : Nat) (f : Unit → Parse α) :
    Parse.exec (Parse.skip d ks >>= f) c = .error .tooDeep ∨
      Parse.exec (Parse.skip d ks >>= f) c = Parse.exec (f ()) c := by
  have hhead : ∀ u ∈ us.head?, u.kind ∉ ks := fun u hu => by
    cases us with
    | nil => cases hu
    | cons v w =>
      cases hu
      rw [hc.current_cons] at hs
      exact hs
  obtain ⟨-, e, he, rfl⟩ := hc
  have hnil : ∀ u ∈ ([] : List Token), u.kind ∈ ks := nofun
  exact exec_skip_bind_cases hks he hnil hhead d f

/-- Moving on from matched cursors moves both past the same token. -/
theorem Joined.advance {before : Option TokenKind} (h : Joined before c₁ c₂) (ha : Aligned c₁ c₂)
    (hc : c₁.current.kind ≠ .eof) (a : Nat) :
    Alike (Joined (some c₁.current.kind)) (fun _ _ => True) (Parse.exec (Parse.advance a) c₁)
      (Parse.exec (Parse.advance a) c₂) := by
  rcases h.aligned_cases ha with ⟨h₁, -⟩ |
      ⟨t₁, w₁, t₂, w₂, ⟨hne₁, e₁, he₁, rfl⟩, ⟨hne₂, e₂, he₂, rfl⟩, -, hf⟩
  · exact absurd h₁.current_nil hc
  · have hj : Joined (some t₁.kind) (Cursor.onto w₁ e₁) (Cursor.onto w₂ e₂) :=
      ⟨w₁, w₂, ⟨fun t ht => hne₁ t (by simp [ht]), e₁, he₁, rfl⟩,
        ⟨fun t ht => hne₂ t (by simp [ht]), e₂, he₂, rfl⟩, hf⟩
    have hok : Alike (Joined (some t₁.kind)) (fun _ _ => True) (.ok ((), Cursor.onto w₁ e₁))
        (.ok ((), Cursor.onto w₂ e₂)) := Alike.ok trivial hj
    rw [Seam.exec_advance_onto]
    split
    · exact Alike.error (fun _ _ hr => by cases hr) _
    · refine Alike.of_tooDeep_or ?_ hok
      rw [Seam.exec_advance_onto]
      split
      · exact .inl rfl
      · exact .inr rfl

theorem Matched.advance (h : Matched c₁ c₂) (hc : c₁.current.kind ≠ .eof) (a : Nat) :
    Alike (Joined (some c₁.current.kind)) (fun _ _ => True) (Parse.exec (Parse.advance a) c₁)
      (Parse.exec (Parse.advance a) c₂) := by
  obtain ⟨before, hj, ha⟩ := h
  exact hj.advance ha hc a

theorem Matched.keyword (h : Matched c₁ c₂) (hc : c₁.current.kind ≠ .eof) (d : Nat) :
    Alike (Joined (some c₁.current.kind)) (fun _ _ => True) (Parse.exec (Parse.keyword d) c₁)
      (Parse.exec (Parse.keyword d) c₂) := by
  simp only [Parse.keyword]
  exact Alike.reach_bind (h.advance hc _)

/-- Taking a token of a kind other than the end of input takes the same token in both readings. -/
theorem Matched.eat (h : Matched c₁ c₂) {K : TokenKind} (hK : K ≠ .eof) (d : Nat) :
    Alike (Joined (some K)) (fun t t' => t.erase = t'.erase) (Parse.exec (Parse.eat d K) c₁)
      (Parse.exec (Parse.eat d K) c₂) := by
  simp only [Parse.eat]
  refine Alike.reach_bind ?_
  simp only [Parse.exec_current_bind]
  refine Alike.cond (by rw [h.kind_eq]) (fun hk => ?_) fun _ => Alike.failAt _
  have hc : c₁.current.kind ≠ .eof := hk ▸ hK
  refine (h.advance hc _).bind fun _ _ c₃ c₄ _ h₃ => ?_
  rw [hk] at h₃
  exact Alike.ok (h.erase_eq hc) h₃

theorem Parse.fails_eat_of_ne {c : Cursor} {K : TokenKind} (hk : c.current.kind ≠ K) (d : Nat) :
    Parse.Fails (Parse.eat d K) c := by
  simp only [Parse.eat]
  refine Parse.Fails.reach_bind fun a c' hr => ?_
  rw [Parse.exec_current_bind, if_neg hk] at hr
  exact Parse.Fails.failAt a c' hr

/-- Where a rule starts or stops, taking a token of a kind that no run the parser passes over may
come before takes the same token in both readings. -/
theorem Laid.eat (h : Laid c₁ c₂) {K : TokenKind} (hs : K ∉ separators) (hK : closes K = false)
    (d : Nat) :
    Alike (Joined (some K)) (fun t t' => t.erase = t'.erase) (Parse.exec (Parse.eat d K) c₁)
      (Parse.exec (Parse.eat d K) c₂) := by
  by_cases hk : c₁.current.kind = K
  · have ha := h.aligned (by rw [isSeparator_eq_false_iff, hk]; exact hs) (hk ▸ hK)
    obtain ⟨before, hj, -⟩ := h
    refine Matched.eat ⟨before, hj, ha⟩ (fun he => ?_) d
    rw [he] at hK
    cases hK
  · exact Alike.fails (Parse.fails_eat_of_ne hk d) _
end

theorem kinds_of_separators {run : List Token} (h : ∀ u ∈ run, u.isSeparator = true) :
    ∀ u ∈ run, u.kind ∈ separators :=
  fun u hu => (isSeparator_eq_true_iff u).1 (h u hu)

theorem kinds_of_head {rest : List Token} (h : ∀ u ∈ rest.head?, u.isSeparator = false) :
    ∀ u ∈ rest.head?, u.kind ∉ separators :=
  fun u hu => (isSeparator_eq_false_iff u).1 (h u hu)

variable [NestingLimit] in
/-- Skipping separators moves both readings past their runs, onto the same token. -/
theorem Joined.skip_separators_bind {before : Option TokenKind} (h : Joined before c₁ c₂)
    (d : Nat) {f : Unit → Parse γ} {g : Unit → Parse δ}
    (hf : ∀ c₁' c₂', Joined before c₁' c₂' → Aligned c₁' c₂' →
      Alike R W (Parse.exec (f ()) c₁') (Parse.exec (g ()) c₂')) :
    Alike R W (Parse.exec (Parse.skip d separators >>= f) c₁)
      (Parse.exec (Parse.skip d separators >>= g) c₂) := by
  obtain ⟨run₁, rest₁, run₂, rest₂, h₁, h₂, hr₁, hh₁, hr₂, hh₂, hf'⟩ := h.split
  obtain ⟨c₁', h₁', hs₁⟩ :=
    h₁.skip_bind (by decide) (kinds_of_separators hr₁) (kinds_of_head hh₁) d f
  obtain ⟨c₂', h₂', hs₂⟩ :=
    h₂.skip_bind (by decide) (kinds_of_separators hr₂) (kinds_of_head hh₂) d g
  refine Alike.of_error_or (hs₁.imp (fun h => ⟨_, h⟩) id) (Alike.of_tooDeep_or hs₂ ?_)
  exact hf c₁' c₂' ⟨rest₁, rest₂, h₁', h₂', formFrom_rest hh₁ hh₂ hf'⟩
    ⟨h₁'.isSeparator hh₁, h₂'.isSeparator hh₂⟩

/-- A run of line feeds, passed from no run, leaves no run or a run of line feeds only. -/
theorem foldl_extend_none_lineFeeds {run : List Token} (hrun : ∀ u ∈ run, u.kind = .newLine) :
    run.foldl extend none = none ∨ run.foldl extend none = some true := by
  cases run with
  | nil => exact .inl rfl
  | cons u run =>
    refine .inr ?_
    rw [List.foldl_cons, show extend none u = some true by simp [extend, hrun u (by simp)]]
    exact foldl_extend_lineFeeds (fun v hv => hrun v (by simp [hv])) true

variable [NestingLimit] in
/-- Skipping line feeds after a token `before` moves both readings onto the same token, where
the first reading goes on only at kinds `A`: each is no separator, and a run before it is
passed over if it holds line feeds only, and kept otherwise. The first reading may also stop on
a `;` that the second one stops on too, or elsewhere, where it fails. -/
theorem Joined.skip_lineFeeds_bind {before : Option TokenKind} (h : Joined before c₁ c₂)
    {A : TokenKind → Prop}
    (hA : ∀ K, A K → K ∉ separators ∧ drops before true K = true ∧ drops before false K = false)
    (d : Nat) {f : Unit → Parse γ} {g : Unit → Parse δ}
    (hf : ∀ c₁' c₂', Joined before c₁' c₂' → Aligned c₁' c₂' → A c₁'.current.kind →
      Alike R W (Parse.exec (f ()) c₁') (Parse.exec (g ()) c₂'))
    (hfail : ∀ c, ¬A c.current.kind → Parse.Fails (f ()) c) :
    Alike R W (Parse.exec (Parse.skip d [.newLine] >>= f) c₁)
      (Parse.exec (Parse.skip d [.newLine] >>= g) c₂) := by
  obtain ⟨run₁, rest₁, run₂, rest₂, h₁, h₂, hr₁, hh₁, hr₂, hh₂, hf'⟩ := h.split
  -- each run of separators is line feeds, then what follows from its first `;` on
  obtain ⟨lf₁, more₁, rfl, hl₁, hm₁⟩ := Parse.exists_run [.newLine] run₁
  obtain ⟨lf₂, more₂, rfl, hl₂, hm₂⟩ := Parse.exists_run [.newLine] run₂
  rw [List.append_assoc] at h₁ h₂
  have hstop : ∀ {more rest : List Token}, (∀ u ∈ more.head?, u.kind ∉ [TokenKind.newLine]) →
      (∀ u ∈ rest.head?, u.isSeparator = false) →
      ∀ u ∈ (more ++ rest).head?, u.kind ∉ [TokenKind.newLine] := by
    intro more rest hm hh u hu
    cases more with
    | nil => exact not_lineFeed_of_isSeparator (hh u hu)
    | cons v vs => exact hm u hu
  obtain ⟨c₁', h₁', hs₁⟩ := h₁.skip_bind (by decide) hl₁ (hstop hm₁ hh₁) d f
  obtain ⟨c₂', h₂', hs₂⟩ := h₂.skip_bind (by decide) hl₂ (hstop hm₂ hh₂) d g
  refine Alike.of_error_or (hs₁.imp (fun h => ⟨_, h⟩) id) (Alike.of_tooDeep_or hs₂ ?_)
  by_cases hA₁ : A c₁'.current.kind
  · obtain ⟨hsK, hdt, hdf⟩ := hA _ hA₁
    -- the first reading stands past its run, on a token inside the streams
    have hmore₁ : more₁ = [] := by
      cases more₁ with
      | nil => rfl
      | cons u m =>
        rw [h₁'.current_cons] at hsK
        exact absurd (kinds_of_separators hr₁ u (by simp)) hsK
    subst hmore₁
    rw [List.nil_append] at h₁'
    rw [List.append_nil] at hr₁ hf'
    rcases formFrom_heads hh₁ hh₂ hf' with ⟨rfl, -, -⟩ | ⟨t₁, w₁, t₂, w₂, rfl, rfl, -, hm, -⟩
    · rw [h₁'.current_nil] at hdf
      simp [drops] at hdf
    -- a `;` in the second run would keep that run, where the first is passed over
    have hmore₂ : more₂ = [] := by
      cases more₂ with
      | nil => rfl
      | cons u m =>
        exfalso
        have hu : u.kind = .semicolon := by
          have hsep := kinds_of_separators hr₂ u (by simp)
          have hnl := hm₂ u rfl
          simp only [separators, List.mem_cons, List.not_mem_nil, or_false] at hsep hnl
          exact hsep.resolve_left hnl
        have hsemi : (lf₂ ++ u :: m).foldl extend none = some false :=
          foldl_extend_semicolon (by simp) hu none
        rw [h₁'.current_cons] at hdt hdf
        rw [hsemi] at hm
        have hm₂' : mark before (some false) t₁.kind = [separator] := by
          simp [mark, hdf]
        rcases foldl_extend_none_lineFeeds (fun v hv => by simpa using hl₁ v hv) with hn | hn <;>
          rw [hn, hm₂'] at hm <;> simp [mark, hdt] at hm
    subst hmore₂
    rw [List.nil_append] at h₂'
    refine hf c₁' c₂' ⟨_, _, h₁', h₂', ?_⟩ ⟨h₁'.isSeparator hh₁, h₂'.isSeparator hh₂⟩ hA₁
    rw [List.append_nil] at hr₂ hf'
    exact formFrom_rest hh₁ hh₂ hf'
  · exact Alike.fails (hfail c₁' hA₁) _

variable [NestingLimit] in
/-- Skipping line feeds after a rule stops, where the first reading goes on only at a comma or a
closing parenthesis, moves both readings onto the same token. -/
theorem Laid.skip_lineFeeds_bind (h : Laid c₁ c₂) {A : TokenKind → Prop}
    (hA : ∀ K, A K → K = .comma ∨ K = .closeParen) (d : Nat) {f : Unit → Parse γ}
    {g : Unit → Parse δ}
    (hf : ∀ c₁' c₂', Matched c₁' c₂' → A c₁'.current.kind →
      Alike R W (Parse.exec (f ()) c₁') (Parse.exec (g ()) c₂'))
    (hfail : ∀ c, ¬A c.current.kind → Parse.Fails (f ()) c) :
    Alike R W (Parse.exec (Parse.skip d [.newLine] >>= f) c₁)
      (Parse.exec (Parse.skip d [.newLine] >>= g) c₂) := by
  obtain ⟨before, hj, hop⟩ := h
  cases hb : opens before
  · refine hj.skip_lineFeeds_bind (fun K hK => ?_) d
      (fun c₁' c₂' hj' ha' hK => hf c₁' c₂' ⟨before, hj', ha'⟩ hK) hfail
    cases before with
    | none => cases hb
    | some k =>
      simp only [opens, Bool.or_eq_false_iff, beq_eq_false_iff_ne, ne_eq, Option.some.injEq] at hb
      rcases hA K hK with rfl | rfl <;> simp [drops, separators, hb]
  · -- both readings stand past the run already, so skipping moves neither
    have ha := hop hb
    obtain ⟨us₁, us₂, h₁, h₂, hform⟩ := hj
    refine Alike.of_error_or ((h₁.skip_bind_stop (by decide) (not_lineFeed_of_isSeparator ha.1) d
      f).imp (fun h => ⟨_, h⟩) id)
      (Alike.of_tooDeep_or (h₂.skip_bind_stop (by decide) (not_lineFeed_of_isSeparator ha.2) d g) ?_)
    by_cases hA₁ : A c₁.current.kind
    · exact hf c₁ c₂ ⟨before, ⟨us₁, us₂, h₁, h₂, hform⟩, ha⟩ hA₁
    · exact Alike.fails (hfail c₁ hA₁) _

/-- Joined cursors after a token that opens no run the parser passes over are where a rule
stops. -/
theorem Joined.laid {before : Option TokenKind} (h : Joined before c₁ c₂)
    (hb : opens before = false) : Laid c₁ c₂ :=
  ⟨before, h, fun hb' => absurd (hb.symm.trans hb') (by decide)⟩

/-- A token that an operator is read from opens no run the parser passes over. -/
theorem opens_of_precedence {k : TokenKind} (h : 0 < k.precedence) : opens (some k) = false := by
  cases k <;> simp_all [TokenKind.precedence, opens]

variable [NestingLimit] in
/-- Skipping separators in the second reading alone, where the first stands on a token, moves it
onto the same token. -/
theorem Joined.skip_separators_right {before : Option TokenKind} (h : Joined before c₁ c₂)
    (hs : c₁.current.isSeparator = false) (d : Nat) (g : Unit → Parse δ) :
    ∃ c₂', (Parse.exec (Parse.skip d separators >>= g) c₂ = .error .tooDeep ∨
      Parse.exec (Parse.skip d separators >>= g) c₂ = Parse.exec (g ()) c₂') ∧
      Joined before c₁ c₂' ∧ Aligned c₁ c₂' := by
  obtain ⟨run₁, rest₁, run₂, rest₂, h₁, h₂, hr₁, hh₁, hr₂, hh₂, hf⟩ := h.split
  obtain rfl := h₁.run_eq_nil hr₁ hs
  rw [List.nil_append] at h₁
  obtain ⟨c₂', h₂', hs₂⟩ :=
    h₂.skip_bind (by decide) (kinds_of_separators hr₂) (kinds_of_head hh₂) d g
  exact ⟨c₂', hs₂, ⟨rest₁, rest₂, h₁, h₂', formFrom_rest hh₁ hh₂ hf⟩, ⟨hs,
    h₂'.isSeparator hh₂⟩⟩

variable [NestingLimit] in
/-- Skipping separators in the first reading alone, where the second stands on a token, moves it
onto the same token; and a run passed over so follows a token that opens or comes before one
that closes. -/
theorem Joined.skip_separators_left {before : Option TokenKind} (h : Joined before c₁ c₂)
    (hs : c₂.current.isSeparator = false) (d : Nat) (f : Unit → Parse γ) :
    ∃ c₁', (Parse.exec (Parse.skip d separators >>= f) c₁ = .error .tooDeep ∨
      Parse.exec (Parse.skip d separators >>= f) c₁ = Parse.exec (f ()) c₁') ∧
      Joined before c₁' c₂ ∧ Aligned c₁' c₂ ∧
      (c₁.current.isSeparator = true → opens before = true ∨ closes c₁'.current.kind = true) := by
  obtain ⟨run₁, rest₁, run₂, rest₂, h₁, h₂, hr₁, hh₁, hr₂, hh₂, hf⟩ := h.split
  obtain rfl := h₂.run_eq_nil hr₂ hs
  rw [List.nil_append] at h₂
  obtain ⟨c₁', h₁', hs₁⟩ :=
    h₁.skip_bind (by decide) (kinds_of_separators hr₁) (kinds_of_head hh₁) d f
  refine ⟨c₁', hs₁, ⟨rest₁, rest₂, h₁', h₂, formFrom_rest hh₁ hh₂ hf⟩, ⟨h₁'.isSeparator hh₁, hs⟩,
    fun hsep => ?_⟩
  -- the first reading stood on a run, which left no mark
  have hne : run₁ ≠ [] := by
    rintro rfl
    rw [List.nil_append] at h₁
    rw [h₁.isSeparator hh₁] at hsep
    cases hsep
  obtain ⟨lf, hlf⟩ := foldl_extend_none hne
  rw [hlf, List.foldl_nil] at hf
  rcases formFrom_heads hh₁ hh₂ hf with ⟨rfl, -, -⟩ | ⟨t₁, w₁, t₂, w₂, rfl, rfl, -, hm, -⟩
  · exact .inr (by rw [h₁'.current_nil]; rfl)
  · rw [mark_none, mark_some] at hm
    rw [h₁'.current_cons]
    exact opens_or_closes_of_drops hm

/-- Whether no expression starts at a token of this kind: a separator, or a kind before which a
run that the parser passes over may end. -/
def ends (k : TokenKind) : Bool := k == .newLine || k == .semicolon || closes k

theorem ends_cases {k : TokenKind} (h : ends k = true) :
    k = .newLine ∨ k = .semicolon ∨ k = .closeParen ∨ k = .comma ∨ k = .closeCurly ∨
      k = .eof := by
  simp only [ends, closes, Bool.or_eq_true, beq_iff_eq] at h
  rcases h with ((h | h) | ((h | h) | h) | h) <;> simp [h]

theorem ends_of_closes {k : TokenKind} (h : closes k = true) : ends k = true := by
  simp [ends, h]

/-- The kinds of token inside a list between parentheses: neither a separator nor a kind that
ends a block or the text. -/
def Inside (k : TokenKind) : Prop := k ∉ separators ∧ k ≠ .closeCurly ∧ k ≠ .eof

/-- After an opening parenthesis or a comma, a run before a token inside the list is passed over
when it holds line feeds only, and kept otherwise. -/
theorem inside_drops {before : Option TokenKind}
    (hb : before = some .openParen ∨ before = some .comma) {k : TokenKind} (hk : Inside k) :
    k ∉ separators ∧ drops before true k = true ∧ drops before false k = false := by
  obtain ⟨hs, hc, he⟩ := hk
  refine ⟨hs, ?_, ?_⟩ <;> rcases hb with rfl | rfl <;> simp [drops, hc, he]

theorem ends_of_not_inside {k : TokenKind} (hk : ¬Inside k) : ends k = true := by
  simp only [Inside, separators, List.mem_cons, List.not_mem_nil, or_false, not_or, ne_eq,
    not_and, Classical.not_not] at hk
  by_cases h₁ : k = .newLine
  · simp [ends, h₁]
  by_cases h₂ : k = .semicolon
  · simp [ends, h₂]
  by_cases h₃ : k = .closeCurly
  · simp [ends, closes, h₃]
  simp [ends, closes, hk ⟨h₁, h₂⟩ h₃]

theorem ne_closeParen_of_not_inside {k : TokenKind} (hk : ¬Inside k) : k ≠ .closeParen := by
  rintro rfl
  exact hk ⟨by decide, by decide, by decide⟩

theorem ne_eof_of_ends {k : TokenKind} (h : ends k = false) : k ≠ .eof := by
  rintro rfl
  cases h

theorem ends_eq_false {k : TokenKind} (hs : k ∉ separators) (hc : closes k = false) :
    ends k = false := by
  simp only [separators, List.mem_cons, List.not_mem_nil, or_false, not_or] at hs
  simp [ends, hs.1, hs.2, hc]

theorem isSeparator_of_ends {t : Token} (h : ends t.kind = false) : t.isSeparator = false := by
  rw [isSeparator_eq_false_iff]
  simp only [ends, Bool.or_eq_false_iff, beq_eq_false_iff_ne] at h
  simp [separators, h.1.1, h.1.2]

theorem closes_of_ends {k : TokenKind} (h : ends k = false) : closes k = false := by
  simp only [ends, Bool.or_eq_false_iff] at h
  exact h.2

/-- Where a rule starts or stops, a token at which an expression may start stands under both
cursors. -/
theorem Laid.matched (h : Laid c₁ c₂) (hend : ends c₁.current.kind = false) : Matched c₁ c₂ := by
  have ha := h.aligned (isSeparator_of_ends hend) (closes_of_ends hend)
  obtain ⟨before, hj, -⟩ := h
  exact ⟨before, hj, ha⟩

/-- Matched cursors inside the streams stand on tokens of the same kind, text and form. -/
theorem Matched.same (h : Matched c₁ c₂) (hc : c₁.current.kind ≠ .eof) :
    c₂.current.kind = c₁.current.kind ∧ c₂.current.text = c₁.current.text ∧
      c₂.current.form = c₁.current.form := by
  have he := h.erase_eq hc
  refine ⟨?_, ?_, ?_⟩
  · have hk := congrArg Token.kind he
    exact hk.symm
  · have ht := congrArg Token.text he
    exact ht.symm
  · have hf := congrArg Token.form he
    exact hf.symm

/-- A sign opens no run the parser passes over. -/
theorem opens_of_sign {k : TokenKind} {s : Sign} (h : Sign.ofKind? k = some s) :
    opens (some k) = false := by
  cases k <;> simp_all [Sign.ofKind?, opens]

theorem kind_of_isSeparator (h : t.isSeparator = true) :
    t.kind = .newLine ∨ t.kind = .semicolon :=
  (isSeparator_iff t).1 h

theorem kind_of_not_isSeparator (h : t.isSeparator = false) :
    ¬(t.kind = .newLine ∨ t.kind = .semicolon) := fun hk => by
  rw [(isSeparator_iff t).2 hk] at h
  cases h

end Layout

namespace Parse

/-! ## Reading where no expression starts

On a separator, a closing bracket, a comma or the end of input no rule that must read an
expression or a statement can go on. -/

section Ends

variable {c : Cursor} (hc : Layout.ends c.current.kind = true)
include hc

variable [NestingLimit]

theorem fails_primary_of_ends : ∀ fuel d, Fails (primary fuel d) c
  | 0, _ => by simp only [primary]; exact Fails.throw
  | fuel + 1, d => by
    simp only [primary]
    refine Fails.reach_bind fun a c' hr => ?_
    rcases Layout.ends_cases hc with h | h | h | h | h | h <;>
      simp only [exec_current_bind, h] at hr <;> exact Fails.reach_bind Fails.failAt a c' hr

theorem fails_expression_of_ends : ∀ fuel d minPrec, Fails (expression fuel d minPrec) c
  | 0, _, _ => by simp only [expression]; exact Fails.throw
  | fuel + 1, d, _ => by
    simp only [expression]
    exact Fails.reach_bind (Fails.bind (fails_primary_of_ends hc fuel (d + 1)))

theorem fails_statement_of_ends : ∀ fuel d, Fails (statement fuel d) c
  | 0, _ => by simp only [statement]; exact Fails.throw
  | fuel + 1, d => by
    simp only [statement]
    refine Fails.reach_bind fun a c' hr => ?_
    rcases Layout.ends_cases hc with h | h | h | h | h | h <;>
      simp only [exec_current_bind, h, reduceCtorEq, if_false] at hr <;>
      exact Fails.bind (fails_expression_of_ends hc fuel (d + 1) 0) a c' hr

theorem fails_statements_of_ends {stop : TokenKind} (hstop : c.current.kind ≠ stop) :
    ∀ fuel d acc, Fails (statements fuel d stop acc) c
  | 0, _, _ => by simp only [statements]; exact Fails.throw
  | fuel + 1, d, _ => by
    simp only [statements]
    intro a c' hr
    rw [exec_current_bind, if_neg hstop] at hr
    exact Fails.bind (fails_statement_of_ends hc fuel (d + 1)) a c' hr

theorem fails_itemsFrom_of_ends (hne : c.current.kind ≠ .closeParen) :
    ∀ fuel d acc, Fails (itemsFrom fuel d acc) c
  | 0, _, _ => by simp only [itemsFrom]; exact Fails.throw
  | fuel + 1, d, _ => by
    simp only [itemsFrom]
    refine Fails.reach_bind fun a c' hr => ?_
    rw [exec_current_bind, if_neg hne] at hr
    exact Fails.bind (fails_expression_of_ends hc fuel (d + 1) 0) a c' hr

end Ends

end Parse

end Scriptlet.Syntax
