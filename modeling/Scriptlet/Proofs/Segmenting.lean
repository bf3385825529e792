import Scriptlet.Proofs.Scanning

/-!
# The scanner cuts its input into longest lexemes

A run of the scanner over a source text ends, after at most one call per character and one
more, with a fault or with the end of input; past the end every call answers the end again and
leaves the scanner as it is. When it reaches the end, the text is cut into blanks and the spans
of the tokens, each token standing at the offset of its span, and each span is the longest
lexeme the text offers at that point.

`Lexeme sp t` gives the spellings of tokens: identifiers, numerals of each form, strings between
two of a quote that does not occur in them, and the one- and two-character symbols. The first
character of a spelling says which kind it is, so "the longest lexeme" is the longest spelling
in the language that the first character selects (`Longest`).

## Main statements

* `readToken_lexeme`: one read takes the longest lexeme at the start of the input.
* `Scanner.next_token`, `Scanner.next_eof`: what one call of the scanner does.
* `Scanner.Steps.tiling`: the calls of a run cut what they read into blanks and lexemes.
* `Scanner.run_ofString_tiles`: the run over a whole source text.
-/

set_option autoImplicit false

namespace Scriptlet.Syntax

/-! ## The lexemes -/

/-- The spellings of tokens, each with the token it spells at any offset. -/
inductive Lexeme : List Char → Token → Prop
  /-- An identifier; keywords are identifiers too. -/
  | word {c : Char} {cs : List Char} {pos : Nat} : isWordStart c = true →
      (∀ d ∈ cs, isWordChar d = true) →
      Lexeme (c :: cs) ⟨.identifier, String.ofList (c :: cs), pos, none⟩
  /-- A numeral, with the form its spelling denotes. -/
  | numeral {w : List Char} {f : NumeralForm} {pos : Nat} : Numeral w f →
      Lexeme w ⟨.numericLiteral, String.ofList w, pos, some f⟩
  /-- A string: its body between two of a quote that does not occur in it. -/
  | string {q : Char} {body : List Char} {pos : Nat} : isQuote q = true → q ∉ body →
      Lexeme (q :: (body ++ [q])) ⟨.stringLiteral, String.ofList body, pos, none⟩
  /-- A one-character symbol. -/
  | single {c : Char} {k : TokenKind} {pos : Nat} : singleKind c = some k →
      Lexeme [c] ⟨k, String.singleton c, pos, none⟩
  /-- A two-character operator. -/
  | pair {c d : Char} {k : TokenKind} {pos : Nat} : pairKind c d = some k →
      Lexeme [c, d] ⟨k, String.ofList [c, d], pos, none⟩

/-- `sp` is at least as long as every lexeme that starts `l`. -/
def Longest (sp l : List Char) : Prop :=
  ∀ w t, w <+: l → Lexeme w t → w.length ≤ sp.length

theorem singleKind_eq_none_of_isWordChar {c : Char} (h : isWordChar c = true) :
    singleKind c = none := by
  unfold singleKind
  split <;> first | rfl | (exfalso; revert h; decide)

theorem singleKind_eq_none_of_isQuote {c : Char} (h : isQuote c = true) : singleKind c = none := by
  unfold singleKind
  split <;> first | rfl | (exfalso; revert h; decide)

/-- A two-character operator starts with a one-character symbol. -/
theorem singleKind_of_pairKind {c d : Char} {k : TokenKind} (h : pairKind c d = some k) :
    ∃ k', singleKind c = some k' := by
  unfold pairKind at h
  split at h <;> first | exact ⟨_, rfl⟩ | cases h

theorem pairKind_eq_none {c d : Char} (h : singleKind c = none) : pairKind c d = none := by
  cases hp : pairKind c d with
  | none => rfl
  | some k =>
    obtain ⟨k', hk'⟩ := singleKind_of_pairKind hp
    rw [h] at hk'
    cases hk'

theorem Lexeme.ne_nil {w : List Char} {t : Token} (h : Lexeme w t) : w ≠ [] := by
  cases h with
  | numeral hnum =>
    obtain ⟨c, cs, rfl, -⟩ := hnum.exists_cons
    exact List.cons_ne_nil _ _
  | _ => exact List.cons_ne_nil _ _

theorem mem_takeWhile_imp {p : Char → Bool} {l : List Char} {d : Char} (h : d ∈ l.takeWhile p) :
    p d = true :=
  List.all_eq_true.1 List.all_takeWhile d h

/-- A prefix of `l` that is all of the class `p` is a prefix of the longest such run. -/
theorem length_le_takeWhile {p : Char → Bool} {w l : List Char} (hw : w <+: l)
    (hp : ∀ d ∈ w, p d = true) : w.length ≤ (l.takeWhile p).length := by
  obtain ⟨r, rfl⟩ := hw
  rw [List.takeWhile_append_of_pos hp, List.length_append]
  omega

/-- A lexeme at the start of `c :: l` starts with `c`. -/
theorem Lexeme.prefix_cons {w l : List Char} {c : Char} {t : Token} (h : Lexeme w t)
    (hw : w <+: c :: l) : ∃ cs, w = c :: cs ∧ cs <+: l := by
  obtain ⟨c', cs, rfl⟩ := List.exists_cons_of_ne_nil h.ne_nil
  obtain ⟨rfl, hcs⟩ := List.cons_prefix_cons.1 hw
  exact ⟨cs, rfl, hcs⟩

/-! ## The kind the first character selects -/

section Selects

variable {c : Char} {cs : List Char} {t : Token}

theorem Lexeme.word_of_isWordStart (h : Lexeme (c :: cs) t) (hc : isWordStart c = true) :
    ∀ d ∈ cs, isWordChar d = true := by
  cases h with
  | word _ hcs => exact hcs
  | numeral hnum =>
    obtain ⟨_, _, heq, hd⟩ := hnum.exists_cons
    cases heq
    rw [isWordStart_eq_false_of_isDecimalDigit hd] at hc
    cases hc
  | string hq _ => rw [isQuote_eq_false_of_isWordStart hc] at hq; cases hq
  | single hk =>
    rw [singleKind_eq_none_of_isWordChar (by simp [isWordChar, hc])] at hk
    cases hk
  | pair hk =>
    rw [pairKind_eq_none (singleKind_eq_none_of_isWordChar (by simp [isWordChar, hc]))] at hk
    cases hk

theorem Lexeme.numeral_of_isDecimalDigit (h : Lexeme (c :: cs) t) (hc : isDecimalDigit c = true) :
    ∃ f, Numeral (c :: cs) f := by
  cases h with
  | numeral hnum => exact ⟨_, hnum⟩
  | word hw _ => rw [isWordStart_eq_false_of_isDecimalDigit hc] at hw; cases hw
  | string hq _ => rw [isQuote_eq_false_of_isDecimalDigit hc] at hq; cases hq
  | single hk =>
    rw [singleKind_eq_none_of_isWordChar (isWordChar_of_isDecimalDigit hc)] at hk
    cases hk
  | pair hk =>
    rw [pairKind_eq_none (singleKind_eq_none_of_isWordChar (isWordChar_of_isDecimalDigit hc))] at hk
    cases hk

theorem Lexeme.string_of_isQuote (h : Lexeme (c :: cs) t) (hc : isQuote c = true) :
    ∃ body, cs = body ++ [c] ∧ c ∉ body := by
  cases h with
  | string _ hnot => exact ⟨_, rfl, hnot⟩
  | word hw _ => rw [isQuote_eq_false_of_isWordStart hw] at hc; cases hc
  | numeral hnum =>
    obtain ⟨_, _, heq, hd⟩ := hnum.exists_cons
    cases heq
    rw [isQuote_eq_false_of_isDecimalDigit hd] at hc
    cases hc
  | single hk => rw [singleKind_eq_none_of_isQuote hc] at hk; cases hk
  | pair hk => rw [pairKind_eq_none (singleKind_eq_none_of_isQuote hc)] at hk; cases hk

/-- A lexeme that starts with no letter, digit, `_` or quote is a symbol of one or two
characters. -/
theorem Lexeme.symbol_of_not (h : Lexeme (c :: cs) t) (hq : isQuote c = false)
    (hw : isWordStart c = false) (hd : isDecimalDigit c = false) :
    cs = [] ∨ ∃ d k, cs = [d] ∧ pairKind c d = some k := by
  cases h with
  | single _ => exact .inl rfl
  | pair hk => exact .inr ⟨_, _, rfl, hk⟩
  | word hw' _ => rw [hw] at hw'; cases hw'
  | numeral hnum =>
    obtain ⟨_, _, heq, hd'⟩ := hnum.exists_cons
    cases heq
    rw [hd] at hd'
    cases hd'
  | string hq' _ => rw [hq] at hq'; cases hq'

/-- Symbols are one or two characters long. -/
theorem Lexeme.length_le_two (h : Lexeme (c :: cs) t) (hq : isQuote c = false)
    (hw : isWordStart c = false) (hd : isDecimalDigit c = false) : (c :: cs).length ≤ 2 := by
  rcases h.symbol_of_not hq hw hd with rfl | ⟨d, k, rfl, -⟩ <;> simp

end Selects

/-! ## One read -/

/-- A read of `n` characters of `l` that gives the token `t` at offset `pos`: the token spells
the longest lexeme that starts `l`. -/
def TakesLexeme (l : List Char) (pos : Nat) (t : Token) (n : Nat) : Prop :=
  ∃ sp r, l = sp ++ r ∧ n = sp.length ∧ t.position = pos ∧ Lexeme sp t ∧ Longest sp l

theorem takesLexeme_word {c : Char} {cs : List Char} (pos : Nat) (hc : isWordStart c = true) :
    TakesLexeme (c :: cs) pos ⟨.identifier, String.ofList (c :: cs.takeWhile isWordChar), pos, none⟩
      (c :: cs.takeWhile isWordChar).length := by
  refine ⟨c :: cs.takeWhile isWordChar, cs.dropWhile isWordChar, by simp, rfl, rfl,
    .word hc fun _ hd => mem_takeWhile_imp hd, ?_⟩
  intro w t hw hlex
  obtain ⟨cs', rfl, hcs'⟩ := hlex.prefix_cons hw
  simpa using length_le_takeWhile hcs' (hlex.word_of_isWordStart hc)

/-- What is left after a run of the class `p` starts with a character not of it. -/
theorem dropWhile_eq_cons_stop {p : Char → Bool} :
    ∀ {l r : List Char} {x : Char}, l.dropWhile p = x :: r → p x = false
  | [], _, _, h => by simp at h
  | y :: l, r, x, h => by
    by_cases hy : p y = true
    · rw [List.dropWhile_cons_of_pos hy] at h
      exact dropWhile_eq_cons_stop h
    · rw [List.dropWhile_cons_of_neg hy] at h
      cases h
      simpa using hy

/-- The body of a string is all up to the first closing quote. -/
theorem takeWhile_ne_of_prefix {q : Char} {body cs : List Char} (hpre : body ++ [q] <+: cs)
    (hnot : q ∉ body) : cs.takeWhile (· ≠ q) = body := by
  obtain ⟨r, rfl⟩ := hpre
  rw [List.append_assoc, List.singleton_append]
  exact takeWhile_append_stop (fun d hd => decide_eq_true fun h : d = q => hnot (h ▸ hd))
    (by simp)

theorem takesLexeme_string {q : Char} {cs : List Char} {pos : Nat} {t : Token} {n : Nat}
    (hq : isQuote q = true) (h : readString q cs pos = .ok (t, n)) :
    TakesLexeme (q :: cs) pos t n := by
  simp only [readString] at h
  by_cases hlt : (cs.takeWhile (· ≠ q)).length < cs.length
  · rw [if_pos hlt] at h
    cases h
    -- the body stops at a closing quote, since it is shorter than the input
    have hne : cs.dropWhile (· ≠ q) ≠ [] := fun hnil => by
      have hcs : cs.takeWhile (· ≠ q) ++ cs.dropWhile (· ≠ q) = cs :=
        List.takeWhile_append_dropWhile
      rw [hnil, List.append_nil] at hcs
      rw [hcs] at hlt
      omega
    obtain ⟨x, r, hdrop⟩ := List.exists_cons_of_ne_nil hne
    have hx : x = q := by simpa using dropWhile_eq_cons_stop hdrop
    subst hx
    have hcs : cs = cs.takeWhile (· ≠ x) ++ x :: r := by
      rw [← hdrop, List.takeWhile_append_dropWhile]
    have hnot : x ∉ cs.takeWhile (· ≠ x) := fun hmem => by simpa using mem_takeWhile_imp hmem
    refine ⟨x :: (cs.takeWhile (· ≠ x) ++ [x]), r,
      by rw [List.cons_append, List.append_assoc, List.singleton_append, ← hcs], by simp, rfl,
      .string hq hnot, ?_⟩
    intro w t hw hlex
    obtain ⟨cs', rfl, hcs'⟩ := hlex.prefix_cons hw
    obtain ⟨body, rfl, hbody⟩ := hlex.string_of_isQuote hq
    exact Nat.le_of_eq (by rw [← takeWhile_ne_of_prefix hcs' hbody])
  · rw [if_neg hlt] at h
    cases h

section Symbols

variable {c : Char} {cs : List Char} {pos : Nat} (hq : isQuote c = false)
  (hw : isWordStart c = false) (hd : isDecimalDigit c = false)
include hq hw hd

/-- A one-character symbol, when the next character makes no two-character operator with it. -/
theorem takesLexeme_single {k : TokenKind} (hk : singleKind c = some k)
    (hpair : ∀ d ∈ cs.head?, pairKind c d = none) :
    TakesLexeme (c :: cs) pos ⟨k, String.singleton c, pos, none⟩ 1 := by
  refine ⟨[c], cs, rfl, rfl, rfl, .single hk, fun w t hw' hlex => ?_⟩
  obtain ⟨cs', rfl, hcs'⟩ := hlex.prefix_cons hw'
  rcases hlex.symbol_of_not hq hw hd with rfl | ⟨d, k', rfl, hk'⟩
  · exact Nat.le_refl _
  · -- a two-character operator would have to be there
    obtain ⟨rest, rfl⟩ := hcs'
    rw [hpair d rfl] at hk'
    cases hk'

theorem takesLexeme_symbol {t : Token} {n : Nat} (h : readSymbol c cs pos = .ok (t, n)) :
    TakesLexeme (c :: cs) pos t n := by
  simp only [readSymbol] at h
  split at h
  · rename_i d rest
    split at h
    · rename_i k hk
      cases h
      refine ⟨[c, d], rest, rfl, rfl, rfl, .pair hk, fun w t hw' hlex => ?_⟩
      obtain ⟨cs', rfl, -⟩ := hlex.prefix_cons hw'
      exact hlex.length_le_two hq hw hd
    · rename_i hpair
      split at h
      · rename_i k hk
        cases h
        exact takesLexeme_single hq hw hd hk (fun d' hd' => by cases hd'; exact hpair)
      · cases h
  · split at h
    · rename_i k hk
      cases h
      exact takesLexeme_single hq hw hd hk (by simp)
    · cases h

end Symbols

/-! ## Numerals -/

/-- A whole part that starts with a zero is that zero alone. -/
theorem IsWhole.eq_zero {w : List Char} (hw : IsWhole w) (h : w.head? = some '0') : w = ['0'] := by
  rcases hw with rfl | ⟨_, h0⟩
  · rfl
  · exact absurd h h0

theorem IsWhole.head_of_append {w tail rest : List Char} {c : Char} (hw : IsWhole w)
    (h : w ++ tail = c :: rest) : w.head? = some c := by
  obtain ⟨c', ws, rfl, -⟩ := hw.exists_cons
  simp only [List.cons_append, List.cons.injEq] at h
  simp [h.1]

/-- After a leading zero a numeral goes on with a radix marker, a dot or an exponent mark. -/
theorem Numeral.zero_cons_cons {x : Char} {rest : List Char} {f : NumeralForm}
    (h : Numeral ('0' :: x :: rest) f) :
    (x = 'x' ∧ IsRun isHexDigit rest) ∨ (x = 'b' ∧ IsRun isBinaryDigit rest) ∨
      x = '.' ∨ x = 'e' ∨ x = 'E' := by
  generalize hw : '0' :: x :: rest = w at h
  cases h with
  | hex hds =>
    cases hw
    exact .inl ⟨rfl, hds⟩
  | binary hds =>
    cases hw
    exact .inr (.inl ⟨rfl, hds⟩)
  | integer hw' =>
    subst hw
    cases hw'.eq_zero rfl
  | fraction hw' _ =>
    cases hw'.eq_zero (hw'.head_of_append hw.symm)
    simp only [List.cons_append, List.nil_append, List.cons.injEq] at hw
    exact .inr (.inr (.inl hw.2.1))
  | exponent hm he _ _ =>
    simp only [List.append_assoc, List.cons_append] at hw
    rcases hm with hm | ⟨w₀, fs, hw₀, _, rfl⟩
    · cases hm.eq_zero (hm.head_of_append hw.symm)
      simp only [List.cons_append, List.nil_append, List.cons.injEq] at hw
      rw [hw.2.1]
      exact .inr (.inr (.inr he))
    · simp only [List.append_assoc, List.cons_append] at hw
      cases hw₀.eq_zero (hw₀.head_of_append hw.symm)
      simp only [List.cons_append, List.nil_append, List.cons.injEq] at hw
      exact .inr (.inr (.inl hw.2.1))

theorem readRadix_ok {ok : Char → Bool} {m rest : List Char} {style : NumeralStyle} {pos : Nat}
    {t : Token} {n : Nat} (h : readRadix ok m style rest pos = .ok (t, n)) :
    rest.takeWhile ok ≠ [] ∧
      t = ⟨.numericLiteral, String.ofList (m ++ rest.takeWhile ok), pos, some ⟨.integer, style⟩⟩ ∧
      n = (m ++ rest.takeWhile ok).length := by
  cases hds : rest.takeWhile ok with
  | nil => simp [readRadix, hds] at h
  | cons d ds =>
    simp only [readRadix, hds, numeral, Except.ok.injEq, Prod.mk.injEq] at h
    exact ⟨List.cons_ne_nil _ _, h.1.symm, h.2.symm⟩

/-- How a numeral starting with `c` is read: after `0x`, after `0b`, or as a decimal numeral,
which a leading zero may only start when no digit follows it. -/
theorem readNumeral_cases {c : Char} {cs : List Char} {pos : Nat} {t : Token} {n : Nat}
    (h : readNumeral c cs pos = .ok (t, n)) :
    (c = '0' ∧ ∃ r, cs = 'x' :: r ∧ readRadix isHexDigit ['0', 'x'] .hex r pos = .ok (t, n)) ∨
    (c = '0' ∧ ∃ r, cs = 'b' :: r ∧ readRadix isBinaryDigit ['0', 'b'] .binary r pos = .ok (t, n)) ∨
    ((c = '0' → ∀ d ∈ cs.head?, d ≠ 'x' ∧ d ≠ 'b' ∧ isDecimalDigit d = false) ∧
      readDecimal c cs pos = .ok (t, n)) := by
  by_cases hc : c = '0'
  · subst hc
    simp only [readNumeral, if_true] at h
    split at h
    · exact .inl ⟨rfl, _, rfl, h⟩
    · exact .inr (.inl ⟨rfl, _, rfl, h⟩)
    · rename_i d tail hx hb
      split at h
      · cases h
      · rename_i hd
        refine .inr (.inr ⟨fun _ d' hd' => ?_, h⟩)
        cases hd'
        exact ⟨hx, hb, by simpa using hd⟩
    · exact .inr (.inr ⟨fun _ d' hd' => by simp at hd', h⟩)
  · simp only [readNumeral, if_neg hc] at h
    exact .inr (.inr ⟨fun h0 => absurd h0 hc, h⟩)

/-- The mantissa of a decimal numeral: its whole part, and a fraction when a dot and a digit
follow it. -/
theorem mantissaOf_cases (whole after : List Char) :
    mantissaOf whole after = (whole, false, after) ∨
      ∃ d r, after = '.' :: d :: r ∧ isDecimalDigit d = true ∧
        mantissaOf whole after =
          (whole ++ '.' :: d :: r.takeWhile isDecimalDigit, true, r.dropWhile isDecimalDigit) := by
  unfold mantissaOf
  split
  · rename_i d r
    split
    · exact .inr ⟨d, r, rfl, ‹_›, rfl⟩
    · exact .inl rfl
  · exact .inl rfl

theorem afterMantissa_mark {mant rest : List Char} {e : Char} {real : Bool} {pos : Nat}
    (he : e = 'e' ∨ e = 'E') :
    afterMantissa mant real (e :: rest) pos = readExponent mant e rest pos := by
  simp only [afterMantissa, if_pos he]

/-- The sign of an exponent, `+` or `-` when one is there, and what follows it. -/
def exponentSign (rest : List Char) : List Char × List Char :=
  match rest with
  | s :: r => if s = '+' ∨ s = '-' then ([s], r) else ([], rest)
  | [] => ([], [])

/-- The digits of an exponent after its sign `s`, of which there must be one. -/
def exponentDigits (mant : List Char) (mark : Char) (s after : List Char) (pos : Nat) : Read :=
  match after.takeWhile isDecimalDigit with
  | [] => .error (.missingExponentDigits pos, pos + mant.length + 1 + s.length)
  | ds => numeral (mant ++ mark :: s ++ ds) pos .real .scientific

/-- An exponent is its sign, then its digits. -/
theorem readExponent_eq (mant : List Char) (mark : Char) (rest : List Char) (pos : Nat) :
    readExponent mant mark rest pos =
      exponentDigits mant mark (exponentSign rest).1 (exponentSign rest).2 pos :=
  rfl

theorem exponentSign_cases (rest : List Char) :
    (exponentSign rest).2 = rest ∧ (exponentSign rest).1 = [] ∨
      ∃ x, rest = x :: (exponentSign rest).2 ∧ (x = '+' ∨ x = '-') ∧ (exponentSign rest).1 = [x] := by
  unfold exponentSign
  split
  · rename_i x r
    split
    · exact .inr ⟨x, rfl, ‹_›, rfl⟩
    · exact .inl ⟨rfl, rfl⟩
  · exact .inl ⟨rfl, rfl⟩

/-- A sign written before digits is the sign of the exponent. -/
theorem exponentSign_append {s after : List Char} (hs : s = [] ∨ s = ['+'] ∨ s = ['-'])
    (hafter : ∀ x ∈ after.head?, isDecimalDigit x = true) : exponentSign (s ++ after) = (s, after) := by
  rcases hs with rfl | rfl | rfl
  · cases after with
    | nil => rfl
    | cons x r =>
      have hx : ¬(x = '+' ∨ x = '-') := by
        rintro (rfl | rfl) <;> simp [isDecimalDigit] at hafter
      simp [exponentSign, hx]
  · rfl
  · rfl

/-- The digits of an exponent: the longest run of digits, of which there is one. -/
theorem exponentDigits_ok {mant s after : List Char} {mark : Char} {pos : Nat} {t : Token} {n : Nat}
    (h : exponentDigits mant mark s after pos = .ok (t, n)) :
    IsRun isDecimalDigit (after.takeWhile isDecimalDigit) ∧
      t = ⟨.numericLiteral, String.ofList (mant ++ mark :: s ++ after.takeWhile isDecimalDigit), pos,
        some ⟨.real, .scientific⟩⟩ ∧
      n = (mant ++ mark :: s ++ after.takeWhile isDecimalDigit).length := by
  cases hds : after.takeWhile isDecimalDigit with
  | nil => simp [exponentDigits, hds] at h
  | cons d ds =>
    simp only [exponentDigits, hds, numeral, Except.ok.injEq, Prod.mk.injEq] at h
    refine ⟨⟨List.cons_ne_nil _ _, fun x hx => ?_⟩, h.1.symm, h.2.symm⟩
    exact mem_takeWhile_imp (hds ▸ hx)

/-- The digits of an exponent are at least those that follow its sign. -/
theorem exponentDigits_length {mant s ds r : List Char} {mark : Char} {pos : Nat} {t : Token}
    {n : Nat} (hds : ∀ x ∈ ds, isDecimalDigit x = true)
    (h : exponentDigits mant mark s (ds ++ r) pos = .ok (t, n)) :
    (mant ++ mark :: s ++ ds).length ≤ n := by
  obtain ⟨-, -, rfl⟩ := exponentDigits_ok h
  have := length_le_takeWhile (List.prefix_append ds r) hds
  simp only [List.length_append, List.length_cons]
  omega

/-- After its mantissa a numeral ends, or goes on with an exponent. -/
theorem afterMantissa_sound {mant after : List Char} {real : Bool} {pos : Nat} {t : Token} {n : Nat}
    (h : afterMantissa mant real after pos = .ok (t, n)) (hm : IsMantissa mant)
    (hform : Numeral mant ⟨if real then .real else .integer, .decimal⟩) :
    ∃ sp r f, mant ++ after = sp ++ r ∧ n = sp.length ∧ Numeral sp f ∧
      t = ⟨.numericLiteral, String.ofList sp, pos, some f⟩ := by
  -- without an exponent the numeral is the mantissa
  have hend : numeral mant pos (if real then .real else .integer) .decimal = .ok (t, n) →
      ∃ sp r f, mant ++ after = sp ++ r ∧ n = sp.length ∧ Numeral sp f ∧
        t = ⟨.numericLiteral, String.ofList sp, pos, some f⟩ := fun h => by
    simp only [numeral, Except.ok.injEq, Prod.mk.injEq] at h
    exact ⟨mant, after, _, rfl, h.2.symm, hform, h.1.symm⟩
  cases after with
  | nil => exact hend h
  | cons x r =>
    by_cases hx : x = 'e' ∨ x = 'E'
    · rw [afterMantissa_mark hx, readExponent_eq] at h
      obtain ⟨hrun, rfl, rfl⟩ := exponentDigits_ok h
      have hsign : (exponentSign r).1 = [] ∨ (exponentSign r).1 = ['+'] ∨
          (exponentSign r).1 = ['-'] := by
        rcases exponentSign_cases r with ⟨-, h1⟩ | ⟨y, -, hy, h1⟩
        · exact .inl h1
        · rcases hy with rfl | rfl
          · exact .inr (.inl h1)
          · exact .inr (.inr h1)
      have hr : r = (exponentSign r).1 ++ (exponentSign r).2 := by
        rcases exponentSign_cases r with ⟨h2, h1⟩ | ⟨y, hy, -, h1⟩
        · rw [h1, h2]; rfl
        · rw [h1]; exact hy
      -- the characters after the mark are the sign, the digits, and what follows them
      have hsplit : ∀ s a : List Char, r = s ++ a → mant ++ x :: r =
          mant ++ x :: s ++ a.takeWhile isDecimalDigit ++ a.dropWhile isDecimalDigit := by
        rintro s a rfl
        simp
      exact ⟨_, _, _, hsplit _ _ hr, rfl, .exponent hm hx hsign hrun, rfl⟩
    · simp only [afterMantissa, if_neg hx] at h
      exact hend h

/-- A decimal numeral whose whole part is a whole part: a numeral of the form it is read as. -/
theorem readDecimal_sound {c : Char} {cs : List Char} {pos : Nat} {t : Token} {n : Nat}
    (hw : IsWhole (c :: cs.takeWhile isDecimalDigit)) (h : readDecimal c cs pos = .ok (t, n)) :
    ∃ sp r f, c :: cs = sp ++ r ∧ n = sp.length ∧ Numeral sp f ∧
      t = ⟨.numericLiteral, String.ofList sp, pos, some f⟩ := by
  have hcs : c :: cs = (c :: cs.takeWhile isDecimalDigit) ++ cs.dropWhile isDecimalDigit := by simp
  rw [readDecimal_eq] at h
  rcases mantissaOf_cases (c :: cs.takeWhile isDecimalDigit) (cs.dropWhile isDecimalDigit) with
    hm | ⟨d, r, hafter, hd, hm⟩
  · rw [hm] at h
    rw [hcs]
    exact afterMantissa_sound h (.inl hw) (.integer hw)
  · rw [hm] at h
    have hrun : IsRun isDecimalDigit (d :: r.takeWhile isDecimalDigit) :=
      ⟨List.cons_ne_nil _ _, fun x hx => by
        rcases List.mem_cons.1 hx with rfl | hx
        · exact hd
        · exact mem_takeWhile_imp hx⟩
    obtain ⟨sp, r', f, heq, hn, hnum, ht⟩ :=
      afterMantissa_sound h (.inr ⟨_, _, hw, hrun, rfl⟩) (.fraction hw hrun)
    refine ⟨sp, r', f, ?_, hn, hnum, ht⟩
    rw [hcs, hafter, ← heq]
    simp

/-- The numeral the scanner reads is a numeral of the form it is read as. -/
theorem readNumeral_sound {c : Char} {cs : List Char} {pos : Nat} {t : Token} {n : Nat}
    (hc : isDecimalDigit c = true) (h : readNumeral c cs pos = .ok (t, n)) :
    ∃ sp r f, c :: cs = sp ++ r ∧ n = sp.length ∧ Numeral sp f ∧
      t = ⟨.numericLiteral, String.ofList sp, pos, some f⟩ := by
  rcases readNumeral_cases h with ⟨rfl, r, rfl, hr⟩ | ⟨rfl, r, rfl, hr⟩ | ⟨h0, hdec⟩
  · obtain ⟨hne, rfl, rfl⟩ := readRadix_ok hr
    exact ⟨_, r.dropWhile isHexDigit, _, by simp, rfl,
      .hex ⟨hne, fun _ => mem_takeWhile_imp⟩, rfl⟩
  · obtain ⟨hne, rfl, rfl⟩ := readRadix_ok hr
    exact ⟨_, r.dropWhile isBinaryDigit, _, by simp, rfl,
      .binary ⟨hne, fun _ => mem_takeWhile_imp⟩, rfl⟩
  · refine readDecimal_sound ?_ hdec
    by_cases hc0 : c = '0'
    · -- a leading zero is followed by no digit, so it is the whole part
      subst hc0
      have hnil : cs.takeWhile isDecimalDigit = [] := by
        cases cs with
        | nil => rfl
        | cons d r => simp [(h0 rfl d rfl).2.2]
      rw [hnil]
      exact .inl rfl
    · refine .inr ⟨⟨List.cons_ne_nil _ _, fun x hx => ?_⟩, by simpa using hc0⟩
      rcases List.mem_cons.1 hx with rfl | hx
      · exact hc
      · exact mem_takeWhile_imp hx

/-! ### No numeral is longer than the one read -/

theorem afterMantissa_length {mant after : List Char} {real : Bool} {pos : Nat} {t : Token}
    {n : Nat} (h : afterMantissa mant real after pos = .ok (t, n)) : mant.length ≤ n := by
  cases after with
  | nil =>
    simp only [afterMantissa, numeral, Except.ok.injEq, Prod.mk.injEq] at h
    omega
  | cons x r =>
    by_cases hx : x = 'e' ∨ x = 'E'
    · rw [afterMantissa_mark hx, readExponent_eq] at h
      obtain ⟨-, -, rfl⟩ := exponentDigits_ok h
      simp
    · simp only [afterMantissa, if_neg hx, numeral, Except.ok.injEq, Prod.mk.injEq] at h
      omega

theorem mantissaOf_length (whole after : List Char) :
    whole.length ≤ (mantissaOf whole after).1.length := by
  rcases mantissaOf_cases whole after with hm | ⟨_, _, _, _, hm⟩ <;> rw [hm]
  simp

theorem readDecimal_length_whole {c : Char} {cs : List Char} {pos : Nat} {t : Token} {n : Nat}
    (h : readDecimal c cs pos = .ok (t, n)) : (c :: cs.takeWhile isDecimalDigit).length ≤ n := by
  rw [readDecimal_eq] at h
  exact Nat.le_trans (mantissaOf_length _ _) (afterMantissa_length h)

/-- A fraction after the whole part is read, with all its digits. -/
theorem readDecimal_length_fraction {c : Char} {ws fs r : List Char} {pos : Nat} {t : Token}
    {n : Nat} (hws : ∀ x ∈ ws, isDecimalDigit x = true) (hfs : IsRun isDecimalDigit fs)
    (h : readDecimal c (ws ++ '.' :: (fs ++ r)) pos = .ok (t, n)) :
    (c :: ws ++ '.' :: fs).length ≤ n := by
  have hdot : ∀ x ∈ ('.' :: (fs ++ r)).head?, isDecimalDigit x = false := fun x hx => by
    cases hx
    rfl
  obtain ⟨f, fs, rfl⟩ := List.exists_cons_of_ne_nil hfs.1
  have hf : isDecimalDigit f = true := hfs.2 f (by simp)
  have hfs' : ∀ x ∈ fs, isDecimalDigit x = true := fun x hx => hfs.2 x (by simp [hx])
  rw [readDecimal_eq, takeWhile_append_stop hws hdot, dropWhile_append_stop hws hdot] at h
  have hlen := afterMantissa_length h
  simp only [mantissaOf, List.cons_append, hf, if_true] at hlen
  have hrun := length_le_takeWhile (List.prefix_append fs r) hfs'
  simp only [List.length_cons, List.length_append] at hlen ⊢
  omega

theorem IsMantissa.exists_cons {m : List Char} (h : IsMantissa m) : ∃ c ms, m = c :: ms := by
  rcases h with hw | ⟨w, ds, hw, -, rfl⟩
  · obtain ⟨c, ws, rfl, -⟩ := hw.exists_cons
    exact ⟨c, ws, rfl⟩
  · obtain ⟨c, ws, rfl, -⟩ := hw.exists_cons
    exact ⟨c, ws ++ '.' :: ds, rfl⟩

/-- A mantissa followed by no digit and no dot is read as that mantissa. -/
theorem readDecimal_mantissa {c : Char} {m after : List Char} (pos : Nat)
    (hm : IsMantissa (c :: m)) (hafter : ∀ x ∈ after.head?, isDecimalDigit x = false ∧ x ≠ '.') :
    ∃ real, readDecimal c (m ++ after) pos = afterMantissa (c :: m) real after pos := by
  have hdigit : ∀ x ∈ after.head?, isDecimalDigit x = false := fun x hx => (hafter x hx).1
  rcases hm with hw | ⟨w, fs, hw, hfs, heq⟩
  · obtain ⟨_, ws, heq, -, hws, -⟩ := hw.exists_cons
    cases heq
    refine ⟨false, ?_⟩
    rw [readDecimal_eq, takeWhile_append_stop hws hdigit, dropWhile_append_stop hws hdigit,
      mantissaOf_whole fun x hx => (hafter x hx).2]
  · obtain ⟨c', ws, rfl, -, hws, -⟩ := hw.exists_cons
    simp only [List.cons_append, List.cons.injEq] at heq
    obtain ⟨rfl, rfl⟩ := heq
    have hdot : ∀ x ∈ ('.' :: (fs ++ after)).head?, isDecimalDigit x = false := fun x hx => by
      cases hx
      rfl
    refine ⟨true, ?_⟩
    rw [List.append_assoc, List.cons_append, readDecimal_eq, takeWhile_append_stop hws hdot,
      dropWhile_append_stop hws hdot, mantissaOf_fraction hfs hdigit]
    rfl

/-- An exponent after the mantissa is read, with its sign and all its digits. -/
theorem readDecimal_length_exponent {c e : Char} {m s ds r : List Char} {pos : Nat} {t : Token}
    {n : Nat} (hm : IsMantissa (c :: m)) (he : e = 'e' ∨ e = 'E')
    (hs : s = [] ∨ s = ['+'] ∨ s = ['-']) (hds : IsRun isDecimalDigit ds)
    (h : readDecimal c (m ++ e :: (s ++ (ds ++ r))) pos = .ok (t, n)) :
    (c :: m ++ e :: s ++ ds).length ≤ n := by
  have he' : isDecimalDigit e = false ∧ e ≠ '.' := by rcases he with rfl | rfl <;> decide
  have hafter : ∀ x ∈ (e :: (s ++ (ds ++ r))).head?, isDecimalDigit x = false ∧ x ≠ '.' := by
    intro x hx
    cases hx
    exact he'
  obtain ⟨real, hread⟩ := readDecimal_mantissa pos hm hafter
  have hhead : ∀ x ∈ (ds ++ r).head?, isDecimalDigit x = true := by
    obtain ⟨d, ds, rfl⟩ := List.exists_cons_of_ne_nil hds.1
    intro x hx
    simp only [List.cons_append, List.head?_cons, Option.mem_def, Option.some.injEq] at hx
    subst hx
    exact hds.2 _ (by simp)
  rw [hread, afterMantissa_mark he, readExponent_eq, exponentSign_append hs hhead] at h
  exact exponentDigits_length hds.2 h

/-- After `0` and a radix marker the numerals run over digits of the radix. -/
theorem Numeral.length_le_radix {m : Char} {ok : Char → Bool} {r w : List Char}
    {f : NumeralForm} (hm : ∀ rest f, Numeral ('0' :: m :: rest) f → IsRun ok rest)
    (hnum : Numeral w f) (hw : w <+: '0' :: m :: r) :
    w.length ≤ (['0', m] ++ r.takeWhile ok).length := by
  rcases List.prefix_cons_iff.1 hw with rfl | ⟨w₁, rfl, hw₁⟩
  · simp
  rcases List.prefix_cons_iff.1 hw₁ with rfl | ⟨w₂, rfl, hw₂⟩
  · simp
  have hrun := length_le_takeWhile hw₂ (hm w₂ f hnum).2
  simp only [List.length_cons, List.length_append, List.length_nil]
  omega

/-- No numeral at the start of the input is longer than the one the scanner reads there. -/
theorem readNumeral_longest {c : Char} {cs : List Char} {pos : Nat} {t : Token} {n : Nat}
    (h : readNumeral c cs pos = .ok (t, n)) {w : List Char} {f : NumeralForm}
    (hw : w <+: c :: cs) (hnum : Numeral w f) : w.length ≤ n := by
  rcases readNumeral_cases h with ⟨rfl, r, rfl, hr⟩ | ⟨rfl, r, rfl, hr⟩ | ⟨h0, hdec⟩
  · obtain ⟨-, -, rfl⟩ := readRadix_ok hr
    refine hnum.length_le_radix (fun rest f h => ?_) hw
    rcases h.zero_cons_cons with ⟨-, hrun⟩ | ⟨h, -⟩ | h | h | h
    · exact hrun
    all_goals exact absurd h (by decide)
  · obtain ⟨-, -, rfl⟩ := readRadix_ok hr
    refine hnum.length_le_radix (fun rest f h => ?_) hw
    rcases h.zero_cons_cons with ⟨h, -⟩ | ⟨-, hrun⟩ | h | h | h
    · exact absurd h (by decide)
    · exact hrun
    all_goals exact absurd h (by decide)
  · -- the scanner reads a decimal numeral, so no radix marker follows a leading zero
    cases hnum with
    | hex _ =>
      obtain ⟨rfl, hcs⟩ := List.cons_prefix_cons.1 hw
      obtain ⟨rest, rfl⟩ := hcs
      exact absurd rfl (h0 rfl 'x' rfl).1
    | binary _ =>
      obtain ⟨rfl, hcs⟩ := List.cons_prefix_cons.1 hw
      obtain ⟨rest, rfl⟩ := hcs
      exact absurd rfl (h0 rfl 'b' rfl).2.1
    | integer hW =>
      obtain ⟨_, ws, rfl, -, hws, -⟩ := hW.exists_cons
      obtain ⟨rfl, hcs⟩ := List.cons_prefix_cons.1 hw
      have hrun := length_le_takeWhile hcs hws
      have hlen := readDecimal_length_whole hdec
      simp only [List.length_cons] at hlen ⊢
      omega
    | fraction hW hfs =>
      obtain ⟨_, ws, rfl, -, hws, -⟩ := hW.exists_cons
      rw [List.cons_append] at hw
      obtain ⟨rfl, rest, rfl⟩ := List.cons_prefix_cons.1 hw
      rw [List.append_assoc, List.cons_append] at hdec
      exact readDecimal_length_fraction hws hfs hdec
    | exponent hm he hs hds =>
      obtain ⟨_, m, rfl⟩ := hm.exists_cons
      simp only [List.cons_append, List.append_assoc] at hw
      obtain ⟨rfl, rest, rfl⟩ := List.cons_prefix_cons.1 hw
      simp only [List.append_assoc, List.cons_append] at hdec
      have hlen := readDecimal_length_exponent hm he hs hds hdec
      simpa [List.append_assoc] using hlen

theorem takesLexeme_numeral {c : Char} {cs : List Char} {pos : Nat} {t : Token} {n : Nat}
    (hc : isDecimalDigit c = true) (h : readNumeral c cs pos = .ok (t, n)) :
    TakesLexeme (c :: cs) pos t n := by
  obtain ⟨sp, r, f, hcs, rfl, hnum, rfl⟩ := readNumeral_sound hc h
  refine ⟨sp, r, hcs, rfl, rfl, .numeral hnum, fun w t hw hlex => ?_⟩
  obtain ⟨cs', rfl, -⟩ := hlex.prefix_cons hw
  obtain ⟨f', hf'⟩ := hlex.numeral_of_isDecimalDigit hc
  exact readNumeral_longest h hw hf'

/-! ## Reading a token -/

/-- One read takes the longest lexeme at the start of the input and gives the token it spells. -/
theorem readToken_lexeme {c : Char} {cs : List Char} {pos : Nat} {t : Token} {n : Nat}
    (h : readToken c cs pos = .ok (t, n)) : TakesLexeme (c :: cs) pos t n := by
  unfold readToken at h
  split at h
  · exact takesLexeme_string ‹_› h
  · rename_i hq
    split at h
    · cases h
      exact takesLexeme_word pos ‹_›
    · rename_i hw
      split at h
      · exact takesLexeme_numeral ‹_› h
      · rename_i hd
        exact takesLexeme_symbol (Bool.eq_false_iff.2 hq) (Bool.eq_false_iff.2 hw)
          (Bool.eq_false_iff.2 hd) h

/-- No lexeme spells the end of input. -/
theorem Lexeme.kind_ne_eof {sp : List Char} {t : Token} (h : Lexeme sp t) : t.kind ≠ .eof := by
  cases h with
  | single hk => exact singleKind_ne_eof hk
  | pair hk => exact pairKind_ne_eof hk
  | _ => nofun

/-! ## Calls of the scanner -/

/-- `Tiling i l us`: the characters `l`, the first at offset `i`, are blanks and the spans of the
tokens `us` in turn, then blanks to the end; each token stands at the offset of its span and
spells the longest lexeme there. -/
inductive Tiling : Nat → List Char → List Token → Prop
  /-- Only blanks are left. -/
  | blanks {i : Nat} {w : List Char} : (∀ c ∈ w, isBlank c = true) → Tiling i w []
  /-- Blanks, the span of a token, and the rest. -/
  | token {i : Nat} {w sp l : List Char} {t : Token} {us : List Token} :
      (∀ c ∈ w, isBlank c = true) → t.position = i + w.length → Lexeme sp t →
      Longest sp (sp ++ l) → Tiling (i + w.length + sp.length) l us →
      Tiling i (w ++ (sp ++ l)) (t :: us)

namespace Scanner

/-- A call that answers a token other than the end skips blanks, takes the longest lexeme after
them, and moves past both. -/
theorem next_token {s s' : Scanner} {t : Token} (h : s.next = (.ok t, s')) (hk : t.kind ≠ .eof) :
    ∃ w sp, s.rest = w ++ (sp ++ s'.rest) ∧ (∀ c ∈ w, isBlank c = true) ∧
      t.position = s.index + w.length ∧ s'.index = t.position + sp.length ∧
      s'.size = s.size ∧ s'.exhausted = s.exhausted ∧ Lexeme sp t ∧ Longest sp (sp ++ s'.rest) := by
  simp only [next] at h
  split at h
  · exact absurd (congrArg Token.kind (Except.ok.inj (Prod.mk.inj h).1)).symm hk
  · rename_i c cs hcs
    split at h
    · rename_i t' n hread
      obtain ⟨sp, r, heq, rfl, hpos, hlex, hlong⟩ := readToken_lexeme hread
      obtain ⟨ht, rfl⟩ := Prod.mk.inj h
      cases Except.ok.inj ht
      have hrest : (c :: cs).drop sp.length = r := by rw [heq]; simp
      refine ⟨s.rest.takeWhile isBlank, sp, ?_, fun _ => mem_takeWhile_imp, hpos, by simp [hpos],
        rfl, rfl, hlex, by rwa [hrest, ← heq]⟩
      rw [hrest, ← heq, ← hcs, List.takeWhile_append_dropWhile]
    · cases (Prod.mk.inj h).1

/-- The call that answers the end finds only blanks left, and answers the end where the input
ends. -/
theorem next_eof {s s' : Scanner} {t : Token} (h : s.next = (.ok t, s')) (hk : t.kind = .eof) :
    (∀ c ∈ s.rest, isBlank c = true) ∧ t = ⟨.eof, "", s.index + s.rest.length, none⟩ ∧
      s' = { s with rest := [], index := s.index + s.rest.length, exhausted := true } := by
  simp only [next] at h
  split at h
  · rename_i hnil
    have hall : s.rest.takeWhile isBlank = s.rest := by
      rw [← List.append_nil (s.rest.takeWhile isBlank), ← hnil, List.takeWhile_append_dropWhile]
    obtain ⟨ht, rfl⟩ := Prod.mk.inj h
    cases Except.ok.inj ht
    refine ⟨fun c hc => mem_takeWhile_imp (hall ▸ hc), ?_, ?_⟩ <;> rw [hall]
  · rename_i c cs _
    split at h
    · rename_i t' n hread
      obtain ⟨sp, r, -, -, -, hlex, -⟩ := readToken_lexeme hread
      cases Except.ok.inj (Prod.mk.inj h).1
      exact absurd hk hlex.kind_ne_eof
    · cases (Prod.mk.inj h).1

/-- Once the input is used up and the end answered, a call answers the end again and leaves the
scanner as it is. -/
theorem next_of_exhausted (s : Scanner) (hr : s.rest = []) (hx : s.exhausted = true) :
    s.next = (.ok ⟨.eof, "", s.index, none⟩, s) := by
  obtain ⟨rest, index, size, exhausted⟩ := s
  subst hr hx
  rfl

/-- Every run of calls comes to a call that faults or answers the end. -/
theorem exists_steps_end (s : Scanner) :
    ∃ us s', Steps s us s' ∧
      ((∃ e s'', s'.next = (.error e, s'')) ∨ (∃ t s'', s'.next = (.ok t, s'') ∧ t.kind = .eof)) := by
  rcases hn : s.next with ⟨e | t, s₁⟩
  · exact ⟨[], s, .nil s, .inl ⟨e, s₁, hn⟩⟩
  · by_cases hk : t.kind = .eof
    · exact ⟨[], s, .nil s, .inr ⟨t, s₁, hn, hk⟩⟩
    · have hlt := next_rest_length hn hk
      obtain ⟨us, s', hs, hend⟩ := exists_steps_end s₁
      exact ⟨t :: us, s', .cons hn hk hs, hend⟩
termination_by s.rest.length

/-- Calls move through the input: the offset of what is left grows as much as it shrinks. -/
theorem Steps.offset {s s' : Scanner} {us : List Token} (h : Steps s us s') :
    s'.index + s'.rest.length = s.index + s.rest.length ∧ s'.size = s.size ∧
      s'.exhausted = s.exhausted := by
  induction h with
  | nil => exact ⟨rfl, rfl, rfl⟩
  | cons hn hk _ ih =>
    obtain ⟨w, sp, hrest, -, hpos, hidx, hsize, hx, -⟩ := next_token hn hk
    refine ⟨?_, ih.2.1.trans hsize, ih.2.2.trans hx⟩
    rw [ih.1, hidx, hpos, hrest]
    simp only [List.length_append]
    omega

/-- The calls of a run cut what they read into blanks and longest lexemes, when only blanks are
left after them. -/
theorem Steps.tiling {s s' : Scanner} {us : List Token} (h : Steps s us s')
    (hend : ∀ c ∈ s'.rest, isBlank c = true) : Tiling s.index s.rest us := by
  induction h with
  | nil => exact .blanks hend
  | cons hn hk _ ih =>
    obtain ⟨w, sp, hrest, hw, hpos, hidx, -, -, hlex, hlong⟩ := next_token hn hk
    rw [hrest]
    refine .token hw hpos hlex hlong ?_
    rw [← hpos, ← hidx]
    exact ih hend

/-- The run over a source text answers the tokens of a run of calls, then the fault, or the end
of input at the end of the text. -/
theorem run_ofString_steps (src : String) :
    ∃ us s', Steps (ofString src) us s' ∧
      ((∃ e s'', (ofString src).run = (us, some e, s'')) ∨
        ∃ s'', (ofString src).run = (us ++ [⟨.eof, "", src.length, none⟩], none, s'')) := by
  obtain ⟨us, s', hsteps, hend⟩ := exists_steps_end (ofString src)
  have hlen := hsteps.length_le
  obtain ⟨hoff, -, -⟩ := hsteps.offset
  simp only [ofString, String.length_toList, Nat.zero_add] at hlen hoff
  -- the run's fuel, one call more than there are characters, is enough
  have hfuel : us.length < (ofString src).rest.length + 1 := by
    simp only [ofString, String.length_toList]
    omega
  refine ⟨us, s', hsteps, ?_⟩
  rcases hend with ⟨e, s'', hn⟩ | ⟨t, s'', hn, hk⟩
  · refine .inl ⟨e, s'', ?_⟩
    unfold run
    simpa using runFrom_of_steps_error hsteps hn _ [] hfuel
  · obtain ⟨-, rfl, -⟩ := next_eof hn hk
    rw [hoff] at hn
    refine .inr ⟨s'', ?_⟩
    unfold run
    simpa using runFrom_of_steps hsteps hn rfl _ [] hfuel

/-- The run over a source text. At most one call per character answers a token other than the
end, and the call after them faults or answers the end, at the end of the text; after the end
every call answers the end again and leaves the scanner as it is. When the run reaches the end,
the text is cut into blanks and the longest lexemes there, which the tokens spell at their
offsets. -/
theorem run_ofString_tiles (src : String) :
    ∃ us s', Steps (ofString src) us s' ∧ us.length ≤ src.length ∧
      ((∃ e s'', s'.next = (.error e, s'') ∧ (ofString src).run = (us, some e, s'')) ∨
        (∃ s'', s'.next = (.ok ⟨.eof, "", src.length, none⟩, s'') ∧
          (ofString src).run = (us ++ [⟨.eof, "", src.length, none⟩], none, s'') ∧
          s''.next = (.ok ⟨.eof, "", src.length, none⟩, s'') ∧ Tiling 0 src.toList us)) := by
  obtain ⟨us, s', hsteps, hend⟩ := exists_steps_end (ofString src)
  have hlen := hsteps.length_le
  obtain ⟨hoff, -, hx⟩ := hsteps.offset
  simp only [ofString, String.length_toList, Nat.zero_add] at hlen hoff hx
  -- the run's fuel, one call more than there are characters, is enough
  have hfuel : us.length < (ofString src).rest.length + 1 := by
    simp only [ofString, String.length_toList]
    omega
  refine ⟨us, s', hsteps, by omega, ?_⟩
  rcases hend with ⟨e, s'', hn⟩ | ⟨t, s'', hn, hk⟩
  · refine .inl ⟨e, s'', hn, ?_⟩
    unfold run
    simpa using runFrom_of_steps_error hsteps hn _ [] hfuel
  · obtain ⟨hblank, rfl, rfl⟩ := next_eof hn hk
    rw [hoff] at hn
    refine .inr ⟨_, hn, ?_, next_of_exhausted _ rfl rfl, ?_⟩
    · unfold run
      simpa using runFrom_of_steps hsteps hn rfl _ [] hfuel
    · simpa [ofString] using hsteps.tiling hblank

end Scanner

end Scriptlet.Syntax
