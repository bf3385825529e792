import Scriptlet.Proofs.Printed

/-!
# Scanning, call by call

The scanner is called until it answers the end of input. `Scanner.Steps s us s'` says that the
calls from `s` answer the tokens `us`, none of them the end, and leave the scanner at `s'`; each
such call reads at least one character, so the run over a text of `n` characters is over after
at most `n + 1` calls, and ends with the tokens and the end of input.

`Lexes w us F` says that the scanner reads the characters `w` as the tokens `us`, wherever `w`
stands in the input, whenever what follows `w` satisfies `F`. The scanner takes the longest token
it can, so the tokens of a piece of text depend on the character after it, and `F` says what the
piece needs there. Pieces read one after the other read as their tokens one after the other
(`Lexes.append`), and blanks before a token are skipped by the call that reads it
(`Lexes.blank`).

## Main statements

* `Scanner.Steps.length_le`: the calls read at least one character each.
* `Scanner.runFrom_of_steps`, `TokenStream.ofString_of_steps`: a text read to its end is the
  stream of its tokens, ended well.
* `lexes_word`, `lexes_numeral`, `lexes_string`, `lexes_symbol`, `lexes_pair`: one token each.
-/

set_option autoImplicit false

namespace Scriptlet.Syntax

/-! ## Classes of characters -/

theorem isQuote_eq_false_of_isWordStart {c : Char} (h : isWordStart c = true) :
    isQuote c = false := by
  simp [isWordStart, isQuote, Char.le_def, UInt32.le_iff_toNat_le, ← Char.toNat_inj] at *
  omega

theorem isBlank_eq_false_of_isWordStart {c : Char} (h : isWordStart c = true) :
    isBlank c = false := by
  simp [isWordStart, isBlank, Char.le_def, UInt32.le_iff_toNat_le, ← Char.toNat_inj] at *
  omega

theorem isWordStart_eq_false_of_isDecimalDigit {c : Char} (h : isDecimalDigit c = true) :
    isWordStart c = false := by
  simp [isWordStart, isDecimalDigit, Char.le_def, UInt32.le_iff_toNat_le, ← Char.toNat_inj] at *
  omega

theorem isQuote_eq_false_of_isDecimalDigit {c : Char} (h : isDecimalDigit c = true) :
    isQuote c = false := by
  simp [isDecimalDigit, isQuote, Char.le_def, UInt32.le_iff_toNat_le, ← Char.toNat_inj] at *
  omega

theorem isBlank_eq_false_of_isDecimalDigit {c : Char} (h : isDecimalDigit c = true) :
    isBlank c = false := by
  simp [isDecimalDigit, isBlank, Char.le_def, UInt32.le_iff_toNat_le, ← Char.toNat_inj] at *
  omega

theorem isWordChar_of_isDecimalDigit {c : Char} (h : isDecimalDigit c = true) :
    isWordChar c = true := by
  simp [isWordChar, h]

theorem isWordChar_of_isHexDigit {c : Char} (h : isHexDigit c = true) : isWordChar c = true := by
  simp [isHexDigit, isWordChar, isWordStart, isDecimalDigit, Char.le_def,
    UInt32.le_iff_toNat_le] at *
  omega

theorem isWordChar_of_isBinaryDigit {c : Char} (h : isBinaryDigit c = true) :
    isWordChar c = true := by
  simp only [isBinaryDigit, decide_eq_true_eq] at h
  rcases h with rfl | rfl <;> decide

/-! ## Every token read takes a character -/

theorem numeral_eq_ok {cs : List Char} {pos : Nat} {cls : NumeralClass} {style : NumeralStyle}
    {t : Token} {n : Nat} (h : numeral cs pos cls style = .ok (t, n)) : n = cs.length := by
  simp only [numeral, Except.ok.injEq, Prod.mk.injEq] at h
  exact h.2.symm

theorem readRadix_length_pos {ok : Char → Bool} {m : List Char} {style : NumeralStyle}
    {rest : List Char} {pos : Nat} {t : Token} {n : Nat}
    (h : readRadix ok m style rest pos = .ok (t, n)) : 0 < n := by
  unfold readRadix at h
  split at h
  · cases h
  · rename_i hds
    rw [numeral_eq_ok h, List.length_append]
    have := List.length_pos_iff.2 hds
    omega

theorem readExponent_length_pos {mant : List Char} {mark : Char} {rest : List Char} {pos : Nat}
    {t : Token} {n : Nat} (h : readExponent mant mark rest pos = .ok (t, n)) : 0 < n := by
  simp only [readExponent] at h
  split at h
  · cases h
  · rw [numeral_eq_ok h]
    simp only [List.length_append, List.length_cons]
    omega

theorem readDecimal_length_pos {c : Char} {cs : List Char} {pos : Nat} {t : Token} {n : Nat}
    (h : readDecimal c cs pos = .ok (t, n)) : 0 < n := by
  simp only [readDecimal] at h
  have hmant : ∀ {m : List Char} {cls : NumeralClass}, m ≠ [] →
      numeral m pos cls .decimal = .ok (t, n) → 0 < n := fun hm h => by
    rw [numeral_eq_ok h]
    exact List.length_pos_of_ne_nil hm
  -- the mantissa starts with `c`, whichever way it ends
  split at h
  · split at h
    · exact readExponent_length_pos h
    · refine hmant ?_ h
      split
      · split <;> simp
      · simp
  · refine hmant ?_ h
    split
    · split <;> simp
    · simp

theorem readNumeral_length_pos {c : Char} {cs : List Char} {pos : Nat} {t : Token} {n : Nat}
    (h : readNumeral c cs pos = .ok (t, n)) : 0 < n := by
  unfold readNumeral at h
  split at h
  · split at h
    · exact readRadix_length_pos h
    · exact readRadix_length_pos h
    · split at h
      · cases h
      · exact readDecimal_length_pos h
    · exact readDecimal_length_pos h
  · exact readDecimal_length_pos h

/-- A symbol read at the end of the input is one character of a one-character kind. -/
theorem readSymbol_nil_eq_ok {c : Char} {pos : Nat} {t : Token} {n : Nat} :
    readSymbol c [] pos = .ok (t, n) ↔
      ∃ k, singleKind c = some k ∧ t = ⟨k, String.singleton c, pos, none⟩ ∧ n = 1 := by
  simp only [readSymbol]
  cases hs : singleKind c with
  | none => simp
  | some k =>
    simp only [Except.ok.injEq, Prod.mk.injEq, Option.some.injEq]
    constructor
    · rintro ⟨rfl, rfl⟩
      exact ⟨k, rfl, rfl, rfl⟩
    · rintro ⟨_, rfl, rfl, rfl⟩
      exact ⟨rfl, rfl⟩

/-- Before a character that does not pair with it, a symbol reads as at the end of the input. -/
theorem readSymbol_of_pairKind_none {c d : Char} {cs : List Char} {pos : Nat}
    (hp : pairKind c d = none) : readSymbol c (d :: cs) pos = readSymbol c [] pos := by
  simp only [readSymbol, hp]

theorem readSymbol_length_pos {c : Char} {cs : List Char} {pos : Nat} {t : Token} {n : Nat}
    (h : readSymbol c cs pos = .ok (t, n)) : 0 < n := by
  -- one character, or two for a two-character operator
  have hsingle : ∀ {t : Token} {n : Nat}, readSymbol c [] pos = .ok (t, n) → 0 < n := fun h => by
    obtain ⟨_, _, _, rfl⟩ := readSymbol_nil_eq_ok.1 h
    exact Nat.one_pos
  cases cs with
  | nil => exact hsingle h
  | cons d r =>
    cases hp : pairKind c d with
    | none =>
      rw [readSymbol_of_pairKind_none hp] at h
      exact hsingle h
    | some k =>
      simp only [readSymbol, hp, Except.ok.injEq, Prod.mk.injEq] at h
      omega

/-- A token that is read takes at least one character. -/
theorem readToken_length_pos {c : Char} {cs : List Char} {pos : Nat} {t : Token} {n : Nat}
    (h : readToken c cs pos = .ok (t, n)) : 0 < n := by
  unfold readToken at h
  split at h
  · simp only [readString] at h
    split at h
    · cases congrArg Prod.snd (Except.ok.inj h)
      omega
    · cases h
  · split at h
    · cases congrArg Prod.snd (Except.ok.inj h)
      simp
    · split at h
      · exact readNumeral_length_pos h
      · exact readSymbol_length_pos h

/-! ## Runs of calls -/

namespace Scanner

/-- The calls of `next` from `s` answer the tokens `us`, none of them the end of input, and leave
the scanner at `s'`. -/
inductive Steps : Scanner → List Token → Scanner → Prop
  /-- No call at all. -/
  | nil (s : Scanner) : Steps s [] s
  /-- A call that answers a token other than the end, then the calls after it. -/
  | cons {s s₁ s₂ : Scanner} {t : Token} {us : List Token} :
      s.next = (.ok t, s₁) → t.kind ≠ .eof → Steps s₁ us s₂ → Steps s (t :: us) s₂

theorem Steps.append {s s₁ s₂ : Scanner} {us vs : List Token} (h₁ : Steps s us s₁)
    (h₂ : Steps s₁ vs s₂) : Steps s (us ++ vs) s₂ := by
  induction h₁ with
  | nil => exact h₂
  | cons hn hk _ ih => exact .cons hn hk (ih h₂)

/-- A call that answers a token other than the end reads at least one character. -/
theorem next_rest_length {s s' : Scanner} {t : Token} (h : s.next = (.ok t, s'))
    (ht : t.kind ≠ .eof) : s'.rest.length < s.rest.length := by
  have hdrop : (s.rest.dropWhile isBlank).length ≤ s.rest.length :=
    (List.dropWhile_sublist isBlank).length_le
  simp only [next] at h
  split at h
  · exact absurd (congrArg Token.kind (Except.ok.inj (Prod.mk.inj h).1)).symm ht
  · rename_i c cs hcs
    rw [hcs] at hdrop
    split at h
    · rename_i t' n hread
      have hn := readToken_length_pos hread
      rw [← (Prod.mk.inj h).2]
      simp only [List.length_drop, List.length_cons] at hdrop ⊢
      omega
    · cases (Prod.mk.inj h).1

/-- Every call before the end reads a character, so there are no more calls than characters. -/
theorem Steps.length_le {s s' : Scanner} {us : List Token} (h : Steps s us s') :
    us.length + s'.rest.length ≤ s.rest.length := by
  induction h with
  | nil => simp
  | cons hn hk _ ih =>
    have := next_rest_length hn hk
    simp only [List.length_cons]
    omega

/-- At the end of the input a call answers the end, where the input ends. -/
theorem next_nil (i n : Nat) (x : Bool) :
    next ⟨[], i, n, x⟩ = (.ok ⟨.eof, "", i, none⟩, ⟨[], i, n, true⟩) := rfl

/-- Calls that answer `us` and then the end of input make the run, given a call for each. -/
theorem runFrom_of_steps {s s' s'' : Scanner} {us : List Token} {e : Token} (h : Steps s us s')
    (he : s'.next = (.ok e, s'')) (hk : e.kind = .eof) :
    ∀ (fuel : Nat) (acc : List Token), us.length < fuel →
      runFrom fuel acc s = (acc.reverse ++ us ++ [e], none, s'') := by
  induction h with
  | nil =>
    intro fuel acc hf
    obtain ⟨fuel, rfl⟩ : ∃ f, fuel = f + 1 := ⟨fuel - 1, by simp at hf; omega⟩
    simp [runFrom, he, hk]
  | cons hn hk' _ ih =>
    intro fuel acc hf
    obtain ⟨fuel, rfl⟩ : ∃ f, fuel = f + 1 := ⟨fuel - 1, by simp at hf; omega⟩
    simp only [List.length_cons] at hf
    simp [runFrom, hn, hk', ih he fuel _ (by omega)]

/-- Calls that answer `us` and then a fault make the run, given a call for each. -/
theorem runFrom_of_steps_error {s s' s'' : Scanner} {us : List Token} {e : LexError}
    (h : Steps s us s') (he : s'.next = (.error e, s'')) :
    ∀ (fuel : Nat) (acc : List Token), us.length < fuel →
      runFrom fuel acc s = (acc.reverse ++ us, some e, s'') := by
  induction h with
  | nil =>
    intro fuel acc hf
    obtain ⟨fuel, rfl⟩ : ∃ f, fuel = f + 1 := ⟨fuel - 1, by simp at hf; omega⟩
    simp [runFrom, he]
  | cons hn hk' _ ih =>
    intro fuel acc hf
    obtain ⟨fuel, rfl⟩ : ∃ f, fuel = f + 1 := ⟨fuel - 1, by simp at hf; omega⟩
    simp only [List.length_cons] at hf
    simp [runFrom, hn, hk', ih he fuel _ (by omega)]

end Scanner

/-- A text whose characters the calls read to the end is the stream of their tokens, ended by the
end of input at the end of the text. -/
theorem TokenStream.ofString_of_steps {src : String} {us : List Token}
    (h : Scanner.Steps (Scanner.ofString src) us ⟨[], src.length, src.length, false⟩) :
    TokenStream.ofString src = ⟨us, .ok ⟨.eof, "", src.length, none⟩⟩ := by
  have hlen := h.length_le
  simp only [Scanner.ofString, List.length_nil, Nat.add_zero, String.length_toList] at hlen
  have hrun := Scanner.runFrom_of_steps h (Scanner.next_nil _ _ _) rfl (src.length + 1) []
    (by omega)
  simp only [TokenStream.ofString, Scanner.run, Scanner.ofString, String.length_toList] at hrun ⊢
  rw [hrun]
  simp

/-! ## Pieces of text -/

/-- Whether `rest` can follow a name or a numeral without continuing it: it starts with no
letter, digit, `_` or `.`. -/
def Separated (rest : List Char) : Prop := ∀ c ∈ rest.head?, isWordChar c = false ∧ c ≠ '.'

/-- The scanner reads the characters `w`, wherever they stand, as tokens that are `us` but for
their offsets, when what follows `w` satisfies `F`. -/
def Lexes (w : List Char) (us : List Token) (F : List Char → Prop) : Prop :=
  ∀ (rest : List Char) (i n : Nat), F rest →
    ∃ vs, vs.map Token.erase = us ∧
      Scanner.Steps ⟨w ++ rest, i, n, false⟩ vs ⟨rest, i + w.length, n, false⟩

namespace Lexes

variable {w w₁ w₂ : List Char} {u : Token} {us us₁ us₂ : List Token} {F F₁ F₂ G : List Char → Prop}

theorem nil : Lexes [] [] F := fun rest i n _ =>
  ⟨[], rfl, by simpa using Scanner.Steps.nil _⟩

theorem mono (h : Lexes w us F) (hG : ∀ r, G r → F r) : Lexes w us G :=
  fun rest i n hr => h rest i n (hG rest hr)

/-- Two pieces in a row, when what follows the second lets the first end before it. -/
theorem append (h₁ : Lexes w₁ us₁ F₁) (h₂ : Lexes w₂ us₂ F₂) (h : ∀ r, F₂ r → F₁ (w₂ ++ r)) :
    Lexes (w₁ ++ w₂) (us₁ ++ us₂) F₂ := by
  intro rest i n hr
  obtain ⟨vs₁, hvs₁, hs₁⟩ := h₁ (w₂ ++ rest) i n (h rest hr)
  obtain ⟨vs₂, hvs₂, hs₂⟩ := h₂ rest (i + w₁.length) n hr
  refine ⟨vs₁ ++ vs₂, by simp [hvs₁, hvs₂], ?_⟩
  simpa [List.append_assoc, Nat.add_assoc] using hs₁.append hs₂

/-- A blank before a piece is skipped by the call that reads the piece's first token. -/
theorem blank {c : Char} (hc : isBlank c = true) (h : Lexes w (u :: us) F) :
    Lexes (c :: w) (u :: us) F := by
  intro rest i n hr
  obtain ⟨vs, hvs, hs⟩ := h rest (i + 1) n hr
  refine ⟨vs, hvs, ?_⟩
  -- the first call skips `c` and reads what it would read one character later
  have hnext : Scanner.next ⟨c :: (w ++ rest), i, n, false⟩ =
      Scanner.next ⟨w ++ rest, i + 1, n, false⟩ := by
    have hpos : i + ((w ++ rest).takeWhile isBlank).length + 1 =
        i + 1 + ((w ++ rest).takeWhile isBlank).length := by omega
    simp only [Scanner.next, List.takeWhile_cons_of_pos hc, List.dropWhile_cons_of_pos hc,
      List.length_cons, ← Nat.add_assoc, hpos]
  obtain ⟨v, vs, rfl, -, -⟩ := List.map_eq_cons_iff.1 hvs
  cases hs with
  | cons hn hk hrest =>
    simp only [List.cons_append, List.length_cons]
    rw [show i + (w.length + 1) = i + 1 + w.length by omega]
    exact .cons (hnext.trans hn) hk hrest

/-- A piece of one token, read by one call from its first character. -/
theorem token {c : Char} {cs : List Char} (hc : isBlank c = false) (hu : u.kind ≠ .eof)
    (hread : ∀ rest pos, F rest →
      ∃ t, t.erase = u ∧ readToken c (cs ++ rest) pos = .ok (t, cs.length + 1)) :
    Lexes (c :: cs) [u] F := by
  intro rest i n hr
  obtain ⟨t, ht, hread⟩ := hread rest i hr
  refine ⟨[t], by simp [ht], .cons ?_ (by rwa [Token.kind_eq_of_erase ht]) (.nil _)⟩
  have hc' : ¬isBlank c = true := by simp [hc]
  simp only [Scanner.next, List.cons_append, List.takeWhile_cons_of_neg hc',
    List.dropWhile_cons_of_neg hc', List.length_nil, Nat.add_zero, hread, List.length_cons]
  simp

end Lexes

/-! ## One token each -/

theorem takeWhile_append_stop {p : Char → Bool} {ds rest : List Char}
    (hds : ∀ d ∈ ds, p d = true) (hr : ∀ c ∈ rest.head?, p c = false) :
    (ds ++ rest).takeWhile p = ds := by
  rw [List.takeWhile_append_of_pos hds]
  cases rest with
  | nil => simp
  | cons c r => simp [List.takeWhile_cons_of_neg, hr c rfl]

theorem dropWhile_append_stop {p : Char → Bool} {ds rest : List Char}
    (hds : ∀ d ∈ ds, p d = true) (hr : ∀ c ∈ rest.head?, p c = false) :
    (ds ++ rest).dropWhile p = rest := by
  rw [List.dropWhile_append_of_pos hds]
  cases rest with
  | nil => simp
  | cons c r => simp [List.dropWhile_cons_of_neg, hr c rfl]

/-- A word: a letter or `_`, then letters, digits and `_`, up to a character that goes on with no
word. -/
theorem lexes_word {c : Char} {cs : List Char} (hc : isWordStart c = true)
    (hcs : ∀ d ∈ cs, isWordChar d = true) :
    Lexes (c :: cs) [Token.plain .identifier (String.ofList (c :: cs))]
      (fun r => ∀ d ∈ r.head?, isWordChar d = false) := by
  refine Lexes.token (isBlank_eq_false_of_isWordStart hc) (by simp [Token.plain])
    (fun rest pos hrest => ⟨⟨.identifier, String.ofList (c :: cs), pos, none⟩, rfl, ?_⟩)
  simp only [readToken, isQuote_eq_false_of_isWordStart hc, hc, takeWhile_append_stop hcs hrest,
    Bool.false_eq_true, if_false, if_true, List.length_cons]

/-- A string: its body between two of a quote that does not occur in it. -/
theorem lexes_string {q : Char} {text : String} (hq : isQuote q = true) (hnot : q ∉ text.toList) :
    Lexes (q :: (text.toList ++ [q])) [Token.plain .stringLiteral text] (fun _ => True) := by
  have hb : isBlank q = false := by
    simp only [isQuote, decide_eq_true_eq] at hq
    rcases hq with rfl | rfl | rfl <;> decide
  refine Lexes.token hb (by simp [Token.plain])
    (fun rest pos _ => ⟨⟨.stringLiteral, text, pos, none⟩, rfl, ?_⟩)
  have hbody : (text.toList ++ [q] ++ rest).takeWhile (· ≠ q) = text.toList := by
    rw [List.append_assoc, List.takeWhile_append_of_pos (fun d hd => by
      have : d ≠ q := fun h => hnot (h ▸ hd)
      simpa using this)]
    simp
  simp only [readToken, hq, if_true, readString, hbody, List.length_append, List.length_cons,
    List.length_nil, String.ofList_toList]
  simp only [if_pos (show text.toList.length < text.toList.length + 1 + rest.length by omega)]

/-- The kinds of the one-character tokens, none of them the end of input. -/
theorem singleKind_ne_eof {c : Char} {k : TokenKind} (h : singleKind c = some k) : k ≠ .eof := by
  unfold singleKind at h
  split at h <;> cases h <;> decide

theorem pairKind_ne_eof {c d : Char} {k : TokenKind} (h : pairKind c d = some k) : k ≠ .eof := by
  unfold pairKind at h
  split at h <;> cases h <;> decide

/-- A one-character symbol, when the next character makes no two-character operator with it. -/
theorem lexes_symbol {c : Char} {k : TokenKind} (hk : singleKind c = some k)
    (hq : isQuote c = false) (hw : isWordStart c = false) (hd : isDecimalDigit c = false)
    (hb : isBlank c = false) :
    Lexes [c] [Token.plain k (String.singleton c)] (fun r => ∀ d ∈ r.head?, pairKind c d = none) := by
  refine Lexes.token hb (singleKind_ne_eof hk)
    (fun rest pos hrest => ⟨⟨k, String.singleton c, pos, none⟩, rfl, ?_⟩)
  simp only [readToken, hq, hw, hd, Bool.false_eq_true, if_false, List.nil_append, readSymbol]
  cases rest with
  | nil => simp [hk]
  | cons d r => simp [hrest d rfl, hk]

/-- A two-character operator. -/
theorem lexes_pair {c d : Char} {k : TokenKind} (hk : pairKind c d = some k)
    (hq : isQuote c = false) (hw : isWordStart c = false) (hd : isDecimalDigit c = false)
    (hb : isBlank c = false) :
    Lexes [c, d] [Token.plain k (String.ofList [c, d])] (fun _ => True) := by
  refine Lexes.token hb (pairKind_ne_eof hk)
    (fun rest pos _ => ⟨⟨k, String.ofList [c, d], pos, none⟩, rfl, ?_⟩)
  simp [readToken, hq, hw, hd, readSymbol, hk]

/-! ## Numerals -/

/-- How a decimal numeral goes on after its whole part `whole`: a fraction when a dot is followed
by a digit. The mantissa, whether it is a real, and what follows it. -/
def mantissaOf (whole after : List Char) : List Char × Bool × List Char :=
  match after with
  | '.' :: d :: r =>
    if isDecimalDigit d then
      (whole ++ '.' :: d :: r.takeWhile isDecimalDigit, true, r.dropWhile isDecimalDigit)
    else (whole, false, after)
  | _ => (whole, false, after)

/-- How a decimal numeral ends after its mantissa `mant`: with an exponent when `e` or `E`
follows. -/
def afterMantissa (mant : List Char) (real : Bool) (after : List Char) (pos : Nat) : Read :=
  match after with
  | e :: r =>
    if e = 'e' ∨ e = 'E' then readExponent mant e r pos
    else numeral mant pos (if real then .real else .integer) .decimal
  | [] => numeral mant pos (if real then .real else .integer) .decimal

/-- A decimal numeral is its whole part, its mantissa, then what follows the mantissa. -/
theorem readDecimal_eq (c : Char) (cs : List Char) (pos : Nat) :
    readDecimal c cs pos =
      afterMantissa (mantissaOf (c :: cs.takeWhile isDecimalDigit) (cs.dropWhile isDecimalDigit)).1
        (mantissaOf (c :: cs.takeWhile isDecimalDigit) (cs.dropWhile isDecimalDigit)).2.1
        (mantissaOf (c :: cs.takeWhile isDecimalDigit) (cs.dropWhile isDecimalDigit)).2.2 pos :=
  rfl

theorem mantissaOf_whole {whole after : List Char} (h : ∀ d ∈ after.head?, d ≠ '.') :
    mantissaOf whole after = (whole, false, after) := by
  unfold mantissaOf
  split
  · exact absurd rfl (h '.' (by simp))
  · rfl

theorem mantissaOf_fraction {whole fs after : List Char} (hfs : IsRun isDecimalDigit fs)
    (hafter : ∀ d ∈ after.head?, isDecimalDigit d = false) :
    mantissaOf whole ('.' :: (fs ++ after)) = (whole ++ '.' :: fs, true, after) := by
  obtain ⟨f, fs, rfl⟩ := List.exists_cons_of_ne_nil hfs.1
  have hf : isDecimalDigit f = true := hfs.2 f (by simp)
  have hfs' : ∀ d ∈ fs, isDecimalDigit d = true := fun d hd => hfs.2 d (by simp [hd])
  simp only [mantissaOf, List.cons_append, hf, if_true, takeWhile_append_stop hfs' hafter,
    dropWhile_append_stop hfs' hafter]

theorem afterMantissa_end {mant after : List Char} {real : Bool} {pos : Nat}
    (h : ∀ d ∈ after.head?, d ≠ 'e' ∧ d ≠ 'E') :
    afterMantissa mant real after pos =
      numeral mant pos (if real then .real else .integer) .decimal := by
  cases after with
  | nil => rfl
  | cons d r =>
    have hd := h d rfl
    simp only [afterMantissa, if_neg (not_or.2 hd)]

/-- An exponent: `e` or `E`, an optional sign and digits, up to a character that is no digit. -/
theorem afterMantissa_exponent {mant s ds rest : List Char} {e : Char} {real : Bool} {pos : Nat}
    (he : e = 'e' ∨ e = 'E') (hs : s = [] ∨ s = ['+'] ∨ s = ['-'])
    (hds : IsRun isDecimalDigit ds) (hrest : ∀ d ∈ rest.head?, isDecimalDigit d = false) :
    afterMantissa mant real (e :: (s ++ (ds ++ rest))) pos =
      numeral (mant ++ e :: (s ++ ds)) pos .real .scientific := by
  obtain ⟨d, ds, rfl⟩ := List.exists_cons_of_ne_nil hds.1
  have hd : isDecimalDigit d = true := hds.2 d (by simp)
  have hds' : ∀ x ∈ ds, isDecimalDigit x = true := fun x hx => hds.2 x (by simp [hx])
  -- a digit is no sign
  have hsign : ¬(d = '+' ∨ d = '-') := by
    rintro (rfl | rfl) <;> simp [isDecimalDigit] at hd
  have htake : (d :: (ds ++ rest)).takeWhile isDecimalDigit = d :: ds := by
    rw [← List.cons_append, takeWhile_append_stop (by simpa [hd] using hds') hrest]
  simp only [afterMantissa, if_pos he]
  rcases hs with rfl | rfl | rfl <;>
  · simp only [readExponent, List.nil_append, List.cons_append, if_neg hsign, true_or, or_true,
      if_true, htake, List.append_assoc]

theorem readNumeral_eq_readDecimal {c : Char} {cs : List Char} (pos : Nat)
    (h : c ≠ '0' ∨ ∀ d ∈ cs.head?, d ≠ 'x' ∧ d ≠ 'b' ∧ isDecimalDigit d = false) :
    readNumeral c cs pos = readDecimal c cs pos := by
  by_cases hc : c = '0'
  · subst hc
    have hz := h.resolve_left (fun h => h rfl)
    simp only [readNumeral, if_true]
    split
    · exact absurd rfl (hz 'x' rfl).1
    · exact absurd rfl (hz 'b' rfl).2.1
    · rename_i d r _ _
      simp [(hz d rfl).2.2]
    · rfl
  · simp [readNumeral, hc]

theorem IsWhole.exists_cons {w : List Char} (h : IsWhole w) :
    ∃ c ws, w = c :: ws ∧ isDecimalDigit c = true ∧ (∀ d ∈ ws, isDecimalDigit d = true) ∧
      (c = '0' → ws = []) := by
  rcases h with rfl | ⟨⟨hne, hds⟩, h0⟩
  · exact ⟨'0', [], rfl, by decide, nofun, fun _ => rfl⟩
  · obtain ⟨c, ws, rfl⟩ := List.exists_cons_of_ne_nil hne
    exact ⟨c, ws, rfl, hds c (by simp), fun d hd => hds d (by simp [hd]),
      fun hc => absurd (by simp [hc]) h0⟩

/-- The first character of a numeral is a digit. -/
theorem Numeral.exists_cons {w : List Char} {f : NumeralForm} (h : Numeral w f) :
    ∃ c cs, w = c :: cs ∧ isDecimalDigit c = true := by
  cases h with
  | hex _ | binary _ => exact ⟨'0', _, rfl, by decide⟩
  | integer hw | fraction hw _ =>
    obtain ⟨c, ws, rfl, hc, -⟩ := hw.exists_cons
    exact ⟨c, _, rfl, hc⟩
  | exponent hm _ _ _ =>
    rcases hm with hw | ⟨w, fs, hw, -, rfl⟩ <;>
    · obtain ⟨c, ws, rfl, hc, -⟩ := hw.exists_cons
      exact ⟨c, _, rfl, hc⟩

/-- Nothing that may follow a numeral goes on a run of characters of a class within the word
characters. -/
theorem Separated.of_isWordChar {p : Char → Bool} (hp : ∀ d, p d = true → isWordChar d = true)
    {rest : List Char} (h : Separated rest) : ∀ d ∈ rest.head?, p d = false :=
  fun d hd => Bool.eq_false_iff.2 fun hpd => Bool.false_ne_true ((h d hd).1.symm.trans (hp d hpd))

theorem Separated.ne {c : Char} (hc : isWordChar c = true ∨ c = '.') {rest : List Char}
    (h : Separated rest) : ∀ d ∈ rest.head?, d ≠ c := by
  rintro d hd rfl
  obtain ⟨hw, hdot⟩ := h d hd
  rcases hc with hc | hc
  · exact Bool.false_ne_true (hw.symm.trans hc)
  · exact hdot hc

theorem readToken_digit {c : Char} (hc : isDecimalDigit c = true) (cs : List Char) (pos : Nat) :
    readToken c cs pos = readNumeral c cs pos := by
  simp only [readToken, isQuote_eq_false_of_isDecimalDigit hc,
    isWordStart_eq_false_of_isDecimalDigit hc, hc, Bool.false_eq_true, if_false, if_true]

/-- A radix numeral: its marker, then the digits up to a character that is no digit. -/
theorem readRadix_append {ok : Char → Bool} {m ds rest : List Char} {style : NumeralStyle}
    (hds : IsRun ok ds) (hrest : ∀ d ∈ rest.head?, ok d = false) (pos : Nat) :
    readRadix ok m style (ds ++ rest) pos = numeral (m ++ ds) pos .integer style := by
  obtain ⟨d, ds, rfl⟩ := List.exists_cons_of_ne_nil hds.1
  simp only [readRadix, takeWhile_append_stop hds.2 hrest]

/-- A decimal numeral whose whole part is `c :: ws`: a leading zero stands alone, and neither
a radix marker nor a digit follows the whole part. -/
theorem readNumeral_decimal {c : Char} {ws after : List Char} (pos : Nat)
    (hws : ∀ d ∈ ws, isDecimalDigit d = true) (h0 : c = '0' → ws = [])
    (hafter : ∀ d ∈ after.head?, d ≠ 'x' ∧ d ≠ 'b' ∧ isDecimalDigit d = false) :
    readNumeral c (ws ++ after) pos =
      afterMantissa (mantissaOf (c :: ws) after).1 (mantissaOf (c :: ws) after).2.1
        (mantissaOf (c :: ws) after).2.2 pos := by
  have hdigit : ∀ d ∈ after.head?, isDecimalDigit d = false := fun d hd => (hafter d hd).2.2
  -- after a leading zero the whole part ends at once
  have hzero : c ≠ '0' ∨ ∀ d ∈ (ws ++ after).head?, d ≠ 'x' ∧ d ≠ 'b' ∧ isDecimalDigit d = false := by
    by_cases hc : c = '0'
    · rw [h0 hc, List.nil_append]
      exact .inr hafter
    · exact .inl hc
  rw [readNumeral_eq_readDecimal pos hzero, readDecimal_eq, takeWhile_append_stop hws hdigit,
    dropWhile_append_stop hws hdigit]

/-- The marks that may follow a whole part: neither a radix marker nor a digit. -/
theorem after_whole_ok {e : Char} (he : e = '.' ∨ e = 'e' ∨ e = 'E') (r : List Char) :
    ∀ d ∈ (e :: r).head?, d ≠ 'x' ∧ d ≠ 'b' ∧ isDecimalDigit d = false := by
  rintro d hd
  cases hd
  rcases he with rfl | rfl | rfl <;> decide

/-- The scanner reads a numeral followed by a separating character as the numeral, of its form. -/
theorem readNumeral_of_numeral {w : List Char} {f : NumeralForm} (h : Numeral w f) {c : Char}
    {cs rest : List Char} (hw : w = c :: cs) (hrest : Separated rest) (pos : Nat) :
    readNumeral c (cs ++ rest) pos = numeral w pos f.cls f.style := by
  have hdigit := hrest.of_isWordChar (fun _ => isWordChar_of_isDecimalDigit)
  have hend : ∀ d ∈ rest.head?, d ≠ 'e' ∧ d ≠ 'E' := fun d hd =>
    ⟨hrest.ne (.inl (by decide)) d hd, hrest.ne (.inl (by decide)) d hd⟩
  cases h with
  | hex hds =>
    cases hw
    simp only [readNumeral, if_pos, List.cons_append]
    exact readRadix_append hds (hrest.of_isWordChar fun _ => isWordChar_of_isHexDigit) pos
  | binary hds =>
    cases hw
    simp only [readNumeral, if_pos, List.cons_append]
    exact readRadix_append hds (hrest.of_isWordChar fun _ => isWordChar_of_isBinaryDigit) pos
  | integer hw' =>
    obtain ⟨c', ws, rfl, -, hws, h0⟩ := hw'.exists_cons
    cases hw
    have hafter : ∀ d ∈ rest.head?, d ≠ 'x' ∧ d ≠ 'b' ∧ isDecimalDigit d = false := fun d hd =>
      ⟨hrest.ne (.inl (by decide)) d hd, hrest.ne (.inl (by decide)) d hd, hdigit d hd⟩
    rw [readNumeral_decimal pos hws h0 hafter, mantissaOf_whole (fun d hd => hrest.ne (.inr rfl) d hd),
      afterMantissa_end hend]
    rfl
  | fraction hw' hds =>
    obtain ⟨c', ws, rfl, -, hws, h0⟩ := hw'.exists_cons
    simp only [List.cons_append, List.cons.injEq] at hw
    obtain ⟨rfl, rfl⟩ := hw
    rw [List.append_assoc, List.cons_append, readNumeral_decimal pos hws h0 (after_whole_ok (.inl rfl) _),
      mantissaOf_fraction hds hdigit, afterMantissa_end hend]
    rfl
  | @exponent m s ds e hm he hs hds =>
    rcases hm with hw' | ⟨w', fs, hw', hfs, rfl⟩
    · obtain ⟨c', ws, rfl, -, hws, h0⟩ := hw'.exists_cons
      simp only [List.cons_append, List.append_assoc, List.cons.injEq] at hw
      obtain ⟨rfl, rfl⟩ := hw
      simp only [List.cons_append, List.append_assoc]
      have he' : e ≠ '.' := by rcases he with rfl | rfl <;> decide
      rw [readNumeral_decimal pos hws h0 (after_whole_ok (.inr he) _),
        mantissaOf_whole (fun d hd => by cases hd; exact he'),
        afterMantissa_exponent he hs hds hdigit]
      simp only [List.cons_append]
    · obtain ⟨c', ws, rfl, -, hws, h0⟩ := hw'.exists_cons
      simp only [List.cons_append, List.append_assoc, List.cons.injEq] at hw
      obtain ⟨rfl, rfl⟩ := hw
      simp only [List.cons_append, List.append_assoc]
      have he' : isDecimalDigit e = false := by rcases he with rfl | rfl <;> decide
      rw [readNumeral_decimal pos hws h0 (after_whole_ok (.inl rfl) _),
        mantissaOf_fraction hfs (fun d hd => by cases hd; exact he'),
        afterMantissa_exponent he hs hds hdigit]
      simp only [List.cons_append, List.append_assoc]

/-- A numeral is one token of its form, up to a character that does not go on with it. -/
theorem lexes_numeral {w : List Char} {f : NumeralForm} (h : Numeral w f) :
    Lexes w [Expr.numeralToken (String.ofList w) f 0] Separated := by
  obtain ⟨c, cs, rfl, hc⟩ := h.exists_cons
  refine Lexes.token (isBlank_eq_false_of_isDecimalDigit hc) (by simp [Expr.numeralToken])
    (fun rest pos hrest => ⟨Expr.numeralToken (String.ofList (c :: cs)) f pos, rfl, ?_⟩)
  rw [readToken_digit hc, readNumeral_of_numeral h rfl hrest pos]
  rfl

end Scriptlet.Syntax
