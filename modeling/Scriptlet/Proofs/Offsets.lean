import Scriptlet.Proofs.Segmenting

/-!
# Reading a text at an offset, before a line feed

The scanner reads a piece of text the same way wherever the piece starts, and whether the input
ends after it or a line feed follows. A line feed continues no token: names and numerals stop
before it, it makes no two-character operator, and a string that the piece closes ends before it.
Started `k` characters further on, every token comes out `k` characters further on
(`Token.shift`).

So the text `src₁ ++ "\n" ++ src₂` is read as the tokens of `src₁`, a line feed, and the tokens of
`src₂` moved by `src₁.length + 1`, whenever each of the two texts is read without a fault.

## Main statements

* `readToken_relocate`: one token, read before a line feed and further on.
* `Scanner.Steps.relocate`: a run of calls of the scanner, likewise.
* `TokenStream.ofString_eq_ok`: what a stream that ends well says of the scanner's calls.
* `TokenStream.ofString_join`: the stream of two texts joined by a line feed.
-/

set_option autoImplicit false

namespace Scriptlet.Syntax

/-- The token moved `k` characters further on. -/
def Token.shift (k : Nat) (t : Token) : Token := { t with position := t.position + k }

namespace Token

variable (k : Nat) (t : Token)

@[simp] theorem kind_shift : (t.shift k).kind = t.kind := rfl

@[simp] theorem text_shift : (t.shift k).text = t.text := rfl

@[simp] theorem form_shift : (t.shift k).form = t.form := rfl

@[simp] theorem position_shift : (t.shift k).position = t.position + k := rfl

@[simp] theorem shift_zero : t.shift 0 = t := rfl

@[simp] theorem readDepth_shift : (t.shift k).readDepth = t.readDepth := rfl

end Token

/-! ## What may follow a piece -/

/-- What may follow a piece of text without changing how it is read: nothing, or a line feed. -/
def StartsLine (tail : List Char) : Prop := ∀ x ∈ tail.head?, x = '\n'

theorem StartsLine.nil : StartsLine [] := nofun

theorem StartsLine.newLine (r : List Char) : StartsLine ('\n' :: r) := fun _ hx => by
  simpa using hx.symm

/-- A class the line feed is not in does not go on into what follows the piece. -/
theorem StartsLine.head {tail : List Char} (h : StartsLine tail) (p : Char → Bool)
    (hp : p '\n' = false) : ∀ x ∈ tail.head?, p x = false := fun x hx => by
  rw [h x hx]
  exact hp

/-- A run of a class stops before a tail that starts outside the class. -/
theorem takeWhile_append_of_head {p : Char → Bool} {tail : List Char}
    (h : ∀ x ∈ tail.head?, p x = false) (l : List Char) :
    (l ++ tail).takeWhile p = l.takeWhile p := by
  induction l with
  | nil =>
    cases tail with
    | nil => rfl
    | cons x r => simp [h x rfl]
  | cons a l ih =>
    by_cases ha : p a = true
    · simp [ha, ih]
    · simp [ha]

theorem dropWhile_append_of_head {p : Char → Bool} {tail : List Char}
    (h : ∀ x ∈ tail.head?, p x = false) (l : List Char) :
    (l ++ tail).dropWhile p = l.dropWhile p ++ tail := by
  induction l with
  | nil =>
    cases tail with
    | nil => rfl
    | cons x r => simp [h x rfl]
  | cons a l ih =>
    by_cases ha : p a = true
    · simp [ha, ih]
    · simp [ha]

theorem pairKind_newline (c : Char) : pairKind c '\n' = none := by
  unfold pairKind
  split <;> simp_all

theorem pairKind_newline_left (d : Char) : pairKind '\n' d = none := by
  unfold pairKind
  split <;> simp_all

/-! ## One token -/

theorem numeral_relocate {cs : List Char} {pos : Nat} {cls : NumeralClass}
    {style : NumeralStyle} {t : Token} {n : Nat} (h : numeral cs pos cls style = .ok (t, n))
    (k : Nat) : numeral cs (pos + k) cls style = .ok (t.shift k, n) := by
  obtain ⟨rfl, rfl⟩ := Prod.mk.inj (Except.ok.inj h)
  rfl

/-- A string closed inside the piece reads alike; no condition on what follows is needed. -/
theorem readString_relocate {q : Char} {cs : List Char} {pos : Nat} {t : Token} {n : Nat}
    (h : readString q cs pos = .ok (t, n)) (tail : List Char) (k : Nat) :
    readString q (cs ++ tail) (pos + k) = .ok (t.shift k, n) := by
  unfold readString at h ⊢
  dsimp only at h ⊢
  split at h
  · rename_i hlt
    -- the closing quote stands in `cs`, so the body ends before `tail`
    have hbody : (cs ++ tail).takeWhile (fun x => decide (x ≠ q)) =
        cs.takeWhile (fun x => decide (x ≠ q)) := by
      rw [List.takeWhile_append, if_neg (Nat.ne_of_lt hlt)]
    obtain ⟨rfl, rfl⟩ := Prod.mk.inj (Except.ok.inj h)
    rw [hbody, if_pos (by simp only [List.length_append]; omega)]
    rfl
  · cases h

theorem readRadix_relocate {ok : Char → Bool} {m : List Char} {style : NumeralStyle}
    {r : List Char} {pos : Nat} {t : Token} {n : Nat} (h : readRadix ok m style r pos = .ok (t, n))
    {tail : List Char} (htail : ∀ x ∈ tail.head?, ok x = false) (k : Nat) :
    readRadix ok m style (r ++ tail) (pos + k) = .ok (t.shift k, n) := by
  unfold readRadix at h ⊢
  rw [takeWhile_append_of_head htail]
  cases hds : r.takeWhile ok with
  | nil => simp [hds] at h
  | cons d ds =>
    simp only [hds] at h ⊢
    exact numeral_relocate h k

section Relocate

variable {tail : List Char} (htail : StartsLine tail) (k : Nat)
include htail

theorem readExponent_relocate {mant : List Char} {mark : Char} {rest : List Char} {pos : Nat}
    {t : Token} {n : Nat} (h : readExponent mant mark rest pos = .ok (t, n)) :
    readExponent mant mark (rest ++ tail) (pos + k) = .ok (t.shift k, n) := by
  rw [readExponent_eq] at h ⊢
  -- an exponent without digits is a fault, so `rest` is not empty
  cases rest with
  | nil => simp [exponentSign, exponentDigits] at h
  | cons x r =>
    have hsign : exponentSign (x :: r ++ tail) =
        ((exponentSign (x :: r)).1, (exponentSign (x :: r)).2 ++ tail) := by
      by_cases hx : x = '+' ∨ x = '-' <;> simp [exponentSign, hx]
    rw [hsign]
    unfold exponentDigits at h ⊢
    rw [takeWhile_append_of_head (htail.head isDecimalDigit (by decide))]
    cases hds : (exponentSign (x :: r)).2.takeWhile isDecimalDigit with
    | nil => simp [hds] at h
    | cons d ds =>
      simp only [hds] at h ⊢
      exact numeral_relocate h k

/-- The fraction of a numeral is read alike before a line feed: a dot before it is followed by no
digit. -/
theorem mantissaOf_append (whole : List Char) :
    ∀ after : List Char, mantissaOf whole (after ++ tail) =
      ((mantissaOf whole after).1, (mantissaOf whole after).2.1, (mantissaOf whole after).2.2 ++ tail)
  | [] => by
    rw [List.nil_append, mantissaOf_whole fun d hd => by rw [htail d hd]; decide]
    rfl
  | [x] => by
    by_cases hx : x = '.'
    · subst hx
      cases tail with
      | nil => rfl
      | cons y r =>
        obtain rfl : y = '\n' := htail y rfl
        have hnl : isDecimalDigit '\n' = false := by decide
        simp [mantissaOf, hnl]
    · rw [mantissaOf_whole (by simpa using hx), List.cons_append,
        mantissaOf_whole (by simpa using hx)]
      rfl
  | x :: y :: r => by
    have hstop := htail.head isDecimalDigit (by decide)
    by_cases hx : x = '.'
    · subst hx
      by_cases hy : isDecimalDigit y = true
      · simp [mantissaOf, hy, takeWhile_append_of_head hstop, dropWhile_append_of_head hstop]
      · simp [mantissaOf, hy]
    · rw [List.cons_append, mantissaOf_whole (by simpa using hx),
        mantissaOf_whole (by simpa using hx)]
      rfl

theorem afterMantissa_relocate {mant : List Char} {real : Bool} {after : List Char} {pos : Nat}
    {t : Token} {n : Nat} (h : afterMantissa mant real after pos = .ok (t, n)) :
    afterMantissa mant real (after ++ tail) (pos + k) = .ok (t.shift k, n) := by
  cases after with
  | nil =>
    -- the numeral ends with its mantissa, before a line feed too
    rw [List.nil_append, afterMantissa_end fun d hd => by rw [htail d hd]; decide]
    exact numeral_relocate h k
  | cons e r =>
    simp only [afterMantissa, List.cons_append] at h ⊢
    split at h
    · rw [if_pos ‹_›]
      exact readExponent_relocate htail k h
    · rw [if_neg ‹_›]
      exact numeral_relocate h k

theorem readDecimal_relocate {c : Char} {cs : List Char} {pos : Nat} {t : Token} {n : Nat}
    (h : readDecimal c cs pos = .ok (t, n)) :
    readDecimal c (cs ++ tail) (pos + k) = .ok (t.shift k, n) := by
  have hstop := htail.head isDecimalDigit (by decide)
  rw [readDecimal_eq] at h ⊢
  rw [takeWhile_append_of_head hstop, dropWhile_append_of_head hstop, mantissaOf_append htail]
  exact afterMantissa_relocate htail k h

theorem readNumeral_relocate {c : Char} {cs : List Char} {pos : Nat} {t : Token} {n : Nat}
    (h : readNumeral c cs pos = .ok (t, n)) :
    readNumeral c (cs ++ tail) (pos + k) = .ok (t.shift k, n) := by
  rcases readNumeral_cases h with ⟨rfl, r, rfl, hr⟩ | ⟨rfl, r, rfl, hr⟩ | ⟨hz, hd⟩
  · simpa [readNumeral] using readRadix_relocate hr (htail.head isHexDigit (by decide)) k
  · simpa [readNumeral] using readRadix_relocate hr (htail.head isBinaryDigit (by decide)) k
  · -- the character after a leading `0`, in `cs` or the line feed, marks no radix
    have hmark : c ≠ '0' ∨ ∀ d ∈ (cs ++ tail).head?,
        d ≠ 'x' ∧ d ≠ 'b' ∧ isDecimalDigit d = false := by
      by_cases hc : c = '0'
      · refine .inr fun d hd' => ?_
        cases cs with
        | nil =>
          obtain rfl : d = '\n' := htail d (by simpa using hd')
          decide
        | cons x r => exact hz hc d (by simpa using hd')
      · exact .inl hc
    rw [readNumeral_eq_readDecimal _ hmark]
    exact readDecimal_relocate htail k hd

theorem readSymbol_relocate {c : Char} {cs : List Char} {pos : Nat} {t : Token} {n : Nat}
    (h : readSymbol c cs pos = .ok (t, n)) :
    readSymbol c (cs ++ tail) (pos + k) = .ok (t.shift k, n) := by
  -- a one-character token reads alike `k` further on, and before a line feed as at the end
  have hsingle :
      readSymbol c [] pos = .ok (t, n) → readSymbol c [] (pos + k) = .ok (t.shift k, n) := by
    intro h
    obtain ⟨k', hk', rfl, rfl⟩ := readSymbol_nil_eq_ok.1 h
    exact readSymbol_nil_eq_ok.2 ⟨k', hk', rfl, rfl⟩
  cases cs with
  | nil =>
    cases tail with
    | nil => exact hsingle h
    | cons x r =>
      obtain rfl : x = '\n' := htail x rfl
      rw [List.nil_append, readSymbol_of_pairKind_none (pairKind_newline c)]
      exact hsingle h
  | cons d r =>
    rw [List.cons_append]
    cases hp : pairKind c d with
    | none =>
      rw [readSymbol_of_pairKind_none hp] at h ⊢
      exact hsingle h
    | some k' =>
      simp only [readSymbol, hp, Except.ok.injEq, Prod.mk.injEq] at h ⊢
      obtain ⟨rfl, rfl⟩ := h
      exact ⟨rfl, rfl⟩

/-- A token read from a piece reads alike before a line feed, and `k` characters further on it is
the same token `k` further on. -/
theorem readToken_relocate {c : Char} {cs : List Char} {pos : Nat} {t : Token} {n : Nat}
    (h : readToken c cs pos = .ok (t, n)) :
    readToken c (cs ++ tail) (pos + k) = .ok (t.shift k, n) := by
  unfold readToken at h ⊢
  by_cases hq : isQuote c = true
  · rw [if_pos hq] at h ⊢
    exact readString_relocate h tail k
  · rw [if_neg hq] at h ⊢
    by_cases hw : isWordStart c = true
    · rw [if_pos hw] at h ⊢
      obtain ⟨rfl, rfl⟩ := Prod.mk.inj (Except.ok.inj h)
      rw [takeWhile_append_of_head (htail.head isWordChar (by decide))]
      rfl
    · rw [if_neg hw] at h ⊢
      by_cases hd : isDecimalDigit c = true
      · rw [if_pos hd] at h ⊢
        exact readNumeral_relocate htail k h
      · rw [if_neg hd] at h ⊢
        exact readSymbol_relocate htail k h

end Relocate

/-- A token takes no more than the characters it starts. -/
theorem readToken_length_le {c : Char} {cs : List Char} {pos : Nat} {t : Token} {n : Nat}
    (h : readToken c cs pos = .ok (t, n)) : n ≤ cs.length + 1 := by
  obtain ⟨sp, r, hsplit, rfl, -⟩ := readToken_lexeme h
  have := congrArg List.length hsplit
  simp only [List.length_cons, List.length_append] at this
  omega

/-! ## Runs of calls -/

namespace Scanner

/-- A call that reads a token reads it alike before a line feed and further on. -/
theorem next_relocate {s s₁ : Scanner} {t : Token} (h : s.next = (.ok t, s₁))
    (ht : t.kind ≠ .eof) {tail : List Char} (htail : StartsLine tail) (k n : Nat) :
    next ⟨s.rest ++ tail, s.index + k, n, s.exhausted⟩ =
      (.ok (t.shift k), ⟨s₁.rest ++ tail, s₁.index + k, n, s₁.exhausted⟩) := by
  have hb := htail.head isBlank (by decide)
  simp only [next, takeWhile_append_of_head hb, dropWhile_append_of_head hb] at h ⊢
  split at h
  · exact absurd (congrArg Token.kind (Except.ok.inj (Prod.mk.inj h).1)).symm ht
  · rename_i c cs hcs
    split at h
    · rename_i t' m hread
      obtain ⟨ht', rfl⟩ := Prod.mk.inj h
      cases Except.ok.inj ht'
      have hm := readToken_length_le hread
      have hpos : s.index + k + (s.rest.takeWhile isBlank).length =
          s.index + (s.rest.takeWhile isBlank).length + k := by omega
      simp only [hcs, List.cons_append, hpos, readToken_relocate htail k hread]
      rw [← List.cons_append, List.drop_append_of_le_length (by simpa using hm)]
      simp only [Prod.mk.injEq, true_and, Scanner.mk.injEq, and_true]
      omega
    · cases (Prod.mk.inj h).1

/-- Calls that read tokens read them alike before a line feed, and further on. -/
theorem Steps.relocate {s s' : Scanner} {us : List Token} (h : Steps s us s')
    (tail : List Char) (htail : StartsLine tail) (k n : Nat) :
    Steps ⟨s.rest ++ tail, s.index + k, n, s.exhausted⟩ (us.map (Token.shift k))
      ⟨s'.rest ++ tail, s'.index + k, n, s'.exhausted⟩ := by
  induction h with
  | nil => exact .nil _
  | cons hn hk _ ih => exact .cons (next_relocate hn hk htail k n) hk ih

/-- Blanks before the end: the call answers the end of input. -/
theorem next_blank {s : Scanner} (h : ∀ c ∈ s.rest, isBlank c = true) :
    s.next = (.ok ⟨.eof, "", s.index + s.rest.length, none⟩,
      { s with rest := [], index := s.index + s.rest.length, exhausted := true }) := by
  have htake : s.rest.takeWhile isBlank = s.rest := by
    simpa using @List.takeWhile_append_of_pos _ isBlank s.rest [] h
  have hdrop : s.rest.dropWhile isBlank = [] := by
    simpa using @List.dropWhile_append_of_pos _ isBlank s.rest [] h
  simp only [next, htake, hdrop]

/-- Blanks, then a line feed: the call answers the line feed. -/
theorem next_newline {b : List Char} (hb : ∀ c ∈ b, isBlank c = true) (r : List Char)
    (i n : Nat) (x : Bool) :
    next ⟨b ++ '\n' :: r, i, n, x⟩ =
      (.ok ⟨.newLine, "\n", i + b.length, none⟩, ⟨r, i + b.length + 1, n, x⟩) := by
  have hsym : readToken '\n' r (i + b.length) = .ok (⟨.newLine, "\n", i + b.length, none⟩, 1) := by
    cases r with
    | nil => rfl
    | cons d r => simp [readToken, readSymbol, isQuote, isWordStart, isDecimalDigit,
        pairKind_newline_left d, singleKind]
  have hnl : isBlank '\n' = false := by decide
  simp only [next, List.takeWhile_append_of_pos hb, List.dropWhile_append_of_pos hb,
    List.takeWhile_cons, List.dropWhile_cons, hnl, Bool.false_eq_true, ↓reduceIte,
    List.append_nil, hsym]
  rfl

end Scanner

/-! ## Streams -/

/-- Calls that read a text up to blanks make its stream, ended where the text ends. -/
theorem TokenStream.ofString_of_steps_end {src : String} {us : List Token} {s' : Scanner}
    (h : Scanner.Steps (Scanner.ofString src) us s') (hb : ∀ c ∈ s'.rest, isBlank c = true) :
    TokenStream.ofString src = ⟨us, .ok ⟨.eof, "", s'.index + s'.rest.length, none⟩⟩ := by
  have hlen := h.length_le
  have hrun := Scanner.runFrom_of_steps h (Scanner.next_blank hb) rfl
    ((Scanner.ofString src).rest.length + 1) [] (by omega)
  simp only [TokenStream.ofString, Scanner.run, hrun]
  simp

/-- A stream that ends well is the tokens of calls that read the text up to blanks, and its end
is where the text ends. -/
theorem TokenStream.ofString_eq_ok {src : String} {ts : List Token} {e : Token}
    (h : TokenStream.ofString src = ⟨ts, .ok e⟩) :
    ∃ s', Scanner.Steps (Scanner.ofString src) ts s' ∧ (∀ c ∈ s'.rest, isBlank c = true) ∧
      s'.index + s'.rest.length = src.length ∧ s'.exhausted = false ∧
      e = ⟨.eof, "", src.length, none⟩ := by
  obtain ⟨us, s', hsteps, hend⟩ := Scanner.exists_steps_end (Scanner.ofString src)
  have hlen := hsteps.length_le
  obtain ⟨hoff, -, hx⟩ := hsteps.offset
  simp only [Scanner.ofString, String.length_toList, Nat.zero_add] at hoff hx
  rcases hend with ⟨e', s'', hn⟩ | ⟨t, s'', hn, hk⟩
  · -- a fault would end the stream instead
    have hrun := Scanner.runFrom_of_steps_error hsteps hn
      ((Scanner.ofString src).rest.length + 1) [] (by omega)
    simp [TokenStream.ofString, Scanner.run, hrun] at h
  · obtain ⟨hblank, rfl, -⟩ := Scanner.next_eof hn hk
    rw [TokenStream.ofString_of_steps_end hsteps hblank] at h
    simp only [TokenStream.mk.injEq, Except.ok.injEq] at h
    obtain ⟨rfl, rfl⟩ := h
    exact ⟨s', hsteps, hblank, hoff, hx, by rw [hoff]⟩

/-- Two texts joined by a line feed, each read without a fault, are read as the tokens of the
first, the line feed, and the tokens of the second moved past the first and the line feed. -/
theorem TokenStream.ofString_join {src₁ src₂ : String} {ts₁ ts₂ : List Token} {e₁ e₂ : Token}
    (h₁ : TokenStream.ofString src₁ = ⟨ts₁, .ok e₁⟩)
    (h₂ : TokenStream.ofString src₂ = ⟨ts₂, .ok e₂⟩) :
    TokenStream.ofString (src₁ ++ "\n" ++ src₂) =
      ⟨ts₁ ++ ⟨.newLine, "\n", src₁.length, none⟩ :: ts₂.map (Token.shift (src₁.length + 1)),
        .ok (e₂.shift (src₁.length + 1))⟩ := by
  obtain ⟨s₁, hs₁, hb₁, hi₁, hx₁, -⟩ := TokenStream.ofString_eq_ok h₁
  obtain ⟨s₂, hs₂, hb₂, hi₂, hx₂, rfl⟩ := TokenStream.ofString_eq_ok h₂
  have htext : (src₁ ++ "\n" ++ src₂).toList = src₁.toList ++ '\n' :: src₂.toList := by
    simp [String.toList_append]
  -- the first text up to its trailing blanks, with the rest of the joined text after it
  have hfirst := hs₁.relocate ('\n' :: src₂.toList) (.newLine _) 0 (src₁ ++ "\n" ++ src₂).length
  -- the second text, further on
  have hsecond := hs₂.relocate [] .nil (src₁.length + 1) (src₁ ++ "\n" ++ src₂).length
  have hmap : ts₁.map (Token.shift 0) = ts₁ :=
    (List.map_congr_left fun t _ => Token.shift_zero t).trans (List.map_id ts₁)
  simp only [Scanner.ofString, hmap, Nat.add_zero, hx₁, hx₂, List.append_nil,
    Nat.zero_add] at hfirst hsecond
  have hline := Scanner.next_newline hb₁ src₂.toList s₁.index (src₁ ++ "\n" ++ src₂).length false
  rw [show s₁.index + s₁.rest.length = src₁.length by simpa using hi₁] at hline
  have hstart : Scanner.ofString (src₁ ++ "\n" ++ src₂) =
      ⟨src₁.toList ++ '\n' :: src₂.toList, 0, (src₁ ++ "\n" ++ src₂).length, false⟩ := by
    simp only [Scanner.ofString, htext]
  have hall : Scanner.Steps (Scanner.ofString (src₁ ++ "\n" ++ src₂))
      (ts₁ ++ ⟨.newLine, "\n", src₁.length, none⟩ :: ts₂.map (Token.shift (src₁.length + 1)))
      ⟨s₂.rest, s₂.index + (src₁.length + 1), (src₁ ++ "\n" ++ src₂).length, false⟩ := by
    rw [hstart]
    exact hfirst.append (.cons hline (by simp) hsecond)
  rw [TokenStream.ofString_of_steps_end hall hb₂]
  simp only [TokenStream.mk.injEq, Except.ok.injEq, true_and]
  simp only [Token.shift, Token.mk.injEq, true_and, and_true]
  omega

end Scriptlet.Syntax
