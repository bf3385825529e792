import Mathlib.Data.Nat.Digits.Defs
import Mathlib.Data.List.TakeWhile
import Mathlib.Data.List.Induction
import Mathlib.Algebra.Field.Rat
import Mathlib.Tactic.FieldSimp
import Mathlib.Tactic.Ring
import Scriptlet.Proofs.ParseEnds
import Scriptlet.Proofs.Rendering
import Scriptlet.Proofs.JoinedRuns

/-!
# The two readings of a numeral

A numeral's value can be read in two ways: with the radix of the form the scanner recorded for
it, or with the radix its text announces (`0x`, `0b`, or none). For every numeral the scanner
reads, both give the same double, and that double is the exact number the numeral spells, rounded
by the conversion `ofScaled` from a decimal significand and exponent.

The exact number is given by the grammar, not by the reader: `Numeral.Denotes` assigns a
rational to each spelling, with the digits' value taken positionally (`Nat.ofDigits`). The two
radices agree because the scanner writes radix prefixes in lower case only and never lets a
decimal numeral start with `0x` or `0b` (`Numeral.radix_eq`); the decimal reader splits a numeral
into the digits of its whole part and fraction and an exponent, which scale to the exact number
(`Numeral.Denotes.value`).

## Main definitions

* `Numeral.positional`: the number a string of digits spells in a radix.
* `Numeral.MantissaDenotes`, `Numeral.Denotes`: the exact number a mantissa and a numeral spell.
* `hexText`, `binaryText`: a natural number in hexadecimal and in binary, with its prefix.

## Main statements

* `Session.run_numeral`: a text that is one numeral runs to the numeral's value.
* `Scanner.numeral_readings_agree`: both readings of every scanned numeral give the rounded
  exact number, and running the hexadecimal, binary or decimal text of a natural number gives the
  number converted to a double.
-/

set_option autoImplicit false

namespace Scriptlet

open Syntax Number

namespace Syntax.Numeral

/-- The number the digits `ds` spell in radix `r`, the most significant digit first. -/
def positional (r : Nat) (ds : List Char) : Nat := Nat.ofDigits r (ds.reverse.map digitValue)

/-- The exact number a mantissa spells: its whole part, plus its fraction scaled down by as many
places as the fraction has digits. -/
inductive MantissaDenotes : List Char → ℚ → Prop
  /-- A whole part alone. -/
  | whole {w : List Char} : IsWhole w → MantissaDenotes w (positional 10 w)
  /-- A whole part and a fraction. -/
  | fraction {w ds : List Char} : IsWhole w → IsRun isDecimalDigit ds →
      MantissaDenotes (w ++ '.' :: ds) (positional 10 w + positional 10 ds / 10 ^ ds.length)

/-- The exact number a numeral spells: the integer its digits give after `0x` or `0b`, or the
number its mantissa spells, times ten to the power its exponent gives. -/
inductive Denotes : List Char → ℚ → Prop
  /-- `0x` and hexadecimal digits. -/
  | hex {ds : List Char} : IsRun isHexDigit ds → Denotes ('0' :: 'x' :: ds) (positional 16 ds)
  /-- `0b` and binary digits. -/
  | binary {ds : List Char} : IsRun isBinaryDigit ds →
      Denotes ('0' :: 'b' :: ds) (positional 2 ds)
  /-- A mantissa alone. -/
  | plain {m : List Char} {q : ℚ} : MantissaDenotes m q → Denotes m q
  /-- A mantissa, `e` or `E`, an optional sign and digits. -/
  | exponent {m s ds : List Char} {e : Char} {q : ℚ} : MantissaDenotes m q →
      (e = 'e' ∨ e = 'E') → (s = [] ∨ s = ['+'] ∨ s = ['-']) → IsRun isDecimalDigit ds →
      Denotes (m ++ e :: s ++ ds)
        (q * 10 ^ (if s = ['-'] then -(positional 10 ds : ℤ) else positional 10 ds))

end Syntax.Numeral

/-! ## Digits -/

namespace Number

theorem digitsValue_append_singleton (r : Nat) (cs : List Char) (c : Char) :
    digitsValue r (cs ++ [c]) = digitsValue r cs * r + digitValue c := by
  simp [digitsValue]

/-- Reading digits left to right, as the reader does, gives their positional value. -/
theorem digitsValue_eq_positional (r : Nat) (cs : List Char) :
    digitsValue r cs = Numeral.positional r cs := by
  induction cs using List.reverseRecOn with
  | nil => rfl
  | append_singleton cs c ih =>
    rw [digitsValue_append_singleton, ih, Numeral.positional, Numeral.positional,
      List.reverse_append, List.map_append]
    simp [Nat.ofDigits_cons]
    ring

theorem positional_append (r : Nat) (w ds : List Char) :
    Numeral.positional r (w ++ ds) =
      Numeral.positional r w * r ^ ds.length + Numeral.positional r ds := by
  simp only [Numeral.positional, List.reverse_append, List.map_append, Nat.ofDigits_append,
    List.length_map, List.length_reverse]
  ring

theorem digitValue_digitChar : ∀ d < 16, digitValue (Nat.digitChar d) = d := by
  decide

/-- The digits a natural number is written with read back as the number, in every radix up to
sixteen. -/
theorem digitsValue_toDigits {b : Nat} (hb : 1 < b) (hb' : b ≤ 16) (n : Nat) :
    digitsValue b (Nat.toDigits b n) = n := by
  induction n using Nat.strong_induction_on with
  | _ n ih =>
    rw [Nat.toDigits_eq_if hb]
    split
    · rename_i hlt
      simp [digitsValue, digitValue_digitChar n (by omega)]
    · have hmod : n % b < 16 := by
        have := Nat.mod_lt n (show b > 0 by omega)
        omega
      rw [digitsValue_append_singleton, ih (n / b) (Nat.div_lt_self (by omega) hb),
        digitValue_digitChar _ hmod]
      exact Nat.div_add_mod' n b

theorem mem_toDigits {b : Nat} (hb : 1 < b) {n : Nat} {c : Char} (hc : c ∈ Nat.toDigits b n) :
    ∃ d < b, c = Nat.digitChar d := by
  induction n using Nat.strong_induction_on with
  | _ n ih =>
    rw [Nat.toDigits_eq_if hb] at hc
    split at hc
    · rename_i hlt
      exact ⟨n, hlt, List.mem_singleton.1 hc⟩
    · rcases List.mem_append.1 hc with h | h
      · exact ih (n / b) (Nat.div_lt_self (by omega) hb) h
      · exact ⟨n % b, Nat.mod_lt n (by omega), List.mem_singleton.1 h⟩

/-- A positive number's decimal digits do not start with `0`. -/
theorem head_toDigits_ne_zero {n : Nat} (hn : 0 < n) : (Nat.toDigits 10 n).head? ≠ some '0' := by
  induction n using Nat.strong_induction_on with
  | _ n ih =>
    rw [Nat.toDigits_eq_if (by decide)]
    split
    · rename_i hlt
      have : ∀ d < 10, 0 < d → Nat.digitChar d ≠ '0' := by decide
      simpa using this n hlt hn
    · have hhead := ih (n / 10) (by omega) (by omega)
      obtain ⟨x, xs, hx⟩ := List.exists_cons_of_ne_nil (@Nat.toDigits_ne_nil (n / 10) 10)
      rw [hx] at hhead ⊢
      simpa using hhead

/-! ## The decimal reader -/

theorem isDigit_of_whole {w : List Char} (hw : IsWhole w) : ∀ c ∈ w, isDigit c = true := by
  obtain ⟨c, ws, rfl, hc, hws, -⟩ := hw.exists_cons
  intro d hd
  rcases List.mem_cons.1 hd with rfl | hd
  · exact hc
  · exact hws d hd

theorem exponent_mark {c : Char} (hc : c = 'e' ∨ c = 'E') : isDigit c = false ∧ c ≠ '.' := by
  rcases hc with rfl | rfl <;> decide

/-- A whole part alone reads as its digits; followed by an exponent, with the exponent's value. -/
theorem decimalParts_whole {w : List Char} (hw : ∀ c ∈ w, isDigit c = true) :
    decimalParts w = (digitsValue 10 w, 0) ∧
      ∀ c r, (c = 'e' ∨ c = 'E') → decimalParts (w ++ c :: r) = (digitsValue 10 w, exponentValue r) := by
  have h₁ : w.takeWhile isDigit = w := List.takeWhile_eq_self_iff.2 hw
  have h₂ : w.dropWhile isDigit = [] := List.dropWhile_eq_nil_iff.2 hw
  refine ⟨by simp [decimalParts, h₁, h₂], fun c r hc => ?_⟩
  obtain ⟨hcd, hcdot⟩ := exponent_mark hc
  simp [decimalParts, List.takeWhile_append, List.dropWhile_append, h₁, h₂, hcd, hcdot, hc]

/-- A whole part and a fraction read as their digits together, scaled down by the fraction's
length; followed by an exponent, scaled by it too. -/
theorem decimalParts_fraction {w ds : List Char} (hw : ∀ c ∈ w, isDigit c = true)
    (hds : ∀ c ∈ ds, isDigit c = true) :
    decimalParts (w ++ '.' :: ds) = (digitsValue 10 (w ++ ds), -(ds.length : ℤ)) ∧
      ∀ c r, (c = 'e' ∨ c = 'E') →
        decimalParts (w ++ '.' :: ds ++ c :: r) =
          (digitsValue 10 (w ++ ds), -(ds.length : ℤ) + exponentValue r) := by
  have h₁ : w.takeWhile isDigit = w := List.takeWhile_eq_self_iff.2 hw
  have h₂ : w.dropWhile isDigit = [] := List.dropWhile_eq_nil_iff.2 hw
  have h₃ : ds.takeWhile isDigit = ds := List.takeWhile_eq_self_iff.2 hds
  have h₄ : ds.dropWhile isDigit = [] := List.dropWhile_eq_nil_iff.2 hds
  have hdot : isDigit '.' = false := by decide
  refine ⟨by simp [decimalParts, List.takeWhile_append, List.dropWhile_append, h₁, h₂, h₃, h₄,
    hdot], fun c r hc => ?_⟩
  obtain ⟨hcd, hcdot⟩ := exponent_mark hc
  simp [decimalParts, List.takeWhile_append, List.dropWhile_append, h₁, h₂, h₃, h₄, hdot, hcd,
    hc]
  omega

/-- The exponent after `e` or `E`: its digits' value, negated after `-`. -/
theorem exponentValue_signed {s ds : List Char} (hs : s = [] ∨ s = ['+'] ∨ s = ['-'])
    (hds : IsRun isDecimalDigit ds) :
    exponentValue (s ++ ds) =
      if s = ['-'] then -(Numeral.positional 10 ds : ℤ) else Numeral.positional 10 ds := by
  rw [← digitsValue_eq_positional]
  rcases hs with rfl | rfl | rfl
  · obtain ⟨d, rest, rfl⟩ := List.exists_cons_of_ne_nil hds.1
    have hd := hds.2 d (by simp)
    have h₁ : d ≠ '-' := by
      rintro rfl
      revert hd
      decide
    have h₂ : d ≠ '+' := by
      rintro rfl
      revert hd
      decide
    simp [exponentValue, h₁, h₂]
  · simp [exponentValue]
  · simp [exponentValue]

/-- A text that starts with a whole part announces no radix, unless the `0` is followed by `x`
or `b`. -/
theorem radixOfText_whole {w r : List Char} (hw : IsWhole w)
    (hr : ∀ r', r ≠ 'x' :: r' ∧ r ≠ 'b' :: r') : radixOfText (String.ofList (w ++ r)) = 10 := by
  obtain ⟨c, ws, rfl, -, -, h0⟩ := hw.exists_cons
  unfold radixOfText
  rw [String.toList_ofList]
  split
  · rename_i r' h
    simp only [List.cons_append, List.cons.injEq] at h
    obtain ⟨rfl, h⟩ := h
    rw [h0 rfl, List.nil_append] at h
    exact absurd h (hr r').1
  · rename_i r' h
    simp only [List.cons_append, List.cons.injEq] at h
    obtain ⟨rfl, h⟩ := h
    rw [h0 rfl, List.nil_append] at h
    exact absurd h (hr r').2
  · rfl

end Number

/-! ## The exact number -/

namespace Syntax.Numeral

/-- A mantissa reads as a significand and a scale that give the number it spells, and announces
no radix whatever exponent follows it. -/
theorem MantissaDenotes.parts {m : List Char} {q : ℚ} (h : MantissaDenotes m q) :
    ∃ (M : ℕ) (E : ℤ), (M : ℚ) * 10 ^ E = q ∧ decimalParts m = (M, E) ∧
      (∀ c r, (c = 'e' ∨ c = 'E') → decimalParts (m ++ c :: r) = (M, E + exponentValue r)) ∧
      ∀ r, (∀ r', r ≠ 'x' :: r' ∧ r ≠ '.' :: r' ∧ r ≠ 'b' :: r') →
        radixOfText (String.ofList (m ++ r)) = 10 := by
  cases h with
  | whole hw =>
    obtain ⟨hparts, hexp⟩ := decimalParts_whole (isDigit_of_whole hw)
    refine ⟨digitsValue 10 m, 0, by simp [digitsValue_eq_positional], hparts,
      fun c r hc => by simpa using hexp c r hc, fun r hr => ?_⟩
    exact radixOfText_whole hw fun r' => ⟨(hr r').1, (hr r').2.2⟩
  | @fraction w ds hw hds =>
    obtain ⟨hparts, hexp⟩ := decimalParts_fraction (isDigit_of_whole hw) hds.2
    refine ⟨digitsValue 10 (w ++ ds), -(ds.length : ℤ), ?_, hparts,
      fun c r hc => by simpa using hexp c r hc, fun r _ => ?_⟩
    · rw [digitsValue_eq_positional, positional_append, zpow_neg, zpow_natCast]
      push_cast
      field_simp
    · rw [List.append_assoc]
      exact radixOfText_whole hw fun r' => ⟨by simp, by simp⟩

/-- **The decimal reading is exact up to rounding.** The reading that takes its radix from the
text gives, for every spelling and the number it denotes, the conversion of a significand and a
scale whose value is that number. -/
theorem Denotes.value {w : List Char} {q : ℚ} (h : Denotes w q) :
    ∃ (m : ℕ) (e : ℤ), (m : ℚ) * 10 ^ e = q ∧ numeralValue (String.ofList w) none = ofScaled m e := by
  cases h with
  | @hex ds _ =>
    refine ⟨digitsValue 16 ds, 0, by simp [digitsValue_eq_positional], ?_⟩
    simp [numeralValue, radixOfText]
    rfl
  | @binary ds _ =>
    refine ⟨digitsValue 2 ds, 0, by simp [digitsValue_eq_positional], ?_⟩
    simp [numeralValue, radixOfText]
    rfl
  | plain hm =>
    obtain ⟨M, E, hq, hparts, -, hradix⟩ := hm.parts
    have hten : radixOfText (String.ofList w) = 10 := by
      simpa using hradix [] fun _ => ⟨nofun, nofun, nofun⟩
    refine ⟨M, E, hq, ?_⟩
    simp only [numeralValue, hten, String.toList_ofList, hparts, ↓reduceIte]
  | @exponent m s ds e q' hm he hs hds =>
    obtain ⟨M, E, hq, -, hexp, hradix⟩ := hm.parts
    have hsplit : m ++ e :: s ++ ds = m ++ e :: (s ++ ds) := by simp
    have hten : radixOfText (String.ofList (m ++ e :: (s ++ ds))) = 10 :=
      hradix _ fun r' => by rcases he with rfl | rfl <;> simp
    refine ⟨M, E + exponentValue (s ++ ds), ?_, ?_⟩
    · rw [zpow_add₀ (by norm_num), ← mul_assoc, hq, exponentValue_signed hs hds]
    · rw [hsplit]
      simp only [numeralValue, hten, String.toList_ofList, hexp e (s ++ ds) he, ↓reduceIte]

end Syntax.Numeral

/-- A mantissa spells a number. -/
theorem Syntax.IsMantissa.denotes {m : List Char} (h : IsMantissa m) :
    ∃ q, Numeral.MantissaDenotes m q := by
  rcases h with hw | ⟨w, ds, hw, hds, rfl⟩
  · exact ⟨_, .whole hw⟩
  · exact ⟨_, .fraction hw hds⟩

namespace Syntax.Numeral

/-- Every spelling of a numeral denotes a number. -/
theorem denotes {w : List Char} {f : NumeralForm} (h : Numeral w f) : ∃ q, Denotes w q := by
  cases h with
  | hex hds => exact ⟨_, .hex hds⟩
  | binary hds => exact ⟨_, .binary hds⟩
  | integer hw => exact ⟨_, .plain (.whole hw)⟩
  | fraction hw hds => exact ⟨_, .plain (.fraction hw hds)⟩
  | exponent hm he hs hds =>
    obtain ⟨q, hq⟩ := hm.denotes
    exact ⟨_, .exponent hq he hs hds⟩

/-- **The form's radix is the one the text announces.** A hexadecimal or binary numeral starts
with `0x` or `0b` in lower case, and a decimal one with a whole part that no `x` or `b` follows. -/
theorem radix_eq {w : List Char} {f : NumeralForm} (h : Numeral w f) :
    f.style.radix = radixOfText (String.ofList w) := by
  cases h with
  | hex _ | binary _ => simp [radixOfText, NumeralStyle.radix]
  | integer hw =>
    obtain ⟨-, -, -, -, -, hradix⟩ := (MantissaDenotes.whole hw).parts
    rw [← List.append_nil w, hradix [] fun _ => ⟨nofun, nofun, nofun⟩]
    rfl
  | fraction hw hds =>
    obtain ⟨-, -, -, -, -, hradix⟩ := (MantissaDenotes.fraction hw hds).parts
    rw [← List.append_nil (_ ++ _), hradix [] fun _ => ⟨nofun, nofun, nofun⟩]
    rfl
  | @exponent m s ds e hm he hs hds =>
    obtain ⟨q, hq⟩ := hm.denotes
    obtain ⟨-, -, -, -, -, hradix⟩ := hq.parts
    have hsplit : m ++ e :: s ++ ds = m ++ e :: (s ++ ds) := by simp
    rw [hsplit, hradix _ fun r' => by rcases he with rfl | rfl <;> simp]
    rfl

/-- **Both readings of a numeral give the same double.** -/
theorem numeralValue_form {w : List Char} {f : NumeralForm} (h : Numeral w f) :
    numeralValue (String.ofList w) (some f) = numeralValue (String.ofList w) none := by
  simp only [numeralValue, h.radix_eq]

end Syntax.Numeral

/-! ## The numerals of a text -/

namespace Syntax

/-- A lexeme of a numeral's kind is a numeral, spelled in the form the token records. -/
theorem Lexeme.numeral_of_kind {sp : List Char} {t : Token} (h : Lexeme sp t)
    (hk : t.kind = .numericLiteral) :
    ∃ w f, t.text = String.ofList w ∧ t.form = some f ∧ Numeral w f := by
  cases h with
  | numeral hn => exact ⟨_, _, rfl, rfl, hn⟩
  | word _ _ | string _ _ => cases hk
  | single hs =>
    unfold singleKind at hs
    split at hs <;> cases hs <;> cases hk
  | pair hs =>
    unfold pairKind at hs
    split at hs <;> cases hs <;> cases hk

/-- Every numeral among the tokens of a text is spelled by the numeral grammar, in the form the
token records. -/
theorem Scanner.numeral_of_mem_run {src : String} {t : Token}
    (ht : t ∈ (Scanner.ofString src).run.1) (hk : t.kind = .numericLiteral) :
    ∃ w f, t.text = String.ofList w ∧ t.form = some f ∧ Numeral w f := by
  obtain ⟨us, s', hsteps, hend⟩ := Scanner.run_ofString_steps src
  -- the end-of-input token that may close the run is no numeral
  have hus : t ∈ us := by
    rcases hend with ⟨e, s'', hrun⟩ | ⟨s'', hrun⟩ <;> rw [hrun] at ht
    · exact ht
    · rcases List.mem_append.1 ht with h | h
      · exact h
      · rw [List.mem_singleton.1 h] at hk
        cases hk
  obtain ⟨sp, hl⟩ := hsteps.lexemes t hus
  exact hl.numeral_of_kind hk

/-- A program read back as one numeral is that numeral, at some offset. -/
theorem Program.eq_of_erase_eq_num {p : Program} {text : String} {f : NumeralForm}
    (h : p.erase = [.expr (.num text f 0)]) : ∃ pos, p = [.expr (.num text f pos)] := by
  match p, h with
  | [.expr (.num text' f' pos)], h =>
    simp only [Program.erase, Stmt.eraseList, Stmt.erase, Expr.erase, List.cons.injEq,
      Stmt.expr.injEq, Expr.num.injEq] at h
    obtain ⟨⟨rfl, rfl, -⟩, -⟩ := h
    exact ⟨pos, rfl⟩

end Syntax

/-! ## Running a numeral -/

namespace Eval

variable [NestingLimit]

/-- A numeral evaluates to its value, below the nesting limit, and changes nothing. -/
theorem exec_expr_num (fuel d : Nat) (sc : FrameId) (text : String) (f : NumeralForm)
    (pos : Nat) (hd : d + 4 ≤ nestingLimit) (m : Machine) :
    exec (expr (fuel + 1) d sc (.num text f pos)) m =
      (.ok (.num (numeralValue text (some f))), m) := by
  simp only [expr, exec_bind, exec_reach, if_neg (show ¬nestingLimit < d by omega),
    if_neg (show ¬nestingLimit < d + 4 by omega), exec_pure]

end Eval

namespace Session

open Eval

variable [NestingLimit]

/-- A text that is one numeral runs to the numeral's value by its form, prints nothing and
leaves the session as it was. -/
theorem run_numeral (hlimit : runLevel + 25 ≤ nestingLimit) (s : Session) {text : String}
    {f : NumeralForm} (h : Numeral text.toList f) :
    s.run text = (⟨.ok (.num (numeralValue text (some f))), ""⟩, s) := by
  -- the text is the printed form of the one-statement program, so it reads back as that program
  have hp : Program.Printable [.expr (.num text f 0)] := ⟨h, trivial⟩
  have hrender : Program.render [.expr (.num text f 0)] = text := by
    simp [Program.render, Stmt.render, Expr.render, Stmt.renderLines]
  have hheight : Program.height [.expr (.num text f 0)] = 1 := by
    simp [Program.height, Stmt.listHeight, Stmt.height, Expr.height]
  obtain ⟨ts, hts, hstream⟩ := TokenStream.ofString_render hp
  rw [hrender] at hstream
  obtain ⟨p', hparse, herase⟩ := Program.ofTokens_of_tokens hp
    (show (TokenStream.mk ts (.ok ⟨.eof, "", text.length, none⟩)).tokens.map Token.erase = _
      from hts)
    rfl rfl (show runLevel + 1 + 6 * Program.height [.expr (.num text f 0)] + 18 ≤ nestingLimit by
      rw [hheight]
      omega)
  obtain ⟨pos, rfl⟩ := Program.eq_of_erase_eq_num herase
  have hrun : Program.parseAt (runLevel + 1) text = .ok [.expr (.num text f pos)] := by
    rw [Program.parseAt, hstream]
    exact hparse
  -- the one statement evaluates the numeral, three levels below the run
  obtain ⟨k, hk⟩ : ∃ k, evalFuel = k + 3 := ⟨10 ^ 15 - 3, by simp [evalFuel]⟩
  rw [run_of_parseAt s hrun, hk, body_succ_cons, exec_bind]
  simp only [stmt]
  rw [exec_expr_num _ _ _ _ _ _ (by unfold runLevel at hlimit ⊢; omega)]
  simp only [body_succ_nil, exec_pure]
  rfl

end Session

/-! ## The texts of natural numbers -/

namespace Number

/-- A natural number in hexadecimal, in lower case, after `0x`. -/
def hexText (n : Nat) : String := "0x" ++ String.ofList (Nat.toDigits 16 n)

/-- A natural number in binary, after `0b`. -/
def binaryText (n : Nat) : String := "0b" ++ String.ofList (Nat.toDigits 2 n)

theorem isHexDigit_digitChar : ∀ d < 16, isHexDigit (Nat.digitChar d) = true := by
  decide

theorem isBinaryDigit_digitChar : ∀ d < 2, isBinaryDigit (Nat.digitChar d) = true := by
  decide

theorem isDecimalDigit_digitChar : ∀ d < 10, isDecimalDigit (Nat.digitChar d) = true := by
  decide

/-- The digits of a number in a radix are digits of that radix. -/
theorem isRun_toDigits {b : Nat} (hb : 1 < b) {p : Char → Bool}
    (hp : ∀ d < b, p (Nat.digitChar d) = true) (n : Nat) : IsRun p (Nat.toDigits b n) := by
  refine ⟨Nat.toDigits_ne_nil, fun c hc => ?_⟩
  obtain ⟨d, hd, rfl⟩ := mem_toDigits hb hc
  exact hp d hd

theorem numeral_hexText (n : Nat) : Numeral (hexText n).toList ⟨.integer, .hex⟩ := by
  simpa [hexText] using Numeral.hex (isRun_toDigits (by decide) isHexDigit_digitChar n)

theorem numeral_binaryText (n : Nat) : Numeral (binaryText n).toList ⟨.integer, .binary⟩ := by
  simpa [binaryText] using Numeral.binary (isRun_toDigits (by decide) isBinaryDigit_digitChar n)

theorem numeral_toString (n : Nat) : Numeral (toString n).toList ⟨.integer, .decimal⟩ := by
  refine .integer ?_
  rw [Nat.toString_eq_repr, Nat.toList_repr]
  rcases Nat.eq_zero_or_pos n with rfl | hn
  · exact .inl (Nat.toDigits_zero 10)
  · exact .inr ⟨isRun_toDigits (by decide) isDecimalDigit_digitChar n, head_toDigits_ne_zero hn⟩

theorem numeralValue_hexText (n : Nat) :
    numeralValue (hexText n) (some ⟨.integer, .hex⟩) = Float.ofNat n := by
  simp [numeralValue, NumeralStyle.radix, hexText, digitsValue_toDigits]

theorem numeralValue_binaryText (n : Nat) :
    numeralValue (binaryText n) (some ⟨.integer, .binary⟩) = Float.ofNat n := by
  simp [numeralValue, NumeralStyle.radix, binaryText, digitsValue_toDigits]

theorem numeralValue_toString (n : Nat) :
    numeralValue (toString n) (some ⟨.integer, .decimal⟩) = Float.ofNat n := by
  have hdigits : ∀ c ∈ Nat.toDigits 10 n, isDigit c = true :=
    (isRun_toDigits (by decide) isDecimalDigit_digitChar n).2
  simp only [numeralValue, NumeralStyle.radix, Nat.toString_eq_repr, Nat.toList_repr,
    (decimalParts_whole hdigits).1, @digitsValue_toDigits 10 (by decide) (by decide) n, ↓reduceIte]
  rfl

variable [NestingLimit]

/-- **Both readings of every scanned numeral give the rounded exact number.** For every source
text and every numeral token the scanner reads from it, the token records a form in which the
grammar spells its text; the reading by that form and the reading by the text's prefix give the
same double; the text denotes a number, and every number it denotes is `m * 10 ^ e` for a
significand and scale whose conversion to a double is that double. In particular the
hexadecimal, binary and decimal texts of every natural number `n` run, in every session, to `n`
converted to a double, print nothing and leave the session as it was, at every nesting limit
that leaves room to read and run a numeral. -/
theorem numeral_readings_agree :
    (∀ (src : String), ∀ t ∈ (Scanner.ofString src).run.1, t.kind = .numericLiteral →
      ∃ f, t.form = some f ∧ Numeral t.text.toList f ∧
        numeralValue t.text (some f) = numeralValue t.text none ∧
        (∃ q, Numeral.Denotes t.text.toList q) ∧
        ∀ q, Numeral.Denotes t.text.toList q → ∃ (m : ℕ) (e : ℤ), (m : ℚ) * 10 ^ e = q ∧
          numeralValue t.text none = Float.ofScientific m (decide (e < 0)) e.natAbs) ∧
    (runLevel + 25 ≤ nestingLimit → ∀ (s : Session) (n : ℕ),
      ∀ text ∈ [hexText n, binaryText n, toString n],
        s.run text = (⟨.ok (.num (Float.ofNat n)), ""⟩, s)) := by
  refine ⟨fun src t ht hk => ?_, fun hlimit s n text htext => ?_⟩
  · obtain ⟨w, f, htext, hf, hw⟩ := Scanner.numeral_of_mem_run ht hk
    rw [htext, String.toList_ofList]
    exact ⟨f, hf, hw, Numeral.numeralValue_form hw, hw.denotes, fun q hq => hq.value⟩
  · simp only [List.mem_cons, List.not_mem_nil, or_false] at htext
    rcases htext with rfl | rfl | rfl
    · rw [Session.run_numeral hlimit s (numeral_hexText n), numeralValue_hexText]
    · rw [Session.run_numeral hlimit s (numeral_binaryText n), numeralValue_binaryText]
    · rw [Session.run_numeral hlimit s (numeral_toString n), numeralValue_toString]

end Number

end Scriptlet

namespace Scriptlet.Number

open Syntax

/-- The numeral `0x1F` is scanned as a hexadecimal integer token, whose value does not depend on
the form recorded with it; and a new session runs the hexadecimal text of 31 to the number 31. -/
theorem numeral_readings_agree_hex :
    (⟨.numericLiteral, "0x1F", 0, some ⟨.integer, .hex⟩⟩ : Token) ∈ (Scanner.ofString "0x1F").run.1 ∧
      numeralValue "0x1F" (some ⟨.integer, .hex⟩) = numeralValue "0x1F" none ∧
      runLevel + 25 ≤ nestingLimit ∧
      (Session.start true).run (hexText 31) =
        (⟨.ok (.num (Float.ofNat 31)), ""⟩, Session.start true) := by
  have hmem : (⟨.numericLiteral, "0x1F", 0, some ⟨.integer, .hex⟩⟩ : Token) ∈
      (Scanner.ofString "0x1F").run.1 := by
    decide
  have hlimit : runLevel + 25 ≤ nestingLimit := by decide
  obtain ⟨f, hf, -, hvalue, -⟩ := numeral_readings_agree.1 "0x1F" _ hmem rfl
  cases hf
  exact ⟨hmem, hvalue, hlimit,
    numeral_readings_agree.2 hlimit (Session.start true) 31 (hexText 31) List.mem_cons_self⟩

end Scriptlet.Number
