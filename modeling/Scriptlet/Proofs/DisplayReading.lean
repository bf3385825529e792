import Scriptlet.Number.Notation
import Scriptlet.Proofs.Conversion
import Scriptlet.Proofs.NumeralValues

/-!
# The text of a number reads back as the number

`Notation.display.render x` writes a finite double `x` as an optional minus sign and the layout
of `Binary.shortest`. Reading that text back gives `x` again, negative zero apart, which has no
sign in its text and reads as positive zero. Three facts make it so:

* the shortest decimal lies in the interval of reals that round to `x`: each candidate
  `Binary.onGrid` offers passes `Binary.readsBack`, and moving trailing zeros into the exponent
  keeps the value (`Binary.covers_shortest`);
* every layout of a decimal `digits * 10^exp` is a numeral, written positionally or with an
  exponent, that spells exactly that number (`Notation.layout_spells`);
* reading a numeral rounds the number it spells to nearest, so a number inside the interval of
  `x` reads as `x` bit for bit (`ofScaled_toBits`).

## Main definitions

* `Spells text q`: `text` is a decimal numeral, positional or scientific, that spells `q`.

## Main statements

* `Binary.covers_shortest`: the shortest decimal of a double lies in its interval.
* `Notation.layout_spells`: every layout is a decimal numeral spelling the decimal laid out.
-/

set_option autoImplicit false

namespace Scriptlet

open Syntax Number

namespace Number

/-! ## The shortest decimal lies in the interval -/

/-- Moving trailing zeros of the digits into the exponent keeps the value. -/
theorem Decimal.value_stripFor (k : ℕ) (d : Decimal) :
    ((d.stripFor k).digits : ℚ) * 10 ^ (d.stripFor k).exp = d.digits * 10 ^ d.exp := by
  induction k generalizing d with
  | zero => rfl
  | succ k ih =>
    unfold Decimal.stripFor
    split_ifs with h
    · rw [ih]
      obtain ⟨r, hr⟩ := Nat.dvd_of_mod_eq_zero h.2
      dsimp only
      rw [hr, Nat.mul_div_cancel_left r (by norm_num), zpow_add_one₀ (by norm_num)]
      push_cast
      ring
    · rfl

namespace Binary

/-- A decimal that `onGrid` offers reads back. -/
theorem readsBack_of_onGrid {x : Binary} {g : ℤ} {d : Decimal} (h : x.onGrid g = some d) :
    x.readsBack d = true := by
  simp only [onGrid] at h
  split at h
  · -- both neighbours read back, and the choice between them is one of them
    rename_i hlo hhi
    split at h <;> (try split at h) <;> (obtain rfl := Option.some.inj h) <;> assumption
  · obtain rfl := Option.some.inj h
    assumption
  · obtain rfl := Option.some.inj h
    assumption
  · cases h

/-- The exact decimal value of a double is its value. -/
theorem value_exact (x : Binary) : (x.exact.digits : ℚ) * 10 ^ x.exact.exp = x.m * 2 ^ x.q := by
  unfold exact
  split_ifs with hq
  · obtain ⟨n, hn⟩ := Int.eq_ofNat_of_zero_le hq
    simp [hn]
  · obtain ⟨n, hn⟩ := Int.exists_eq_neg_ofNat (Int.le_of_lt (Int.not_le.1 hq))
    rw [hn]
    simp only [neg_neg, Int.toNat_natCast, Nat.pow_eq, Nat.cast_mul, Nat.cast_pow, zpow_neg,
      zpow_natCast]
    rw [show (10 : ℚ) ^ n = 5 ^ n * 2 ^ n by rw [← mul_pow]; norm_num]
    push_cast
    field_simp

/-- A double lies in its own interval. -/
theorem covers_self (x : Binary) : x.Covers (x.m * 2 ^ x.q) := by
  have hv : (x.m : ℚ) * 2 ^ x.q / 2 ^ x.q = x.m := by field_simp
  simp only [Covers, hv]
  refine ⟨.inl ?_, .inl (by linarith)⟩
  split_ifs <;> linarith

/-- **The shortest decimal of a double lies in its interval**: it reads back as the double. -/
theorem covers_shortest {x : Binary} (hm : 0 < x.m) :
    x.Covers (x.shortest.digits * 10 ^ x.shortest.exp) := by
  rcases hd : (List.range 17).findSome? (fun i => x.onGrid (x.scale - (i + 1 : Nat))) with _ | d
  · have hx : x.shortest = x.exact := by
      unfold shortest
      dsimp only
      rw [hd]
    rw [hx, value_exact]
    exact covers_self x
  · obtain ⟨i, -, hi⟩ := List.exists_of_findSome?_eq_some hd
    have hx : x.shortest = d.strip := by
      unfold shortest
      dsimp only
      rw [hd]
    rw [hx, Decimal.strip, Decimal.value_stripFor, ← readsBack_iff hm]
    exact readsBack_of_onGrid hi

end Binary

/-! ## Every layout is a numeral spelling the decimal -/

/-- `text` is a numeral written in decimal, positionally or with an exponent, that spells `q`. -/
def Spells (text : List Char) (q : ℚ) : Prop :=
  ∃ f : NumeralForm, Numeral text f ∧ (f.style = .decimal ∨ f.style = .scientific) ∧
    Numeral.Denotes text q

theorem isDecimalDigit_zero : isDecimalDigit '0' = true := by decide

theorem positional_zeros (k : ℕ) : Numeral.positional 10 (zeros k) = 0 := by
  induction k with
  | zero => rfl
  | succ k ih =>
    rw [zeros, List.replicate_succ', ← zeros, positional_append, ih]
    rfl

theorem positional_zeros_append (k : ℕ) (ds : List Char) :
    Numeral.positional 10 (zeros k ++ ds) = Numeral.positional 10 ds := by
  rw [positional_append, positional_zeros, zero_mul, zero_add]

theorem positional_append_zeros (ds : List Char) (k : ℕ) :
    Numeral.positional 10 (ds ++ zeros k) = Numeral.positional 10 ds * 10 ^ k := by
  rw [positional_append, positional_zeros, add_zero, zeros, List.length_replicate]

theorem positional_toDigits (n : ℕ) : Numeral.positional 10 (Nat.toDigits 10 n) = n := by
  rw [← digitsValue_eq_positional, digitsValue_toDigits (by decide) (by decide)]

theorem IsRun.zeros_append {a : List Char} (ha : IsRun isDecimalDigit a) (k : ℕ) :
    IsRun isDecimalDigit (zeros k ++ a) :=
  ⟨by simp [ha.1], by
    simpa [zeros, or_imp, forall_and, List.mem_replicate] using
      ⟨fun _ => isDecimalDigit_zero, ha.2⟩⟩

theorem isDecimalDigit_zeros (k : ℕ) : ∀ c ∈ zeros k, isDecimalDigit c = true := by
  intro c hc
  rw [zeros, List.mem_replicate] at hc
  rw [hc.2]
  exact isDecimalDigit_zero

/-- A whole part, followed by `.0` when `b`: a decimal numeral spelling the whole part. -/
theorem spells_whole (b : Bool) {w : List Char} (hw : IsWhole w) :
    Spells (w ++ if b then ['.', '0'] else []) (Numeral.positional 10 w) := by
  cases b with
  | false => exact ⟨_, by simpa using Numeral.integer hw, .inl rfl, by simpa using .plain (.whole hw)⟩
  | true =>
    have hz : IsRun isDecimalDigit ['0'] := ⟨by simp, by simp [isDecimalDigit_zero]⟩
    refine ⟨_, Numeral.fraction hw hz, .inl rfl, ?_⟩
    have hd := Numeral.Denotes.plain (.fraction hw hz)
    have h0 : Numeral.positional 10 ['0'] = 0 := rfl
    simpa [h0] using hd

/-- A whole part, a point and digits: a decimal numeral. -/
theorem spells_point {w ds : List Char} (hw : IsWhole w) (hds : IsRun isDecimalDigit ds) :
    Spells (w ++ '.' :: ds)
      (Numeral.positional 10 w + Numeral.positional 10 ds / 10 ^ ds.length) :=
  ⟨_, Numeral.fraction hw hds, .inl rfl, .plain (.fraction hw hds)⟩

/-- A mantissa, `e`, the sign of `k` and the digits of `|k|` padded to `w`: a numeral in
scientific notation spelling the mantissa's number times `10^k`. -/
theorem spells_exponent {m : List Char} {q : ℚ} (hm : IsMantissa m)
    (hq : Numeral.MantissaDenotes m q) (k : ℤ) (w : ℕ) :
    Spells (m ++ 'e' :: (if k < 0 then '-' else '+') :: padded w k.natAbs) (q * 10 ^ k) := by
  have hs : [if k < 0 then '-' else '+'] = [] ∨ [if k < 0 then '-' else '+'] = ['+'] ∨
      [if k < 0 then '-' else '+'] = ['-'] := by
    split_ifs <;> simp
  have hrun : IsRun isDecimalDigit (padded w k.natAbs) :=
    IsRun.zeros_append (isRun_toDigits (by decide) isDecimalDigit_digitChar _) _
  have htext : m ++ 'e' :: (if k < 0 then '-' else '+') :: padded w k.natAbs =
      m ++ 'e' :: [if k < 0 then '-' else '+'] ++ padded w k.natAbs := by simp
  have hval : (10 : ℚ) ^ k = 10 ^ (if [if k < 0 then '-' else '+'] = ['-']
      then -(Numeral.positional 10 (padded w k.natAbs) : ℤ)
      else Numeral.positional 10 (padded w k.natAbs)) := by
    rw [padded, positional_zeros_append, positional_toDigits]
    by_cases hk : k < 0
    · simp only [hk, if_true]
      congr 1
      omega
    · have hsign : ('+' : Char) ≠ '-' := by decide
      simp only [hk, if_false, List.cons.injEq, and_true, hsign]
      congr 1
      omega
  rw [htext, hval]
  exact ⟨_, Numeral.exponent hm (.inl rfl) hs hrun, .inr rfl,
    .exponent hq (.inl rfl) hs hrun⟩

/-- Digits without a leading zero, followed by zeros: a whole part. -/
theorem isWhole_append_zeros {ds : List Char} (hrun : IsRun isDecimalDigit ds)
    (hhead : ds.head? ≠ some '0') (k : ℕ) : IsWhole (ds ++ zeros k) := by
  obtain ⟨c, rest, rfl⟩ := List.exists_cons_of_ne_nil hrun.1
  refine .inr ⟨⟨by simp, fun x hx => ?_⟩, by simpa using hhead⟩
  rcases List.mem_append.1 hx with hx | hx
  · exact hrun.2 x hx
  · exact isDecimalDigit_zeros k x hx

/-- The positional layout of a decimal with a non-negative exponent: its digits, then zeros. -/
theorem spells_integral (b : Bool) {ds : List Char} (hrun : IsRun isDecimalDigit ds)
    (hhead : ds.head? ≠ some '0') {exp : ℤ} (hexp : 0 ≤ exp) :
    Spells (ds ++ zeros exp.toNat ++ if b then ['.', '0'] else [])
      (Numeral.positional 10 ds * 10 ^ exp) := by
  have h := spells_whole b (isWhole_append_zeros hrun hhead exp.toNat)
  rwa [positional_append_zeros, Nat.cast_mul, Nat.cast_pow, ← zpow_natCast,
    Int.toNat_of_nonneg hexp, Nat.cast_ofNat] at h

/-- The positional layout of a decimal whose point falls inside its digits: the digits up to the
unit digit, a point, and the rest. -/
theorem spells_point_inside {ds : List Char} (hrun : IsRun isDecimalDigit ds)
    (hhead : ds.head? ≠ some '0') {exp e : ℤ} (he : exp + ((ds.length - 1 : ℕ) : ℤ) = e)
    (hexp : exp < 0) (he0 : 0 ≤ e) :
    Spells (ds.take (e.toNat + 1) ++ '.' :: ds.drop (e.toNat + 1))
      (Numeral.positional 10 ds * 10 ^ exp) := by
  have hlen : 0 < ds.length := List.length_pos_of_ne_nil hrun.1
  -- the point stands after `k` digits, and `-exp` digits follow it
  set k := e.toNat + 1 with hk
  have hkL : k < ds.length := by omega
  have hfrac : (ds.drop k).length = (-exp).toNat := by
    rw [List.length_drop]
    omega
  obtain ⟨c, rest, hds⟩ := List.exists_cons_of_ne_nil hrun.1
  have hw : IsWhole (ds.take k) := by
    refine .inr ⟨⟨by simp [hds, hk], fun x hx => hrun.2 x (List.mem_of_mem_take hx)⟩, ?_⟩
    rw [hds, hk, List.take_succ_cons]
    simpa [hds] using hhead
  have hd : IsRun isDecimalDigit (ds.drop k) :=
    ⟨by simp; omega, fun x hx => hrun.2 x (List.mem_of_mem_drop hx)⟩
  have hsplit := positional_append 10 (ds.take k) (ds.drop k)
  rw [List.take_append_drop, hfrac] at hsplit
  have h := spells_point hw hd
  rw [hfrac] at h
  convert h using 1
  obtain ⟨N, hN⟩ : ∃ N : ℕ, exp = -N := ⟨(-exp).toNat, by omega⟩
  have hNat : (-exp).toNat = N := by omega
  rw [hsplit, hNat, hN, zpow_neg, zpow_natCast]
  push_cast
  field_simp

/-- The positional layout of a decimal below one: `0.`, zeros, then its digits. -/
theorem spells_point_before {ds : List Char} (hrun : IsRun isDecimalDigit ds) {exp e : ℤ}
    (he : exp + ((ds.length - 1 : ℕ) : ℤ) = e) (he0 : e < 0) :
    Spells ('0' :: '.' :: zeros ((-e).toNat - 1) ++ ds) (Numeral.positional 10 ds * 10 ^ exp) := by
  have hlen : 0 < ds.length := List.length_pos_of_ne_nil hrun.1
  have h := spells_point (w := ['0']) (.inl rfl) (IsRun.zeros_append hrun ((-e).toNat - 1))
  have htext : ['0'] ++ '.' :: (zeros ((-e).toNat - 1) ++ ds) =
      '0' :: '.' :: zeros ((-e).toNat - 1) ++ ds := rfl
  have hz : (zeros ((-e).toNat - 1)).length = (-e).toNat - 1 := List.length_replicate
  rw [htext, positional_zeros_append, List.length_append, hz] at h
  convert h using 1
  obtain ⟨N, hN⟩ : ∃ N : ℕ, exp = -N := ⟨(-exp).toNat, by omega⟩
  rw [hN, show (-e).toNat - 1 + ds.length = N by omega, zpow_neg, zpow_natCast]
  have h0 : Numeral.positional 10 ['0'] = 0 := rfl
  simp [h0, div_eq_mul_inv]

/-- **Every layout spells its decimal.** For every notation and every decimal `digits * 10^exp`,
the layout is a decimal numeral, positional or with an exponent, that spells exactly that
number. -/
theorem Notation.layout_spells (n : Notation) (d : Decimal) :
    Spells (n.layout d) (d.digits * 10 ^ d.exp) := by
  unfold Notation.layout
  dsimp only
  by_cases h0 : d.digits = 0
  · rw [if_pos h0, h0, Nat.cast_zero, zero_mul]
    exact spells_whole n.pointZero (w := ['0']) (.inl rfl)
  rw [if_neg h0]
  have hrun := isRun_toDigits (by decide) isDecimalDigit_digitChar d.digits
  have hhead := head_toDigits_ne_zero (Nat.pos_of_ne_zero h0)
  have hval : (d.digits : ℚ) = (Numeral.positional 10 (Nat.toDigits 10 d.digits) : ℕ) := by
    rw [positional_toDigits]
  rw [hval]
  generalize Nat.toDigits 10 d.digits = ds at hrun hhead ⊢
  generalize he : d.exp + ((ds.length - 1 : ℕ) : ℤ) = e
  by_cases hplain : n.plainFrom ≤ e ∧ e < n.plainBelow
  · rw [if_pos hplain]
    by_cases hexp : 0 ≤ d.exp
    · rw [if_pos hexp]
      exact spells_integral n.pointZero hrun hhead hexp
    rw [if_neg hexp]
    by_cases he0 : 0 ≤ e
    · rw [if_pos he0]
      exact spells_point_inside hrun hhead he (Int.not_le.1 hexp) he0
    · rw [if_neg he0]
      exact spells_point_before hrun he (Int.not_le.1 he0)
  rw [if_neg hplain]
  -- with an exponent: the leading digit, and a point before the others if there are any
  rcases ds with _ | ⟨c, _ | ⟨c', rest⟩⟩
  · exact absurd rfl hrun.1
  · have hw : IsWhole [c] := .inr ⟨hrun, hhead⟩
    have h := spells_exponent (.inl hw) (.whole hw) e n.expWidth
    convert h using 2
    rw [← he]
    simp
  · have hw : IsWhole [c] := .inr ⟨⟨by simp, by simpa using hrun.2 c⟩, hhead⟩
    have hd : IsRun isDecimalDigit (c' :: rest) := ⟨by simp, fun x hx => hrun.2 x (by simp [hx])⟩
    have h := spells_exponent (.inr ⟨_, _, hw, hd, rfl⟩) (.fraction hw hd) e n.expWidth
    convert h using 1
    · rfl
    have hsplit := positional_append 10 [c] (c' :: rest)
    rw [List.singleton_append] at hsplit
    rw [← he, hsplit]
    simp only [List.length_cons, Nat.add_sub_cancel, Nat.cast_add, Nat.cast_mul, Nat.cast_pow,
      zpow_add₀ (show (10 : ℚ) ≠ 0 by norm_num), zpow_natCast]
    push_cast
    field_simp
    ring

end Number

end Scriptlet
