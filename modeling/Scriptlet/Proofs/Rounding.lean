import Mathlib

/-!
# Rounding in the model of doubles

Lean's doubles have a model in natural-number arithmetic. An operation computes a significand with
more bits than a double holds, together with a round bit and a sticky bit, shifts it right until it
fits the binade of the result, and rounds it to nearest with ties to even
(`Float.Model.UnpackedFloat.roundWithAccuracy`). This module gives that machinery its meaning over
the rationals.

* `Truncates em u`: the significand `em`, with its residual bits, is the value `u` in units of its
  last place: `u` cut down to a whole number, the bits recording where `u` lies in the unit above.
* `Nearest u n`: `n` is `u` rounded to the nearest integer, a tie going to the even one.
* `Grid v t`: `2^t` is the spacing of the doubles around `v`: `v` lies below `2^(t+53)`, and at or
  above `2^(t+52)` unless `t` is the least exponent, where the subnormals keep the same spacing.

## Main statements

* `roundWithAccuracy_eq`: rounding a truncation of `v` gives the nearest-even multiple of the
  spacing around `v`, carried into the next binade when it reaches `2^53` (`settle`).
* `mul_finite_eq`, `div_finite_eq`: the product and the quotient of two finite doubles are their
  exact product and quotient rounded so.
-/

set_option autoImplicit false

namespace Scriptlet.Number

open Float.Model Float.Model.UnpackedFloat

/-! ## Truncations -/

/-- The significand `em` with its round and sticky bits stands for `u`, in units of its last
place: `u` is the significand itself, or lies less than half a unit above it, exactly half a unit
above, or more than half and less than a whole unit above. -/
def Truncates (em : ExtendedMantissa) (u : ℚ) : Prop :=
  match em.roundBit, em.stickyBit with
  | false, false => u = em.mantissa
  | false, true => (em.mantissa : ℚ) < u ∧ u < em.mantissa + 1 / 2
  | true, false => u = em.mantissa + 1 / 2
  | true, true => (em.mantissa : ℚ) + 1 / 2 < u ∧ u < em.mantissa + 1

@[simp]
theorem mantissa_ofMantissaAndAccuracy (m : ℕ) (acc : Accuracy) :
    (ExtendedMantissa.ofMantissaAndAccuracy m acc).mantissa = m := by
  rcases acc with _ | (_ | _ | _) <;> rfl

/-- An exact significand stands for itself. -/
theorem truncates_exact (m : ℕ) : Truncates (.ofMantissaAndAccuracy m .exact) m := rfl

/-- A significand with the accuracy of the fraction `num / den` of a unit stands for the
significand plus that fraction. -/
theorem truncates_fraction {num den : ℕ} (h : num < den) (m : ℕ) :
    Truncates (.ofMantissaAndAccuracy m (accuracyOfFraction num den)) (m + num / den) := by
  have hden : (0 : ℚ) < den := by exact_mod_cast Nat.zero_lt_of_lt h
  have hlt : (num : ℚ) / den < 1 := by
    rw [div_lt_one hden]
    exact_mod_cast h
  unfold accuracyOfFraction
  split
  · next h0 => simp [Truncates, ExtendedMantissa.ofMantissaAndAccuracy, h0]
  · next h0 =>
    have hpos : (0 : ℚ) < num / den := div_pos (by exact_mod_cast Nat.pos_of_ne_zero h0) hden
    -- the fraction lies against one half as twice its numerator lies against `den`
    cases hc : compare (2 * num) den with
    | lt =>
      have h2 : (2 * num : ℚ) < den := by exact_mod_cast Nat.compare_eq_lt.1 hc
      have hhalf : (num : ℚ) / den < 1 / 2 := by
        rw [div_lt_iff₀ hden]
        linarith
      simp only [Truncates, ExtendedMantissa.ofMantissaAndAccuracy]
      constructor <;> linarith
    | eq =>
      have h2 : (2 * num : ℚ) = den := by exact_mod_cast Nat.compare_eq_eq.1 hc
      have hhalf : (num : ℚ) / den = 1 / 2 := by
        rw [div_eq_iff hden.ne']
        linarith
      simp only [Truncates, ExtendedMantissa.ofMantissaAndAccuracy]
      linarith
    | gt =>
      have h2 : (den : ℚ) < 2 * num := by exact_mod_cast Nat.compare_eq_gt.1 hc
      have hhalf : 1 / 2 < (num : ℚ) / den := by
        rw [lt_div_iff₀ hden]
        linarith
      simp only [Truncates, ExtendedMantissa.ofMantissaAndAccuracy]
      constructor <;> linarith

/-- A truncation lies between its significand and the next whole number. -/
theorem Truncates.floor {em : ExtendedMantissa} {u : ℚ} (h : Truncates em u) :
    (em.mantissa : ℚ) ≤ u ∧ u < em.mantissa + 1 := by
  obtain ⟨m, rb, sb⟩ := em
  cases rb <;> cases sb <;> simp only [Truncates] at h <;> constructor <;> linarith

/-- One right shift halves the value, in units of the new last place: the bit shifted out becomes
the round bit, and the old residual bits fold into the sticky bit. -/
theorem Truncates.shiftRightOne {em : ExtendedMantissa} {u : ℚ} (h : Truncates em u) :
    Truncates em.shiftRightOne (u / 2) := by
  obtain ⟨m, rb, sb⟩ := em
  have hm : ((m / 2 : ℕ) : ℚ) * 2 + (m % 2 : ℕ) = m := by exact_mod_cast Nat.div_add_mod' m 2
  rcases Nat.mod_two_eq_zero_or_one m with hr | hr <;>
    simp only [hr, Nat.cast_zero, Nat.cast_one] at hm <;>
    cases rb <;> cases sb <;>
    simp only [Truncates, ExtendedMantissa.shiftRightOne, hr, Nat.reduceBNe, Bool.or_false,
      Bool.or_true] at h ⊢ <;>
    first | constructor <;> linarith | linarith

/-- Shifting right by `n` divides the value by `2^n`. -/
theorem Truncates.shiftRight {em : ExtendedMantissa} {u : ℚ} (h : Truncates em u) (n : ℕ) :
    Truncates (em >>> n) (u / 2 ^ n) := by
  induction n with
  | zero =>
    show Truncates em (u / 2 ^ 0)
    simpa using h
  | succ n ih =>
    rw [pow_succ, ← div_div]
    exact ih.shiftRightOne

/-! ## Rounding to nearest, ties to even -/

/-- `n` is `u` rounded to the nearest integer, a tie going to the even one. -/
def Nearest (u : ℚ) (n : ℕ) : Prop :=
  (n : ℚ) - 1 / 2 ≤ u ∧ u ≤ n + 1 / 2 ∧ (u = n - 1 / 2 ∨ u = n + 1 / 2 → n % 2 = 0)

/-- Rounding to nearest with ties to even has one answer. -/
theorem Nearest.unique {u : ℚ} {n n' : ℕ} (h : Nearest u n) (h' : Nearest u n') : n = n' := by
  obtain ⟨h₁, h₂, h₃⟩ := h
  obtain ⟨h₁', h₂', h₃'⟩ := h'
  -- both lie within half a unit of `u`, so they are at most one apart, and one apart only at a
  -- tie, where both would be even
  have hle : n ≤ n' + 1 := by
    have : (n : ℚ) ≤ n' + 1 := by linarith
    exact_mod_cast this
  have hle' : n' ≤ n + 1 := by
    have : (n' : ℚ) ≤ n + 1 := by linarith
    exact_mod_cast this
  rcases Nat.lt_trichotomy n n' with hlt | heq | hgt
  · have hn' : n' = n + 1 := by omega
    subst hn'
    push_cast at h₁' h₃'
    have hu : u = n + 1 / 2 := by linarith
    have := h₃ (.inr hu)
    have := h₃' (.inl (by linarith))
    omega
  · exact heq
  · have hn : n = n' + 1 := by omega
    subst hn
    push_cast at h₁ h₃
    have hu : u = n' + 1 / 2 := by linarith
    have := h₃' (.inr hu)
    have := h₃ (.inl (by linarith))
    omega

/-- The residual bits round a truncation to nearest, ties to even. -/
theorem Truncates.nearest {em : ExtendedMantissa} {u : ℚ} (h : Truncates em u) :
    Nearest u em.roundedMantissa := by
  obtain ⟨m, rb, sb⟩ := em
  cases rb <;> cases sb <;>
    simp only [Truncates, ExtendedMantissa.roundedMantissa, ExtendedMantissa.accuracy,
      Accuracy.roundToNearestEven] at h ⊢
  · -- on the significand
    exact ⟨by linarith, by linarith, fun h' => by rcases h' with h' | h' <;> linarith⟩
  · -- less than half a unit above it
    exact ⟨by linarith, by linarith, fun h' => by rcases h' with h' | h' <;> linarith⟩
  · -- a tie: the even one of the significand and the next
    rcases Nat.mod_two_eq_zero_or_one m with hr | hr <;> rw [hr]
    · exact ⟨by push_cast; linarith, by push_cast; linarith, fun _ => by omega⟩
    · exact ⟨by push_cast; linarith, by push_cast; linarith, fun _ => by omega⟩
  · -- more than half a unit above it: the next
    refine ⟨by push_cast; linarith, by push_cast; linarith, fun h' => ?_⟩
    push_cast at h'
    rcases h' with h' | h' <;> linarith

/-! ## The spacing of the doubles -/

theorem targetExponent_binary64 (k : ℤ) :
    Format.binary64.targetExponent k = max (k - 53) (-1074) := by
  simp [Format.targetExponent, Format.mantissaBits, Format.minExponent]

/-- `2^t` is the spacing of the doubles around `v`: `v` lies below `2^(t+53)`, and at or above
`2^(t+52)` unless `t` is the least exponent, whose spacing the subnormals share. -/
def Grid (v : ℚ) (t : ℤ) : Prop :=
  -1074 ≤ t ∧ v < 2 ^ (t + 53) ∧ (t = -1074 ∨ 2 ^ (t + 52) ≤ v)

theorem Grid.le {v : ℚ} {t t' : ℤ} (h : Grid v t) (h' : Grid v t') : t ≤ t' := by
  obtain ⟨-, -, hlow⟩ := h
  obtain ⟨hmin', hhigh', -⟩ := h'
  rcases hlow with rfl | hlow
  · exact hmin'
  · by_contra hlt
    have : (2 : ℚ) ^ (t' + 53) ≤ 2 ^ (t + 52) := zpow_le_zpow_right₀ one_le_two (by omega)
    linarith

/-- A value has one spacing. -/
theorem Grid.unique {v : ℚ} {t t' : ℤ} (h : Grid v t) (h' : Grid v t') : t = t' :=
  le_antisymm (h.le h') (h'.le h)

/-- On its grid a value rounds to at most `2^53`. -/
theorem Grid.nearest_le {v : ℚ} {t : ℤ} (h : Grid v t) {n : ℕ} (hn : Nearest (v / 2 ^ t) n) :
    n ≤ 2 ^ 53 := by
  have hu : v / 2 ^ t < 2 ^ 53 := by
    rw [div_lt_iff₀ (zpow_pos two_pos t), ← zpow_natCast, ← zpow_add₀ two_ne_zero, add_comm]
    exact_mod_cast h.2.1
  have : (n : ℚ) < 2 ^ 53 + 1 := by linarith [hn.1]
  exact Nat.le_of_lt_succ (by exact_mod_cast this)

/-- A truncation of `v` at an exponent no greater than the target the model computes for it lies
on the grid of that target. -/
theorem grid_targetExponent {m : ℕ} {e : ℤ} {acc : Accuracy} {v : ℚ}
    (h : Truncates (.ofMantissaAndAccuracy m acc) (v / 2 ^ e))
    (he : e ≤ Format.binary64.targetExponent (totalExponent m e)) :
    Grid v (Format.binary64.targetExponent (totalExponent m e)) := by
  have hpos : (0 : ℚ) < 2 ^ e := zpow_pos two_pos e
  obtain ⟨hlo, hhi⟩ := h.floor
  rw [mantissa_ofMantissaAndAccuracy, le_div_iff₀ hpos] at hlo
  rw [mantissa_ofMantissaAndAccuracy, div_lt_iff₀ hpos] at hhi
  rw [targetExponent_binary64] at he ⊢
  simp only [totalExponent] at he ⊢
  have hbits : ((m + 1 : ℕ) : ℚ) ≤ 2 ^ (m.log2 + 1) := by exact_mod_cast Nat.lt_log2_self
  push_cast at hbits
  refine ⟨le_max_right _ _, ?_, ?_⟩
  · calc v < (m + 1) * 2 ^ e := hhi
      _ ≤ 2 ^ (m.log2 + 1) * 2 ^ e := by gcongr
      _ = 2 ^ (((m.log2 + 1 : ℕ) : ℤ) + e) := by rw [zpow_add₀ two_ne_zero, zpow_natCast]
      _ ≤ 2 ^ (max (↑m.log2 + 1 + e - 53) (-1074) + 53) :=
        zpow_le_zpow_right₀ one_le_two (by push_cast; omega)
  · -- above the least exponent, the significand reaches `2^52` of the spacing
    by_cases hmin : (m.log2 : ℤ) + 1 + e - 53 ≤ -1074
    · exact .inl (max_eq_right hmin)
    · right
      have hL : 52 ≤ m.log2 := by omega
      have hm : m ≠ 0 := by
        rintro rfl
        simp at hL
      have hpow : (2 : ℚ) ^ m.log2 ≤ m := by exact_mod_cast Nat.log2_self_le hm
      calc (2 : ℚ) ^ (max (↑m.log2 + 1 + e - 53) (-1074) + 52)
          = 2 ^ ((m.log2 : ℕ) : ℤ) * 2 ^ e := by
            rw [max_eq_left (by omega), ← zpow_add₀ two_ne_zero]
            congr 1
            ring
        _ ≤ m * 2 ^ e := by
            rw [zpow_natCast]
            gcongr
        _ ≤ v := hlo

/-! ## Rounding -/

/-- The float that the significand `n` rounded on the grid `2^t` stands for: zero, `n * 2^t`, or,
when rounding carried it to `2^53`, `2^52 * 2^(t+1)`. -/
def settle (s : Sign) (n : ℕ) (t : ℤ) : UnpackedFloat :=
  if n = 2 ^ 53 then .finite s (2 ^ 52) (t + 1) (Nat.two_pow_pos 52)
  else if h : n = 0 then .zero s else .finite s n t (Nat.pos_of_ne_zero h)

/-- The second shift of rounding leaves a significand below `2^53` where it is and moves `2^53`
into the next binade. -/
theorem shiftToTargetExponent_carry {n : ℕ} {t : ℤ} (hn : n ≤ 2 ^ 53) (ht : -1074 ≤ t) :
    shiftToTargetExponent .binary64 n t .exact =
      if n = 2 ^ 53 then (⟨2 ^ 52, false, false⟩, t + 1) else (⟨n, false, false⟩, t) := by
  split
  · next h =>
    subst h
    have htarget : Format.binary64.targetExponent (totalExponent (2 ^ 53) t) = t + 1 := by
      rw [targetExponent_binary64]
      simp only [totalExponent, Nat.log2_two_pow]
      omega
    simp only [shiftToTargetExponent, shiftToExponent, htarget,
      show (t + 1 - t).toNat = 1 by omega]
    rfl
  · next h =>
    have hlog : n.log2 ≤ 52 := by
      rcases Nat.eq_zero_or_pos n with rfl | hpos
      · simp
      · exact Nat.le_of_lt_succ ((Nat.log2_lt hpos.ne').2 (by omega))
    have htarget : Format.binary64.targetExponent (totalExponent n t) ≤ t := by
      rw [targetExponent_binary64]
      simp only [totalExponent]
      omega
    simp only [shiftToTargetExponent, shiftToExponent,
      show (Format.binary64.targetExponent (totalExponent n t) - t).toNat = 0 by omega,
      Nat.cast_zero, add_zero]
    rfl

/-- **Rounding is to nearest, ties to even.** A truncation of `v`, taken at an exponent no greater
than the target the model computes for it, rounds to the nearest-even multiple of the spacing
around `v`. -/
theorem roundWithAccuracy_eq {s : Sign} {m : ℕ} {e : ℤ} {acc : Accuracy} {v : ℚ}
    (h : Truncates (.ofMantissaAndAccuracy m acc) (v / 2 ^ e))
    (he : e ≤ Format.binary64.targetExponent (totalExponent m e)) {t : ℤ} (ht : Grid v t)
    {n : ℕ} (hn : Nearest (v / 2 ^ t) n) :
    roundWithAccuracy .binary64 s m e acc = settle s n t := by
  have htarget := (grid_targetExponent h he).unique ht
  -- the first shift brings the truncation down to the grid, where its residual bits round it
  have hk : e + ((t - e).toNat : ℤ) = t := by omega
  have hfirst : shiftToTargetExponent .binary64 m e acc =
      (ExtendedMantissa.ofMantissaAndAccuracy m acc >>> (t - e).toNat, t) := by
    simp only [shiftToTargetExponent, shiftToExponent, htarget, hk]
  have htrunc :
      Truncates (ExtendedMantissa.ofMantissaAndAccuracy m acc >>> (t - e).toNat) (v / 2 ^ t) := by
    have := h.shiftRight (t - e).toNat
    rwa [div_div, ← zpow_natCast, ← zpow_add₀ two_ne_zero, hk] at this
  have hround := htrunc.nearest.unique hn
  unfold roundWithAccuracy
  rw [hfirst]
  dsimp only
  rw [hround, shiftToTargetExponent_carry (ht.nearest_le hn) ht.1]
  unfold settle
  by_cases hc : n = 2 ^ 53
  · simp only [hc, if_true]
    rfl
  · by_cases hz : n = 0
    · subst hz
      simp
    · simp only [hc, hz, if_false, dif_neg, not_false_eq_true]

/-- The product of two finite doubles is their exact product rounded to nearest, ties to even,
when its significand has enough bits for the grid. -/
theorem mul_finite_eq {s₁ s₂ : Sign} {m₁ m₂ : ℕ} {e₁ e₂ : ℤ} (h₁ : 0 < m₁) (h₂ : 0 < m₂)
    (he : e₁ + e₂ ≤ Format.binary64.targetExponent (totalExponent (m₁ * m₂) (e₁ + e₂)))
    {t : ℤ} (ht : Grid (m₁ * 2 ^ e₁ * (m₂ * 2 ^ e₂)) t) {n : ℕ}
    (hn : Nearest (m₁ * 2 ^ e₁ * (m₂ * 2 ^ e₂) / 2 ^ t) n) :
    mul .binary64 (.finite s₁ m₁ e₁ h₁) (.finite s₂ m₂ e₂ h₂) = settle (s₁ * s₂) n t := by
  have hval : (m₁ * 2 ^ e₁ * (m₂ * 2 ^ e₂) : ℚ) / 2 ^ (e₁ + e₂) = ((m₁ * m₂ : ℕ) : ℚ) := by
    rw [zpow_add₀ two_ne_zero]
    push_cast
    field_simp
  have htrunc := truncates_exact (m₁ * m₂)
  rw [← hval] at htrunc
  exact roundWithAccuracy_eq htrunc he ht hn

/-- Long division leaves the quotient's truncation at the exponent it picks. -/
theorem divCore_truncates (m₁ : ℕ) (e₁ : ℤ) {m₂ : ℕ} (h₂ : 0 < m₂) (e₂ : ℤ) :
    Truncates (.ofMantissaAndAccuracy (divCore .binary64 m₁ e₁ m₂ e₂).1
        (divCore .binary64 m₁ e₁ m₂ e₂).2.2)
      (m₁ * 2 ^ e₁ / (m₂ * 2 ^ e₂) / 2 ^ (divCore .binary64 m₁ e₁ m₂ e₂).2.1) := by
  simp only [divCore]
  generalize Format.binary64.targetExponent (totalExponent m₁ e₁ - totalExponent m₂ e₂) = g
  have hk : e₁ - e₂ - min (e₁ - e₂) g = ((e₁ - e₂ - min (e₁ - e₂) g).toNat : ℤ) := by omega
  generalize (e₁ - e₂ - min (e₁ - e₂) g).toNat = k at hk
  have hm₂ : (0 : ℚ) < m₂ := by exact_mod_cast h₂
  -- the shifted dividend is the divisor times the quotient plus the remainder
  have hdiv : ((m₁ <<< k : ℕ) : ℚ) = m₂ * (m₁ <<< k / m₂ : ℕ) + (m₁ <<< k % m₂ : ℕ) := by
    exact_mod_cast (Nat.div_add_mod _ _).symm
  have hpow : (2 : ℚ) ^ e₁ / 2 ^ e₂ / 2 ^ min (e₁ - e₂) g = 2 ^ k := by
    rw [← zpow_sub₀ two_ne_zero, ← zpow_sub₀ two_ne_zero, hk, zpow_natCast]
  have hval : (m₁ * 2 ^ e₁ / (m₂ * 2 ^ e₂) / 2 ^ min (e₁ - e₂) g : ℚ) =
      (m₁ <<< k / m₂ : ℕ) + (m₁ <<< k % m₂ : ℕ) / m₂ := by
    have hshift : ((m₁ <<< k : ℕ) : ℚ) = m₁ * 2 ^ k := by
      rw [Nat.shiftLeft_eq]
      push_cast
      ring
    rw [mul_div_mul_comm, mul_div_assoc, hpow, div_mul_eq_mul_div, ← hshift, hdiv]
    field_simp
  rw [hval]
  exact truncates_fraction (Nat.mod_lt _ h₂) _

/-- Long division picks an exponent no greater than the target of its quotient: the quotient has
at least as many bits as the dividend's and divisor's exponents call for. -/
theorem divCore_exponent_le {m₁ : ℕ} (h₁ : 0 < m₁) (e₁ : ℤ) {m₂ : ℕ} (h₂ : 0 < m₂) (e₂ : ℤ) :
    (divCore .binary64 m₁ e₁ m₂ e₂).2.1 ≤
      Format.binary64.targetExponent
        (totalExponent (divCore .binary64 m₁ e₁ m₂ e₂).1 (divCore .binary64 m₁ e₁ m₂ e₂).2.1) := by
  simp only [divCore, totalExponent, targetExponent_binary64]
  have hk : e₁ - e₂ - min (e₁ - e₂) (max (m₁.log2 + 1 + e₁ - (m₂.log2 + 1 + e₂) - 53) (-1074)) =
      ((e₁ - e₂ - min (e₁ - e₂) (max (m₁.log2 + 1 + e₁ - (m₂.log2 + 1 + e₂) - 53) (-1074))).toNat :
        ℤ) := by omega
  generalize (e₁ - e₂ - min (e₁ - e₂) (max (m₁.log2 + 1 + e₁ - (m₂.log2 + 1 + e₂) - 53)
    (-1074))).toNat = k at hk
  -- the quotient has at least `log2 m₁ + k - log2 m₂` bits
  have hq : (m₁.log2 : ℤ) + k - m₂.log2 ≤ (m₁ <<< k / m₂).log2 + 1 := by
    by_cases hsmall : m₁.log2 + k ≤ m₂.log2 + 1
    · omega
    · have hge : 2 ^ (m₁.log2 + k - m₂.log2 - 1) ≤ m₁ <<< k / m₂ := by
        rw [Nat.le_div_iff_mul_le h₂, Nat.shiftLeft_eq]
        calc 2 ^ (m₁.log2 + k - m₂.log2 - 1) * m₂
            ≤ 2 ^ (m₁.log2 + k - m₂.log2 - 1) * 2 ^ (m₂.log2 + 1) :=
              Nat.mul_le_mul_left _ Nat.lt_log2_self.le
          _ = 2 ^ m₁.log2 * 2 ^ k := by rw [← Nat.pow_add, ← Nat.pow_add]; congr 1; omega
          _ ≤ m₁ * 2 ^ k := Nat.mul_le_mul_right _ (Nat.log2_self_le h₁.ne')
      have hne : m₁ <<< k / m₂ ≠ 0 := Nat.pos_iff_ne_zero.1 (lt_of_lt_of_le (Nat.two_pow_pos _) hge)
      have := (Nat.le_log2 hne).2 hge
      omega
  omega

/-- The quotient of two finite doubles is their exact quotient rounded to nearest, ties to
even. -/
theorem div_finite_eq {s₁ s₂ : Sign} {m₁ m₂ : ℕ} {e₁ e₂ : ℤ} (h₁ : 0 < m₁) (h₂ : 0 < m₂)
    {t : ℤ} (ht : Grid (m₁ * 2 ^ e₁ / (m₂ * 2 ^ e₂)) t) {n : ℕ}
    (hn : Nearest (m₁ * 2 ^ e₁ / (m₂ * 2 ^ e₂) / 2 ^ t) n) :
    div .binary64 (.finite s₁ m₁ e₁ h₁) (.finite s₂ m₂ e₂ h₂) = settle (s₁ / s₂) n t :=
  roundWithAccuracy_eq (divCore_truncates m₁ e₁ h₂ e₂) (divCore_exponent_le h₁ e₁ h₂ e₂) ht hn

end Scriptlet.Number
