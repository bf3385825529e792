import Scriptlet.Number.Shortest
import Scriptlet.Number.Reading
import Scriptlet.Proofs.Rounding

/-!
# Reading a decimal gives the double around it

A finite nonzero double `x = m * 2^q` is the value of every rational within half its spacing of
it, a quarter below a power of two where the spacing below halves; the two ends are included
when `m` is even, as ties go to the even significand (`Binary.Covers`). This is the interval that
`Binary.readsBack` tests (`Binary.readsBack_iff`).

The conversion `ofScaled m e` of a decimal `m * 10^e` to a double goes through Lean's model of
doubles: a product or quotient of two exact doubles when both `m` and `10^e` are small, else a
long multiplication or division, each rounded by `roundWithAccuracy`. Either way it rounds to
nearest with ties to even, so a decimal inside the interval of `x` reads as `x`, bit for bit.

## Main definitions

* `Canonical n t`: `n * 2^t` is a finite nonzero double in the form the model packs.
* `Binary.Valid`: a `Binary` read from the bits of a finite nonzero double.
* `Binary.Covers x v`: `v` lies in the interval of reals that round to `x`.

## Main statements

* `Binary.readsBack_iff`: `readsBack` tests the interval.
* `ofScaled_toBits`: a decimal inside the interval of the double with bits `b` reads as `b`.
-/

set_option autoImplicit false

namespace Scriptlet.Number

open Float.Model Float.Model.UnpackedFloat

/-! ## Canonical doubles -/

/-- A whole number rounds to itself. -/
theorem nearest_natCast (n : ℕ) : Nearest n n :=
  ⟨by linarith, by linarith, fun h => by rcases h with h | h <;> linarith⟩

/-- The grid of `v`, read in units of `2^t`. -/
theorem grid_of_units {v : ℚ} {t : ℤ} (ht : -1074 ≤ t) (hhi : v / 2 ^ t < 2 ^ 53)
    (hlo : t = -1074 ∨ 2 ^ 52 ≤ v / 2 ^ t) : Grid v t := by
  have hpos : (0 : ℚ) < 2 ^ t := zpow_pos two_pos t
  have hsplit : ∀ k : ℕ, (2 : ℚ) ^ (t + k) = 2 ^ k * 2 ^ t := fun k => by
    rw [add_comm, zpow_add₀ two_ne_zero, zpow_natCast]
  refine ⟨ht, ?_, ?_⟩
  · rw [show t + 53 = t + (53 : ℕ) from rfl, hsplit, ← div_lt_iff₀ hpos]
    exact hhi
  · rcases hlo with hlo | hlo
    · exact .inl hlo
    · right
      rw [show t + 52 = t + (52 : ℕ) from rfl, hsplit, ← le_div_iff₀ hpos]
      exact hlo

/-- `n * 2^t` as a finite nonzero double holds it: a significand below `2^53`, of 53 bits unless
at the least exponent, at an exponent from `-1074` to `971`. -/
structure Canonical (n : ℕ) (t : ℤ) : Prop where
  pos : 0 < n
  lt : n < 2 ^ 53
  normal : 2 ^ 52 ≤ n ∨ t = -1074
  least : -1074 ≤ t
  most : t ≤ 971

namespace Canonical

variable {n : ℕ} {t : ℤ}

/-- A canonical double lies on its own grid. -/
theorem grid (h : Canonical n t) : Grid (n * 2 ^ t) t := by
  have hunits : (n : ℚ) * 2 ^ t / 2 ^ t = n := mul_div_cancel_right₀ _ (zpow_ne_zero t two_ne_zero)
  refine grid_of_units h.least (by rw [hunits]; exact_mod_cast h.lt) ?_
  rcases h.normal with hn | hn
  · exact .inr (by rw [hunits]; exact_mod_cast hn)
  · exact .inl hn

/-- Settling a canonical significand changes nothing. -/
theorem settle_eq (h : Canonical n t) (s : Sign) : settle s n t = .finite s n t h.pos := by
  unfold settle
  rw [if_neg h.lt.ne, dif_neg h.pos.ne']

end Canonical

/-! ## The bits of a double -/

/-- The exponent field of the bits of a double. -/
def exponentField (b : UInt64) : ℕ := b.toNat / 2 ^ 52 % 2 ^ 11

/-- The fraction field of the bits of a double. -/
def fractionField (b : UInt64) : ℕ := b.toNat % 2 ^ 52

theorem exponentField_lt (b : UInt64) : exponentField b < 2 ^ 11 := Nat.mod_lt _ (by decide)

theorem fractionField_lt (b : UInt64) : fractionField b < 2 ^ 52 := Nat.mod_lt _ (by decide)

/-- The low 63 bits of a double are its exponent field and its fraction field. -/
theorem toNat_mod_eq_fields (b : UInt64) :
    b.toNat % 2 ^ 63 = exponentField b * 2 ^ 52 + fractionField b := by
  unfold exponentField fractionField
  have h := Nat.div_add_mod b.toNat (2 ^ 52)
  have h' := Nat.div_add_mod (b.toNat / 2 ^ 52) (2 ^ 11)
  omega

/-- The exponent field as the bits select it. -/
theorem toNat_exponentBits (b : UInt64) : ((b >>> 52) &&& 0x7FF).toNat = exponentField b := by
  rw [UInt64.toNat_and, UInt64.toNat_shiftRight, show (0x7FF : UInt64).toNat = 2 ^ 11 - 1 by rfl,
    Nat.and_two_pow_sub_one_eq_mod, Nat.shiftRight_eq_div_pow]
  rfl

/-- The fraction field as the bits select it. -/
theorem toNat_fractionBits (b : UInt64) : (b &&& 0xFFFFFFFFFFFFF).toNat = fractionField b := by
  rw [UInt64.toNat_and, show (0xFFFFFFFFFFFFF : UInt64).toNat = 2 ^ 52 - 1 by rfl,
    Nat.and_two_pow_sub_one_eq_mod]
  rfl

theorem ofBits_eq (b : UInt64) :
    Binary.ofBits b = if exponentField b = 0 then ⟨fractionField b, -1074, false⟩
      else ⟨2 ^ 52 + fractionField b, (exponentField b : ℤ) - 1075,
        decide (fractionField b = 0 ∧ 1 < exponentField b)⟩ := by
  simp only [Binary.ofBits, toNat_exponentBits, toNat_fractionBits, Nat.pow_eq]

/-! ## The interval of a double -/

namespace Binary

/-- A `Binary` as read from the bits of a finite nonzero double: a canonical significand and
exponent, with the narrow gap below exactly at the powers of two above the least normal
exponent. -/
structure Valid (x : Binary) : Prop where
  canonical : Canonical x.m x.q
  narrow : x.narrowBelow = true ↔ x.m = 2 ^ 52 ∧ -1074 < x.q

/-- The rationals that round to `x`, read in units of its spacing: within half a unit of its
significand, or a quarter below it where the spacing below halves, each end included when the
significand is even. -/
def Covers (x : Binary) (v : ℚ) : Prop :=
  let lo : ℚ := if x.narrowBelow then x.m - 1 / 4 else x.m - 1 / 2
  let hi : ℚ := x.m + 1 / 2
  (lo < v / 2 ^ x.q ∨ (x.m % 2 = 0 ∧ v / 2 ^ x.q = lo)) ∧
    (v / 2 ^ x.q < hi ∨ (x.m % 2 = 0 ∧ v / 2 ^ x.q = hi))

end Binary

/-- The bits of a finite nonzero double read as a valid `Binary`. -/
theorem valid_ofBits {b : UInt64} (hfin : exponentField b ≠ 2047)
    (hm : (Binary.ofBits b).m ≠ 0) : (Binary.ofBits b).Valid := by
  have he := exponentField_lt b
  have hf := fractionField_lt b
  rw [ofBits_eq] at hm ⊢
  by_cases h0 : exponentField b = 0
  · -- subnormal: the fraction alone at the least exponent
    simp only [h0, if_true] at hm ⊢
    refine ⟨⟨Nat.pos_of_ne_zero hm, by dsimp only; omega, .inr rfl, le_rfl, by dsimp only; omega⟩,
      ?_⟩
    simp
  · -- normal: the fraction below an implicit leading bit
    simp only [h0, if_false] at hm ⊢
    refine ⟨⟨by dsimp only; omega, by dsimp only; omega, .inl (by dsimp only; omega),
      by dsimp only; omega, by dsimp only; omega⟩, ?_⟩
    simp only [decide_eq_true_eq]
    omega

/-- Comparing scaled naturals compares the rationals they scale. -/
theorem compare_of_scaled {A B : ℕ} {x y c : ℚ} (hc : 0 < c) (hA : (A : ℚ) = x * c)
    (hB : (B : ℚ) = y * c) : compare A B = compare x y := by
  rcases lt_trichotomy x y with h | rfl | h
  · have hlt : (A : ℚ) < B := by
      rw [hA, hB]
      exact mul_lt_mul_of_pos_right h hc
    rw [compare_lt_iff_lt.2 (by exact_mod_cast hlt), compare_lt_iff_lt.2 h]
  · have heq : A = B := by exact_mod_cast hA.trans hB.symm
    rw [heq, compare_eq_iff_eq.2 rfl, compare_eq_iff_eq.2 rfl]
  · have hlt : (B : ℚ) < A := by
      rw [hA, hB]
      exact mul_lt_mul_of_pos_right h hc
    rw [compare_gt_iff_gt.2 (by exact_mod_cast hlt), compare_gt_iff_gt.2 h]

/-- `cmpScaled` compares `a * 10^i` with `n * 2^j` exactly. -/
theorem cmpScaled_eq (a : ℕ) (i : ℤ) (n : ℕ) (j : ℤ) :
    cmpScaled a i n j = compare ((a : ℚ) * 10 ^ i / 2 ^ j) n := by
  unfold cmpScaled
  -- both products are `10^(-i)⁺ * 2^j⁺` times the rationals compared
  have hten : (10 : ℚ) ^ i * 10 ^ (-i).toNat = 10 ^ i.toNat := by
    rw [← zpow_natCast, ← zpow_natCast, ← zpow_add₀ (by norm_num)]
    congr 1
    omega
  have htwo : (2 : ℚ) ^ j.toNat = 2 ^ j * 2 ^ (-j).toNat := by
    rw [← zpow_natCast, ← zpow_natCast, ← zpow_add₀ two_ne_zero]
    congr 1
    omega
  have hpos : (0 : ℚ) < 2 ^ j := zpow_pos two_pos j
  refine compare_of_scaled (c := 10 ^ (-i).toNat * 2 ^ j.toNat) (by positivity) ?_ ?_
  · simp only [Nat.pow_eq]
    push_cast
    rw [← hten, htwo]
    field_simp
  · simp only [Nat.pow_eq]
    push_cast
    ring

/-- `readsBack` tests the interval of a double. -/
theorem Binary.readsBack_iff {x : Binary} (hm : 0 < x.m) (d : Decimal) :
    x.readsBack d = true ↔ x.Covers (d.digits * 10 ^ d.exp) := by
  -- the model counts in quarters of the spacing
  have hquarter : (d.digits : ℚ) * 10 ^ d.exp / 2 ^ (x.q - 2) =
      4 * ((d.digits : ℚ) * 10 ^ d.exp / 2 ^ x.q) := by
    rw [zpow_sub₀ two_ne_zero]
    field_simp
    norm_num
  have hlo₁ : ((4 * x.m - 1 : ℕ) : ℚ) = 4 * (x.m - 1 / 4) := by
    rw [Nat.cast_sub (by omega)]
    push_cast
    ring
  have hlo₂ : ((4 * x.m - 2 : ℕ) : ℚ) = 4 * (x.m - 1 / 2) := by
    rw [Nat.cast_sub (by omega)]
    push_cast
    ring
  have hhi : ((4 * x.m + 2 : ℕ) : ℚ) = 4 * (x.m + 1 / 2) := by
    push_cast
    ring
  have hlo : (((if x.narrowBelow then 4 * x.m - 1 else 4 * x.m - 2 : ℕ)) : ℚ) =
      4 * (if x.narrowBelow then (x.m : ℚ) - 1 / 4 else x.m - 1 / 2) := by
    split <;> assumption
  simp only [Binary.readsBack, Binary.Covers, cmpScaled_eq, hquarter, hlo, hhi, Bool.and_eq_true,
    Bool.or_eq_true, beq_iff_eq, compare_gt_iff_gt, compare_eq_iff_eq, compare_lt_iff_lt]
  simp only [mul_lt_mul_iff_of_pos_left (show (0 : ℚ) < 4 by norm_num),
    mul_right_inj' (show (4 : ℚ) ≠ 0 by norm_num)]

/-- **A covered value rounds to the double.** Every rational in the interval of a valid double has
a grid on which it rounds to a significand that settles as that double: its own significand on
its own grid, or, just below a power of two where the spacing below halves, `2^53` on the finer
grid below, which carries back into the binade of `x`. -/
theorem Binary.Valid.rounds {x : Binary} (hx : x.Valid) {v : ℚ} (h : x.Covers v) :
    ∃ t n, Grid v t ∧ Nearest (v / 2 ^ t) n ∧
      ∀ s, settle s n t = .finite s x.m x.q hx.canonical.pos := by
  obtain ⟨hc, hnarrow⟩ := hx
  obtain ⟨hlo, hhi⟩ := h
  -- read `v` in units of the spacing of `x`
  generalize hu : v / 2 ^ x.q = u at hlo hhi
  have hm : (x.m : ℚ) + 1 ≤ 2 ^ 53 := by exact_mod_cast hc.lt
  by_cases hb : x.narrowBelow = true ∧ u < x.m
  · -- just below a power of two: the finer grid, where `u` rounds up to `2^53`
    obtain ⟨hn, hbelow⟩ := hb
    obtain ⟨hpow, hq⟩ := hnarrow.1 hn
    simp only [hn, if_true] at hlo
    have hu2 : v / 2 ^ (x.q - 1) = 2 * u := by
      rw [zpow_sub₀ two_ne_zero, ← hu]
      field_simp
    have hm' : (x.m : ℚ) = 2 ^ 52 := by exact_mod_cast hpow
    have hquarter : x.m - 1 / 4 ≤ u := by rcases hlo with hlo | ⟨-, hlo⟩ <;> linarith
    refine ⟨x.q - 1, 2 ^ 53, grid_of_units (by omega) ?_ (.inr ?_), ?_, fun s => ?_⟩
    · rw [hu2]
      linarith
    · rw [hu2]
      linarith
    · rw [hu2]
      push_cast
      exact ⟨by linarith, by linarith, fun _ => by norm_num⟩
    · simp only [settle, if_true, hpow, sub_add_cancel]
  · -- elsewhere its own grid, where `u` rounds to the significand
    have hge : (x.m : ℚ) - 1 / 2 ≤ u ∧ (u = x.m - 1 / 2 → x.m % 2 = 0) := by
      by_cases hn : x.narrowBelow = true
      · have : (x.m : ℚ) ≤ u := not_lt.1 fun h => hb ⟨hn, h⟩
        exact ⟨by linarith, fun h => by linarith⟩
      · simp only [hn, Bool.false_eq_true, if_false] at hlo
        rcases hlo with hlo | ⟨he, hlo⟩
        · exact ⟨hlo.le, fun h => by linarith⟩
        · exact ⟨hlo.ge, fun _ => he⟩
    have hle : u ≤ x.m + 1 / 2 ∧ (u = x.m + 1 / 2 → x.m % 2 = 0) := by
      rcases hhi with hhi | ⟨he, hhi⟩
      · exact ⟨hhi.le, fun h => by linarith⟩
      · exact ⟨hhi.le, fun _ => he⟩
    refine ⟨x.q, x.m, grid_of_units hc.least (by rw [hu]; linarith) ?_, ?_,
      fun s => hc.settle_eq s⟩
    · rcases hc.normal with hn | hn
      · rcases Nat.lt_or_ge (2 ^ 52) x.m with hgt | hle52
        · -- above the power of two the interval starts above it
          have : (2 : ℚ) ^ 52 + 1 ≤ x.m := by exact_mod_cast hgt
          exact .inr (by rw [hu]; linarith)
        · -- at the power of two the gap below is narrow unless at the least exponent
          by_cases hq : x.q = -1074
          · exact .inl hq
          · have hpow : x.m = 2 ^ 52 := le_antisymm hle52 hn
            have : (x.m : ℚ) ≤ u :=
              not_lt.1 fun h => hb ⟨hnarrow.2 ⟨hpow, by have := hc.least; omega⟩, h⟩
            have hm' : (x.m : ℚ) = 2 ^ 52 := by exact_mod_cast hpow
            exact .inr (by rw [hu]; linarith)
      · exact .inl hn
    · rw [hu]
      exact ⟨hge.1, hle.1, fun h => h.elim hge.2 hle.2⟩

/-- The interval of a valid double lies between `2^-1075` and `2^1024`. -/
theorem Binary.Valid.covers_bounds {x : Binary} (hx : x.Valid) {v : ℚ} (h : x.Covers v) :
    2 ^ (-1075 : ℤ) ≤ v ∧ v < 2 ^ (1024 : ℤ) := by
  obtain ⟨hc, -⟩ := hx
  obtain ⟨hlo, hhi⟩ := h
  have hq : (0 : ℚ) < 2 ^ x.q := zpow_pos two_pos x.q
  have hm₁ : (1 : ℚ) ≤ x.m := by exact_mod_cast hc.pos
  have hm : (x.m : ℚ) + 1 ≤ 2 ^ 53 := by exact_mod_cast hc.lt
  -- in units of the spacing `v` lies between one half and `2^53`
  have hu₁ : 1 / 2 ≤ v / 2 ^ x.q := by
    split at hlo <;> rcases hlo with hlo | ⟨-, hlo⟩ <;> linarith
  have hu₂ : v / 2 ^ x.q < 2 ^ (53 : ℤ) := by
    norm_num
    rcases hhi with hhi | ⟨-, hhi⟩ <;> linarith
  constructor
  · calc (2 : ℚ) ^ (-1075 : ℤ) = 2 ^ (-1 : ℤ) * 2 ^ (-1074 : ℤ) := by
          rw [← zpow_add₀ two_ne_zero]
          norm_num
      _ ≤ v / 2 ^ x.q * 2 ^ x.q := by
        gcongr
        · norm_num
          exact hu₁
        · norm_num
        · exact hc.least
      _ = v := div_mul_cancel₀ _ hq.ne'
  · calc v = v / 2 ^ x.q * 2 ^ x.q := (div_mul_cancel₀ _ hq.ne').symm
      _ < 2 ^ (53 : ℤ) * 2 ^ x.q := mul_lt_mul_of_pos_right hu₂ hq
      _ = 2 ^ (53 + x.q) := (zpow_add₀ two_ne_zero _ _).symm
      _ ≤ 2 ^ (1024 : ℤ) := zpow_le_zpow_right₀ one_le_two (by have := hc.most; omega)

/-! ## Packing and unpacking -/

theorem toNat_packComponents (s : Sign) (E : BitVec 11) (M : BitVec 52) :
    (packComponents .binary64 s E M).toNat =
      s.toBitVec.toNat * 2 ^ 63 + E.toNat * 2 ^ 52 + M.toNat := by
  simp only [packComponents, BitVec.toNat_append]
  rw [← Nat.shiftLeft_add_eq_or_of_lt M.isLt, ← Nat.shiftLeft_add_eq_or_of_lt E.isLt,
    Nat.shiftLeft_eq, Nat.shiftLeft_eq]
  ring

theorem unpackSign_packComponents (s : Sign) (E : BitVec 11) (M : BitVec 52) :
    unpackSign (packComponents .binary64 s E M) = s.toBitVec := by
  apply BitVec.eq_of_toNat_eq
  have hE := E.isLt
  have hM := M.isLt
  simp only [unpackSign, BitVec.toNat_cast, BitVec.extractLsb, BitVec.extractLsb'_toNat,
    toNat_packComponents, Nat.shiftRight_eq_div_pow]
  cases s <;> simp [Sign.toBitVec] <;> omega

@[simp]
theorem ofBitVec_toBitVec (s : Sign) : Sign.ofBitVec s.toBitVec = s := by
  cases s <;> rfl

theorem Canonical.normal_iff {n : ℕ} {t : ℤ} (hc : Canonical n t) :
    n.log2 + 1 = Format.binary64.mantissaBits ↔ 2 ^ 52 ≤ n := by
  rw [← Nat.le_log2 hc.pos.ne', show Format.binary64.mantissaBits = 53 from rfl]
  have := (Nat.log2_lt hc.pos.ne').2 hc.lt
  omega

/-- A canonical double packs into its sign, its biased exponent (zero when subnormal) and the
significand below its leading bit. -/
theorem pack_canonical {n : ℕ} {t : ℤ} (hc : Canonical n t) (s : Sign) :
    UnpackedFloat.pack .binary64 (.finite s n t hc.pos) =
      packComponents .binary64 s (BitVec.ofNat 11 (if 2 ^ 52 ≤ n then (t + 1075).toNat else 0))
        (BitVec.ofNat 52 n) := by
  have hbias : (t + (Format.binary64.exponentBias : ℤ) +
      Format.binary64.mantissaBitsWithoutImplicit).toNat = (t + 1075).toNat := by
    rw [show (Format.binary64.exponentBias : ℤ) = 1023 from rfl,
      show (Format.binary64.mantissaBitsWithoutImplicit : ℤ) = 52 from rfl]
    congr 1
    omega
  simp only [UnpackedFloat.pack, hbias]
  rw [if_neg (by have := hc.most; omega)]
  by_cases hn : 2 ^ 52 ≤ n
  · rw [if_pos (hc.normal_iff.2 hn), if_pos hn]
  · rw [if_neg (mt hc.normal_iff.1 hn), if_neg hn]

/-- Unpacking a packed canonical double gives it back. -/
theorem unpack_pack_canonical {n : ℕ} {t : ℤ} (hc : Canonical n t) (s : Sign) :
    (Float.Model.pack (.finite s n t hc.pos)).unpack = .finite s n t hc.pos := by
  have hlt := hc.lt
  change unpack .binary64 (UnpackedFloat.pack .binary64 (.finite s n t hc.pos)) = _
  rw [pack_canonical hc]
  unfold UnpackedFloat.unpack
  simp only [unpackMantissa_packComponents, unpackExponent_packComponents,
    unpackSign_packComponents, ofBitVec_toBitVec]
  by_cases hn : 2 ^ 52 ≤ n
  · -- normal: a biased exponent from 1 to 2046 and the significand below its leading bit
    have hE : (BitVec.ofNat 11 (t + 1075).toNat).toNat = (t + 1075).toNat := by
      rw [BitVec.toNat_ofNat]
      exact Nat.mod_eq_of_lt (by have := hc.most; omega)
    have hne : BitVec.ofNat 11 (t + 1075).toNat ≠ -1#11 := fun h => by
      have := congrArg BitVec.toNat h
      rw [hE] at this
      simp at this
      have := hc.most
      omega
    have hne' : BitVec.ofNat 11 (t + 1075).toNat ≠ 0#11 := fun h => by
      have := congrArg BitVec.toNat h
      rw [hE] at this
      simp at this
      have := hc.least
      omega
    have hmant : (1#1 ++ BitVec.ofNat 52 n).toNat = n := by
      simp only [BitVec.toNat_append, BitVec.toNat_ofNat]
      rw [← Nat.shiftLeft_add_eq_or_of_lt (Nat.mod_lt _ (by decide)), Nat.shiftLeft_eq]
      omega
    simp only [hn, if_true, hne, hne', if_false, hmant, hE,
      show (Format.binary64.exponentBias : ℤ) = 1023 from rfl]
    congr 1
    have := hc.least
    omega
  · -- subnormal: a zero exponent field and a nonzero fraction
    have ht : t = -1074 := hc.normal.resolve_left hn
    have hne : (0#11) ≠ -1#11 := by decide
    have hM : BitVec.ofNat 52 n ≠ 0#52 := fun h => by
      have := congrArg BitVec.toNat h
      rw [BitVec.toNat_ofNat, Nat.mod_eq_of_lt (by omega)] at this
      exact hc.pos.ne' this
    simp only [hn, if_false, hne, if_true, hM, dite_false, BitVec.toNat_ofNat,
      Nat.mod_eq_of_lt (show n < 2 ^ 52 by omega), ht]
    rfl

/-- A valid double packs back into the bits it was read from, with the sign given. -/
theorem toNat_pack_ofBits {b : UInt64} (hfin : exponentField b ≠ 2047)
    (hm : (Binary.ofBits b).m ≠ 0) (s : Sign) :
    (UnpackedFloat.pack .binary64 (.finite s (Binary.ofBits b).m (Binary.ofBits b).q
      (valid_ofBits hfin hm).canonical.pos)).toNat =
      s.toBitVec.toNat * 2 ^ 63 + b.toNat % 2 ^ 63 := by
  have hc := (valid_ofBits hfin hm).canonical
  have he := exponentField_lt b
  have hf := fractionField_lt b
  rw [pack_canonical hc, toNat_packComponents, toNat_mod_eq_fields, BitVec.toNat_ofNat,
    BitVec.toNat_ofNat]
  -- read the fields back off the significand and exponent
  have hx := ofBits_eq b
  by_cases h0 : exponentField b = 0
  · rw [if_pos h0] at hx
    rw [hx]
    simp only [h0]
    have : ¬ 2 ^ 52 ≤ fractionField b := by omega
    simp only [this, if_false, Nat.zero_mod, zero_mul, Nat.mod_eq_of_lt hf]
    ring
  · rw [if_neg h0] at hx
    rw [hx]
    have hE : ((exponentField b : ℤ) - 1075 + 1075).toNat = exponentField b := by omega
    simp only [Nat.le_add_right, if_true, hE, Nat.mod_eq_of_lt he, Nat.add_mod_left,
      Nat.mod_eq_of_lt hf]
    ring

/-! ## Exact conversions -/

theorem log2_mul_two_pow {m : ℕ} (hm : m ≠ 0) (k : ℕ) : (m * 2 ^ k).log2 = m.log2 + k := by
  have hne : m * 2 ^ k ≠ 0 := Nat.mul_ne_zero hm (by positivity)
  apply le_antisymm
  · have hlt : m * 2 ^ k < 2 ^ (m.log2 + k + 1) := by
      rw [show m.log2 + k + 1 = (m.log2 + 1) + k by omega, Nat.pow_add]
      exact Nat.mul_lt_mul_of_pos_right Nat.lt_log2_self (by positivity)
    have := (Nat.log2_lt hne).2 hlt
    omega
  · exact (Nat.le_log2 hne).2 (by
      rw [Nat.pow_add]
      exact Nat.mul_le_mul_right _ (Nat.log2_self_le hm))

/-- A whole number below `2^53`, scaled by `2^k`, as a double holds it: shifted up to 53 bits. -/
theorem canonical_shift {m : ℕ} (h0 : 0 < m) (h : m < 2 ^ 53) (k : ℤ) (hk : -1022 ≤ k)
    (hk' : k ≤ 971) : Canonical (m * 2 ^ (52 - m.log2)) (k + m.log2 - 52) := by
  have hL : m.log2 ≤ 52 := Nat.le_of_lt_succ ((Nat.log2_lt h0.ne').2 h)
  have hne : m * 2 ^ (52 - m.log2) ≠ 0 := Nat.mul_ne_zero h0.ne' (by positivity)
  have hlog : (m * 2 ^ (52 - m.log2)).log2 = 52 := by
    rw [log2_mul_two_pow h0.ne']
    omega
  exact ⟨Nat.pos_of_ne_zero hne, (Nat.log2_lt hne).1 (by omega),
    .inl ((Nat.le_log2 hne).1 (by omega)), by omega, by omega⟩

theorem value_shift {m : ℕ} (hL : m.log2 ≤ 52) (k : ℤ) :
    ((m * 2 ^ (52 - m.log2) : ℕ) : ℚ) * 2 ^ (k + m.log2 - 52) = m * 2 ^ k := by
  push_cast
  rw [mul_assoc, ← zpow_natCast, ← zpow_add₀ two_ne_zero, Nat.cast_sub hL]
  congr 2
  push_cast
  ring

/-- The model converts a whole number that a double holds exactly to that double. -/
theorem ofNat_eq_finite {m n : ℕ} {t : ℤ} (hc : Canonical n t) (hv : (n : ℚ) * 2 ^ t = m) :
    UnpackedFloat.ofNat .binary64 m = .finite .positive n t hc.pos := by
  have hm : 0 < m := by
    have : (0 : ℚ) < m := by
      rw [← hv]
      exact mul_pos (by exact_mod_cast hc.pos) (zpow_pos two_pos t)
    exact_mod_cast this
  have hcmp : compare (m : ℤ) 0 = .gt := compare_gt_iff_gt.2 (by exact_mod_cast hm)
  simp only [UnpackedFloat.ofNat, UnpackedFloat.ofInt, UnpackedFloat.normalize, hcmp,
    Int.toNat_natCast]
  -- the integer is shifted up to the target exponent when it lies below it, then rounded exactly
  unfold UnpackedFloat.round decreaseExponent
  dsimp only
  generalize ht₀ : Format.binary64.targetExponent (totalExponent m 0) = t₀
  have htotal : totalExponent (m <<< (0 - t₀).toNat) (0 - ((0 - t₀).toNat : ℕ)) =
      totalExponent m 0 := by
    simp only [totalExponent, Nat.shiftLeft_eq, log2_mul_two_pow hm.ne']
    push_cast
    ring
  refine (roundWithAccuracy_eq ?_ ?_ (hv ▸ hc.grid) ?_).trans (hc.settle_eq _)
  · have hval : (m : ℚ) / 2 ^ ((0 : ℤ) - ((0 - t₀).toNat : ℕ)) =
        ((m <<< (0 - t₀).toNat : ℕ) : ℚ) := by
      rw [Nat.shiftLeft_eq, zero_sub, zpow_neg, zpow_natCast, div_inv_eq_mul]
      push_cast
      ring
    rw [hval]
    exact truncates_exact _
  · rw [htotal, ht₀]
    omega
  · rw [← hv, mul_div_cancel_right₀ _ (zpow_ne_zero t two_ne_zero)]
    exact nearest_natCast n

/-- A whole number below `2^53` converts exactly. -/
theorem unpack_toFloat {m : ℕ} (h0 : 0 < m) (h : m < 2 ^ 53) :
    m.toUInt64.toFloat.toModel.unpack = .finite .positive (m * 2 ^ (52 - m.log2)) (0 + m.log2 - 52)
      (canonical_shift h0 h 0 (by norm_num) (by norm_num)).pos := by
  have hL : m.log2 ≤ 52 := Nat.le_of_lt_succ ((Nat.log2_lt h0.ne').2 h)
  have hm : m.toUInt64.toNat = m := by
    rw [Nat.toUInt64, UInt64.toNat_ofNat', Nat.mod_eq_of_lt (lt_trans h (by norm_num))]
  change (Float.Model.pack (UnpackedFloat.ofNat .binary64 m.toUInt64.toNat)).unpack = _
  have hc := canonical_shift h0 h 0 (by norm_num) (by norm_num)
  have hv := value_shift hL 0
  rw [zpow_zero, mul_one] at hv
  rw [hm, ofNat_eq_finite hc hv, unpack_pack_canonical hc]

/-- The table of exact powers of ten holds each power converted by the model. -/
theorem powersOfTen_toModel : ∀ e : Fin 23,
    (Float.exactlyRepresentablePowersOfTen[e.val]?).map Float.toModel =
      some (Float.Model.ofNat (10 ^ e.val)) := by
  decide

/-- `10^e` as a double: `5^e`, shifted up to 53 bits, times `2^e`. -/
theorem value_powerOfTen {e : ℕ} (h5 : 5 ^ e < 2 ^ 53) :
    ((5 ^ e * 2 ^ (52 - (5 ^ e).log2) : ℕ) : ℚ) * 2 ^ ((e : ℤ) + (5 ^ e).log2 - 52) =
      10 ^ (e : ℤ) := by
  rw [value_shift (Nat.le_of_lt_succ ((Nat.log2_lt (by positivity)).2 h5)), zpow_natCast,
    zpow_natCast]
  push_cast
  rw [← mul_pow]
  norm_num

/-- The table's powers of ten are exact: `10^e = 5^e * 2^e`, and `5^e` fits in 53 bits. -/
theorem unpack_powerOfTen {e : ℕ} (he : e ≤ 22) (h : e < Float.exactlyRepresentablePowersOfTen.size) :
    (Float.exactlyRepresentablePowersOfTen[e]).toModel.unpack =
      .finite .positive (5 ^ e * 2 ^ (52 - (5 ^ e).log2)) (e + (5 ^ e).log2 - 52)
        (canonical_shift (Nat.pow_pos (by norm_num))
          (lt_of_le_of_lt (Nat.pow_le_pow_right (by norm_num) he) (by norm_num))
          e (by omega) (by omega)).pos := by
  have h5 : 5 ^ e < 2 ^ 53 := lt_of_le_of_lt (Nat.pow_le_pow_right (by norm_num) he) (by norm_num)
  have htable := powersOfTen_toModel ⟨e, by omega⟩
  rw [show (⟨e, by omega⟩ : Fin 23).val = e from rfl, Array.getElem?_eq_getElem h,
    Option.map_some, Option.some_inj] at htable
  have hv : ((5 ^ e * 2 ^ (52 - (5 ^ e).log2) : ℕ) : ℚ) * 2 ^ ((e : ℤ) + (5 ^ e).log2 - 52) =
      ((10 ^ e : ℕ) : ℚ) := by
    rw [value_powerOfTen h5, zpow_natCast]
    push_cast
    rfl
  have hc := canonical_shift (Nat.pow_pos (by norm_num)) h5 e (by omega) (by omega)
  rw [htable]
  change (Float.Model.pack (UnpackedFloat.ofNat .binary64 (10 ^ e))).unpack = _
  rw [ofNat_eq_finite hc hv, unpack_pack_canonical hc]

/-! ## Decimal to double -/

/-- A significand of at least 53 bits leaves its exponent at or below its target. -/
theorem le_targetExponent {n : ℕ} (hn : 2 ^ 52 ≤ n) (t : ℤ) :
    t ≤ Format.binary64.targetExponent (totalExponent n t) := by
  have := (Nat.le_log2 (by positivity)).2 hn
  rw [targetExponent_binary64, totalExponent]
  omega

theorem two_zpow_le_ten_zpow {k : ℤ} (hk : 0 ≤ k) : (2 : ℚ) ^ k ≤ 10 ^ k := by
  lift k to ℕ using hk
  rw [zpow_natCast, zpow_natCast]
  exact pow_le_pow_left₀ (by norm_num) (by norm_num) k

theorem ten_zpow_le_two_zpow {k : ℤ} (hk : k ≤ 0) : (10 : ℚ) ^ k ≤ 2 ^ k := by
  obtain ⟨j, rfl⟩ : ∃ j : ℕ, k = -j := ⟨k.natAbs, by omega⟩
  rw [zpow_neg, zpow_neg, zpow_natCast, zpow_natCast]
  exact inv_anti₀ (by positivity) (pow_le_pow_left₀ (by norm_num) (by norm_num) j)

/-- A decimal below `2^1024` has a power of ten no greater than `10^(2^11)`, so the model does not
give up on it as infinite. -/
theorem exponent_le_of_lt {M : ℕ} (hM : 0 < M) {k : ℤ} (h : (M : ℚ) * 10 ^ k < 2 ^ (1024 : ℤ)) :
    k ≤ 2 ^ Format.binary64.exponentBits := by
  have hbits : (2 : ℤ) ^ Format.binary64.exponentBits = 2048 := rfl
  have hM1 : (1 : ℚ) ≤ M := by exact_mod_cast hM
  by_contra hgt
  have : (2 : ℚ) ^ (1024 : ℤ) ≤ M * 10 ^ k :=
    calc (2 : ℚ) ^ (1024 : ℤ) ≤ 2 ^ k := zpow_le_zpow_right₀ one_le_two (by omega)
      _ ≤ 10 ^ k := two_zpow_le_ten_zpow (by omega)
      _ ≤ M * 10 ^ k := le_mul_of_one_le_left (zpow_pos (by norm_num) k).le hM1
  linarith

/-- A decimal of at least `2^-1075` has a power of ten no less than `10^-(2^11 + log2 M)`, so the
model does not give up on it as zero. -/
theorem exponent_ge_of_le {M : ℕ} {k : ℤ} (h : 2 ^ (-1075 : ℤ) ≤ (M : ℚ) * 10 ^ k) :
    -((2 ^ Format.binary64.exponentBits : ℤ) + M.log2) ≤ k := by
  have hbits : (2 : ℤ) ^ Format.binary64.exponentBits = 2048 := rfl
  have hMlt : (M : ℚ) < 2 ^ ((M.log2 : ℤ) + 1) := by
    rw [show (M.log2 : ℤ) + 1 = ((M.log2 + 1 : ℕ) : ℤ) by push_cast; ring, zpow_natCast]
    exact_mod_cast Nat.lt_log2_self
  by_contra hlt
  have : (M : ℚ) * 10 ^ k < 2 ^ (-1075 : ℤ) :=
    calc (M : ℚ) * 10 ^ k ≤ M * 2 ^ k :=
          mul_le_mul_of_nonneg_left (ten_zpow_le_two_zpow (by omega)) (by positivity)
      _ < 2 ^ ((M.log2 : ℤ) + 1) * 2 ^ k := mul_lt_mul_of_pos_right hMlt (zpow_pos two_pos k)
      _ = 2 ^ ((M.log2 : ℤ) + 1 + k) := (zpow_add₀ two_ne_zero _ _).symm
      _ ≤ 2 ^ (-1075 : ℤ) := zpow_le_zpow_right₀ one_le_two (by omega)
  linarith

/-- The product of two finite doubles whose exact value lies in the interval of a valid double is
that double, when its significand has enough bits for the grid. -/
theorem Binary.Valid.mul_eq {x : Binary} (hx : x.Valid) {s₁ s₂ : Sign} {m₁ m₂ : ℕ} {e₁ e₂ : ℤ}
    (h₁ : 0 < m₁) (h₂ : 0 < m₂)
    (he : e₁ + e₂ ≤ Format.binary64.targetExponent (totalExponent (m₁ * m₂) (e₁ + e₂)))
    (h : x.Covers (m₁ * 2 ^ e₁ * (m₂ * 2 ^ e₂))) :
    mul .binary64 (.finite s₁ m₁ e₁ h₁) (.finite s₂ m₂ e₂ h₂) =
      .finite (s₁ * s₂) x.m x.q hx.canonical.pos := by
  obtain ⟨t, n, ht, hn, hsettle⟩ := hx.rounds h
  rw [mul_finite_eq h₁ h₂ he ht hn, hsettle]

/-- The quotient of two finite doubles whose exact value lies in the interval of a valid double is
that double. -/
theorem Binary.Valid.div_eq {x : Binary} (hx : x.Valid) {s₁ s₂ : Sign} {m₁ m₂ : ℕ} {e₁ e₂ : ℤ}
    (h₁ : 0 < m₁) (h₂ : 0 < m₂) (h : x.Covers (m₁ * 2 ^ e₁ / (m₂ * 2 ^ e₂))) :
    div .binary64 (.finite s₁ m₁ e₁ h₁) (.finite s₂ m₂ e₂ h₂) =
      .finite (s₁ / s₂) x.m x.q hx.canonical.pos := by
  obtain ⟨t, n, ht, hn, hsettle⟩ := hx.rounds h
  rw [div_finite_eq h₁ h₂ ht hn, hsettle]

/-- **Decimal to double in the model.** A decimal inside the interval of a valid double converts
to that double: by an exact product or quotient when the significand and the power of ten are
small, by the model's long multiplication or division otherwise. -/
theorem ofScientific_toModel {x : Binary} (hx : x.Valid) (M : ℕ) (neg : Bool) (E : ℕ)
    (h : x.Covers (M * 10 ^ (if neg then -(E : ℤ) else E))) :
    (Float.ofScientific M neg E).toModel =
      Float.Model.pack (.finite .positive x.m x.q hx.canonical.pos) := by
  obtain ⟨hlow, hhigh⟩ := hx.covers_bounds h
  generalize hk : (if neg then -(E : ℤ) else E) = k at h hlow hhigh
  have hM : 0 < M := by
    rcases Nat.eq_zero_or_pos M with rfl | hM
    · have : (0 : ℚ) < 2 ^ (-1075 : ℤ) := zpow_pos two_pos _
      simp only [Nat.cast_zero, zero_mul] at hlow
      linarith
    · exact hM
  unfold Float.ofScientific
  split
  · -- the significand and the power of ten are exact doubles
    next hfast =>
    obtain ⟨hM53, hE⟩ := hfast
    have h5 : 5 ^ E < 2 ^ 53 :=
      lt_of_le_of_lt (Nat.pow_le_pow_right (by norm_num) hE) (by norm_num)
    have hc₁ := canonical_shift hM hM53 0 (by norm_num) (by norm_num)
    have hc₂ := canonical_shift (Nat.pow_pos (by norm_num)) h5 E (by omega) (by omega)
    have hv₁ := value_shift (Nat.le_of_lt_succ ((Nat.log2_lt hM.ne').2 hM53)) 0
    rw [zpow_zero, mul_one] at hv₁
    have hA := unpack_toFloat hM hM53
    have hP := unpack_powerOfTen hE (by simp [Float.exactlyRepresentablePowersOfTen]; omega)
    cases neg with
    | false =>
      -- an exact product
      simp only [Bool.false_eq_true, if_false] at hk ⊢
      change Float.Model.pack (UnpackedFloat.mul .binary64 _ _) = _
      have hval : ((M * 2 ^ (52 - M.log2) : ℕ) : ℚ) * 2 ^ ((0 : ℤ) + M.log2 - 52) *
          (((5 ^ E * 2 ^ (52 - (5 ^ E).log2) : ℕ) : ℚ) * 2 ^ ((E : ℤ) + (5 ^ E).log2 - 52)) =
          M * 10 ^ k := by
        rw [hv₁, value_powerOfTen h5, hk]
      rw [← hval] at h
      rw [hA, hP, hx.mul_eq hc₁.pos hc₂.pos
        (le_targetExponent (le_trans (hc₁.normal.resolve_right (by omega))
          (Nat.le_mul_of_pos_right _ hc₂.pos)) _) h]
      rfl
    | true =>
      -- an exact quotient
      simp only [if_true] at hk ⊢
      change Float.Model.pack (UnpackedFloat.div .binary64 _ _) = _
      have hval : ((M * 2 ^ (52 - M.log2) : ℕ) : ℚ) * 2 ^ ((0 : ℤ) + M.log2 - 52) /
          (((5 ^ E * 2 ^ (52 - (5 ^ E).log2) : ℕ) : ℚ) * 2 ^ ((E : ℤ) + (5 ^ E).log2 - 52)) =
          M * 10 ^ k := by
        rw [hv₁, value_powerOfTen h5, ← hk, zpow_neg, div_eq_mul_inv]
      rw [← hval] at h
      rw [hA, hP, hx.div_eq hc₁.pos hc₂.pos h]
      rfl
  · -- the model's long multiplication or division
    change Float.Model.pack (UnpackedFloat.ofScientific .binary64 M
      (if neg then Int.negOfNat E else Int.ofNat E)) = _
    have hk' : (if neg then Int.negOfNat E else Int.ofNat E) = k := by
      rw [← hk]
      cases neg <;> simp [Int.negOfNat_eq]
    rw [hk']
    unfold UnpackedFloat.ofScientific
    -- the exponent is neither so large nor so small that the model answers without computing
    rw [dif_neg hM.ne', if_neg (not_lt.2 (exponent_le_of_lt hM hhigh)),
      if_neg (not_lt.2 (exponent_ge_of_le hlow))]
    split
    · -- a nonnegative exponent: multiply the significand, shifted up, by the power of ten
      next hk0 =>
      have hshift : 2 ^ 52 ≤ (M <<< Format.binary64.mantissaBits) * 10 ^ k.toNat := by
        rw [Nat.shiftLeft_eq, show Format.binary64.mantissaBits = 53 from rfl]
        calc 2 ^ 52 ≤ 1 * 2 ^ 53 * 1 := by norm_num
          _ ≤ M * 2 ^ 53 * 10 ^ k.toNat :=
            Nat.mul_le_mul (Nat.mul_le_mul_right _ hM) (Nat.one_le_pow _ _ (by norm_num))
      have hval : ((M <<< Format.binary64.mantissaBits : ℕ) : ℚ) *
          2 ^ (-(Format.binary64.mantissaBits : ℤ)) * (((10 ^ k.toNat : ℕ) : ℚ) * 2 ^ (0 : ℤ)) =
          M * 10 ^ k := by
        have h10 : ((10 ^ k.toNat : ℕ) : ℚ) = 10 ^ k := by
          push_cast
          rw [← zpow_natCast, Int.toNat_of_nonneg hk0]
        rw [Nat.shiftLeft_eq, show Format.binary64.mantissaBits = 53 from rfl, zpow_zero,
          mul_one, h10]
        push_cast
        field_simp
        norm_num
      rw [← hval] at h
      rw [hx.mul_eq _ _ (le_targetExponent hshift _) h]
      rfl
    · -- a negative exponent: divide the significand by the power of ten
      next hk0 =>
      have hval : (M : ℚ) * 2 ^ (0 : ℤ) / (((10 ^ (-k).toNat : ℕ) : ℚ) * 2 ^ (0 : ℤ)) =
          M * 10 ^ k := by
        have h10 : ((10 ^ (-k).toNat : ℕ) : ℚ) = 10 ^ (-k) := by
          push_cast
          rw [← zpow_natCast, Int.toNat_of_nonneg (by omega)]
        rw [zpow_zero, mul_one, mul_one, h10, zpow_neg, div_inv_eq_mul]
      rw [← hval] at h
      rw [hx.div_eq _ _ h]
      rfl

/-- The conversion of a decimal inside the interval of the double read from `b`, packed: the low
63 bits of `b`, with the sign given. -/
theorem toNat_ofScaled_of_covers {b : UInt64} (hfin : exponentField b ≠ 2047)
    (hm : (Binary.ofBits b).m ≠ 0) {m : ℕ} {e : ℤ} (h : (Binary.ofBits b).Covers (m * 10 ^ e)) :
    (ofScaled m e).toModel = Float.Model.pack (.finite .positive (Binary.ofBits b).m
      (Binary.ofBits b).q (valid_ofBits hfin hm).canonical.pos) := by
  have he : (if decide (e < 0) = true then -(e.natAbs : ℤ) else e.natAbs) = e := by
    by_cases hneg : e < 0
    · rw [if_pos (decide_eq_true hneg)]
      omega
    · rw [if_neg (by simpa using hneg)]
      omega
  refine ofScientific_toModel (valid_ofBits hfin hm) m (decide (e < 0)) e.natAbs ?_
  rw [he]
  exact h

/-- **A decimal reads as the double around it.** For the bits `b` of a positive finite nonzero
double and a decimal `m * 10^e` inside its interval, the conversion `ofScaled m e` has the bits
`b`. -/
theorem ofScaled_toBits {b : UInt64} (hpos : b.toNat < 2 ^ 63) (hfin : exponentField b ≠ 2047)
    (hm : (Binary.ofBits b).m ≠ 0) {m : ℕ} {e : ℤ} (h : (Binary.ofBits b).Covers (m * 10 ^ e)) :
    (ofScaled m e).toBits = b := by
  apply UInt64.toNat_inj.1
  change (ofScaled m e).toModel.toBits.toNat = _
  rw [toNat_ofScaled_of_covers hfin hm h]
  change (UnpackedFloat.pack .binary64 _).toNat = _
  rw [toNat_pack_ofBits hfin hm]
  change 0 % 2 * 2 ^ 63 + b.toNat % 2 ^ 63 = b.toNat
  omega

/-- Negated, the conversion has the bits `b` of a negative double around whose magnitude the
decimal lies. -/
theorem neg_ofScaled_toBits {b : UInt64} (hneg : 2 ^ 63 ≤ b.toNat)
    (hfin : exponentField b ≠ 2047) (hm : (Binary.ofBits b).m ≠ 0) {m : ℕ} {e : ℤ}
    (h : (Binary.ofBits b).Covers (m * 10 ^ e)) : (-ofScaled m e).toBits = b := by
  have hc := (valid_ofBits hfin hm).canonical
  have hb : b.toNat < 2 ^ 64 := b.toNat_lt_size
  apply UInt64.toNat_inj.1
  change (Float.Model.pack (ofScaled m e).toModel.unpack.neg).toBits.toNat = _
  rw [toNat_ofScaled_of_covers hfin hm h, unpack_pack_canonical hc]
  change (UnpackedFloat.pack .binary64 (.finite .negative (Binary.ofBits b).m (Binary.ofBits b).q
    hc.pos)).toNat = _
  rw [toNat_pack_ofBits hfin hm]
  change 1 % 2 * 2 ^ 63 + b.toNat % 2 ^ 63 = b.toNat
  omega

end Scriptlet.Number
