/-!
# The shortest decimal that reads back

A finite double stands for every real number that rounds to it: the interval from halfway to the
next double below to halfway to the next double above, its ends included exactly when the
significand is even (ties go to the even significand). `Binary.shortest` selects, among the
decimals in that interval, one with the fewest significant digits; of two such decimals equally
near the double it takes the one whose last digit is even.

The selection works in exact natural-number arithmetic. With `k` the least exponent such that
the value is below `10^k`, it tries the grids `10^(k-1)`, `10^(k-2)`, ... in turn. On each grid
only the value's two neighbours need testing: if any point of the grid lies in the interval, so
does one of them. The first grid with a hit gives the result.

## Main definitions

* `Binary`, `Binary.ofBits`: a finite non-negative double as `m * 2^q`.
* `Decimal`: `digits * 10^exp`.
* `Binary.readsBack`: whether a decimal lies in the interval of a double.
* `Binary.shortest`: the selected decimal.
-/

namespace Scriptlet.Number

/-- A finite non-negative double, `m * 2^q`. `narrowBelow` marks a power of two above the least
normal exponent, where the next double below is half as far away as the next one above. -/
structure Binary where
  /-- The significand. -/
  m : Nat
  /-- The binary exponent. -/
  q : Int
  /-- Whether the gap below is half the gap above. -/
  narrowBelow : Bool
deriving Repr, DecidableEq

/-- The value of the low 63 bits of a double, for bits that are not those of a NaN or an
infinity. -/
def Binary.ofBits (b : UInt64) : Binary :=
  let e := ((b >>> 52) &&& 0x7FF).toNat
  let f := (b &&& 0xFFFFFFFFFFFFF).toNat
  if e = 0 then ⟨f, -1074, false⟩ else ⟨Nat.pow 2 52 + f, (e : Int) - 1075, f = 0 ∧ 1 < e⟩

/-- A decimal number, `digits * 10^exp`. -/
structure Decimal where
  /-- The significant digits, as a number. -/
  digits : Nat
  /-- The power of ten they are scaled by. -/
  exp : Int
deriving Repr, DecidableEq

/-- Compares `a * 10^i` with `n * 2^j` exactly. -/
def cmpScaled (a : Nat) (i : Int) (n : Nat) (j : Int) : Ordering :=
  compare (a * Nat.pow 10 i.toNat * Nat.pow 2 (-j).toNat) (n * Nat.pow 2 j.toNat * Nat.pow 10 (-i).toNat)

namespace Binary

/-- Whether the decimal `d` lies among the reals that round to `x`. In units of `2^(q-2)` the
interval runs from `4m - 2` (`4m - 1` when the gap below is narrow) to `4m + 2`, its ends
included when `m` is even. -/
def readsBack (x : Binary) (d : Decimal) : Bool :=
  let lo := if x.narrowBelow then 4 * x.m - 1 else 4 * x.m - 2
  let hi := 4 * x.m + 2
  let incl := x.m % 2 == 0
  let cl := cmpScaled d.digits d.exp lo (x.q - 2)
  let ch := cmpScaled d.digits d.exp hi (x.q - 2)
  (cl == .gt || (incl && cl == .eq)) && (ch == .lt || (incl && ch == .eq))

/-- Whether `x < 10^k`. -/
def below (x : Binary) (k : Int) : Bool := cmpScaled 1 k x.m x.q == .gt

/-- Corrects a guess `k` of the scale by at most `fuel` steps: the least `k` with `x < 10^k`. -/
def scaleFrom (x : Binary) : Nat → Int → Int
  | 0, k => k
  | fuel + 1, k =>
    if x.below (k - 1) then x.scaleFrom fuel (k - 1)
    else if x.below k then k
    else x.scaleFrom fuel (k + 1)

/-- The least `k` with `x < 10^k`, for `x > 0`. With `2^b ≤ x < 2^(b+1)`, the guess
`⌊b · 78913 / 2^18⌋` is within two of it, as `78913 / 2^18` is within `10^-6` of `log10 2`. -/
def scale (x : Binary) : Int :=
  let b : Int := (x.m.log2 : Int) + x.q
  x.scaleFrom 8 (b * 78913 / 262144)

/-- `⌊x / 10^g⌋`. -/
def floorAt (x : Binary) (g : Int) : Nat :=
  (x.m * Nat.pow 2 x.q.toNat * Nat.pow 10 (-g).toNat) / (Nat.pow 2 (-x.q).toNat * Nat.pow 10 g.toNat)

/-- On the grid `10^g`, the neighbour of `x` that reads back, the nearer if both do, the one
with even digits if they are equally near; `none` if neither reads back. -/
def onGrid (x : Binary) (g : Int) : Option Decimal :=
  let lo := x.floorAt g
  let dLo : Decimal := ⟨lo, g⟩
  let dHi : Decimal := ⟨lo + 1, g⟩
  match x.readsBack dLo, x.readsBack dHi with
  | true, true =>
    match cmpScaled (2 * lo + 1) g (2 * x.m) x.q with
    | .gt => some dLo
    | .lt => some dHi
    | .eq => some (if lo % 2 = 0 then dLo else dHi)
  | true, false => some dLo
  | false, true => some dHi
  | false, false => none

/-- The exact decimal value of `x`. -/
def exact (x : Binary) : Decimal :=
  if 0 ≤ x.q then ⟨x.m * Nat.pow 2 x.q.toNat, 0⟩ else ⟨x.m * Nat.pow 5 (-x.q).toNat, x.q⟩

end Binary

/-- Moves trailing zeros of the digits into the exponent, at most `fuel` of them. -/
def Decimal.stripFor : Nat → Decimal → Decimal
  | 0, d => d
  | fuel + 1, d =>
    if d.digits ≠ 0 ∧ d.digits % 10 = 0 then Decimal.stripFor fuel ⟨d.digits / 10, d.exp + 1⟩
    else d

/-- The same number without trailing zeros in its digits. -/
def Decimal.strip (d : Decimal) : Decimal := Decimal.stripFor d.digits d

/-- The decimal with the fewest significant digits that reads back as `x > 0`, the nearest of
those, ties to even digits; trailing zeros moved into the exponent. Seventeen digits always
suffice; past them the exact value stands. -/
def Binary.shortest (x : Binary) : Decimal :=
  let k := x.scale
  match (List.range 17).findSome? (fun i => x.onGrid (k - (i + 1 : Nat))) with
  | some d => d.strip
  | none => x.exact

end Scriptlet.Number
