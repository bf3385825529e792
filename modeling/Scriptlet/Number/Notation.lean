import Scriptlet.Number.Shortest

/-!
# Writing a double

A double is written with the digits of `Binary.shortest`, laid out by a `Notation`: positionally
when the exponent of its leading digit lies in a range, else as one digit, the other digits after
a point, and a signed exponent. The notation also fixes whether an integral value ends in `.0`,
whether zero shows its sign, and the texts of NaN and infinity.

Two notations are used: `Notation.display`, the language's own text for a number, and
`Notation.exact`, which tells every double apart, the sign of zero included.
-/

namespace Scriptlet.Number

/-- How a double is laid out. -/
structure Notation where
  /-- The least exponent of the leading digit written positionally. -/
  plainFrom : Int
  /-- The exponents of the leading digit written positionally are those below this one. -/
  plainBelow : Int
  /-- Whether an integral value written positionally ends in `.0`. -/
  pointZero : Bool
  /-- The least number of digits of an exponent. -/
  expWidth : Nat
  /-- Whether negative zero is written with its sign. -/
  signedZero : Bool
  /-- The text of NaN. -/
  nan : String
  /-- The text of positive infinity; negative infinity has a `-` before it. -/
  infinity : String

/-- A list of `n` zeros. -/
def zeros (n : Nat) : List Char := List.replicate n '0'

/-- The digits of `n`, most significant first, padded with zeros to at least `width`. -/
def padded (width n : Nat) : List Char :=
  let ds := Nat.toDigits 10 n
  zeros (width - ds.length) ++ ds

namespace Notation

/-- The layout of a non-negative decimal. With `e` the exponent of its leading digit, it is
positional when `plainFrom ≤ e < plainBelow`: the digits followed by zeros, or the point inside
the digits, or `0.` and zeros before them; otherwise the leading digit, the other digits after a
point, `e`, the sign of `e` and its digits. Zero is written `0`. -/
def layout (n : Notation) (d : Decimal) : List Char :=
  let ds := Nat.toDigits 10 d.digits
  let e : Int := d.exp + (ds.length - 1 : Nat)
  if d.digits = 0 then '0' :: (if n.pointZero then ['.', '0'] else [])
  else if n.plainFrom ≤ e ∧ e < n.plainBelow then
    if 0 ≤ d.exp then ds ++ zeros d.exp.toNat ++ (if n.pointZero then ['.', '0'] else [])
    else if 0 ≤ e then ds.take (e.toNat + 1) ++ '.' :: ds.drop (e.toNat + 1)
    else '0' :: '.' :: zeros ((-e).toNat - 1) ++ ds
  else
    let mant := match ds with
      | c :: rest@(_ :: _) => c :: '.' :: rest
      | _ => ds
    mant ++ 'e' :: (if e < 0 then '-' else '+') :: padded n.expWidth e.natAbs

/-- The text of a double: NaN, a signed infinity, or its sign and the layout of its shortest
decimal. -/
def render (n : Notation) (x : Float) : String :=
  let bits := x.toBits
  let negative := bits >>> 63 == 1
  let e := (bits >>> 52) &&& 0x7FF
  let f := bits &&& 0xFFFFFFFFFFFFF
  if e == 0x7FF then
    if f != 0 then n.nan else if negative then "-" ++ n.infinity else n.infinity
  else
    let b := Binary.ofBits bits
    let body := n.layout (if b.m = 0 then ⟨0, 0⟩ else b.shortest)
    String.ofList (if negative ∧ (b.m ≠ 0 ∨ n.signedZero) then '-' :: body else body)

/-- The language's text for a number: integral values below `10^16` as plain integers, others
with the fewest digits that read back, positionally for leading-digit exponents from -4 to 15,
else with a signed exponent of at least two digits; zero without a sign. -/
def display : Notation where
  plainFrom := -4
  plainBelow := 16
  pointZero := false
  expWidth := 2
  signedZero := false
  nan := "NaN"
  infinity := "Infinity"

/-- The exact text of a number: as `display`, but an integral value written positionally ends
in `.0`, zero keeps its sign, and NaN and infinity are `nan` and `inf`. -/
def exact : Notation where
  plainFrom := -4
  plainBelow := 16
  pointZero := true
  expWidth := 2
  signedZero := true
  nan := "nan"
  infinity := "inf"

end Notation

example : Notation.display.render 2.5 = "2.5" := by decide +kernel
example : Notation.exact.render 1e16 = "1e+16" := by decide +kernel
example : Notation.exact.render 1.5e-7 = "1.5e-07" := by decide +kernel
example : Notation.exact.render 1e6 = "1000000.0" := by decide +kernel

end Scriptlet.Number
