import Scriptlet.Syntax.Token

/-!
# The value of a numeral

A numeral denotes an exact number: the integer its digits spell after `0x` or `0b`, or the
decimal number with optional fraction and exponent. Its value is that number rounded to the
nearest double, ties to the even significand, and infinity when the rounding overflows.

`Numeral.value` takes the radix from the numeral's form when there is one, and otherwise from
the prefix of its text; for every numeral the scanner reads, both give the same radix.
-/

namespace Scriptlet.Number

open Scriptlet.Syntax

/-- The value of a digit in radix up to 16: `0`-`9`, then `a`-`f` in either case. -/
def digitValue (c : Char) : Nat :=
  if '0' ≤ c ∧ c ≤ '9' then c.toNat - '0'.toNat
  else if 'a' ≤ c ∧ c ≤ 'f' then c.toNat - 'a'.toNat + 10
  else if 'A' ≤ c ∧ c ≤ 'F' then c.toNat - 'A'.toNat + 10
  else 0

/-- The number the digits `cs` spell in radix `r`. -/
def digitsValue (r : Nat) (cs : List Char) : Nat :=
  cs.foldl (fun acc c => acc * r + digitValue c) 0

/-- Whether `c` is a decimal digit. -/
def isDigit (c : Char) : Bool := '0' ≤ c ∧ c ≤ '9'

/-- The exponent after `e` or `E`: an optional sign, then digits. -/
def exponentValue : List Char → Int
  | '-' :: ds => -(digitsValue 10 ds : Int)
  | '+' :: ds => digitsValue 10 ds
  | ds => digitsValue 10 ds

/-- A decimal numeral `digits[.digits][(e|E)[+|-]digits]` as `m * 10^e`: the digits of whole
part and fraction make `m`, and the fraction's length is taken off the exponent. -/
def decimalParts (cs : List Char) : Nat × Int :=
  let whole := cs.takeWhile isDigit
  let afterWhole := cs.dropWhile isDigit
  let (frac, afterFrac) : List Char × List Char :=
    match afterWhole with
    | '.' :: r => (r.takeWhile isDigit, r.dropWhile isDigit)
    | _ => ([], afterWhole)
  let e : Int :=
    match afterFrac with
    | c :: r => if c = 'e' ∨ c = 'E' then exponentValue r else 0
    | [] => 0
  (digitsValue 10 (whole ++ frac), e - frac.length)

/-- `m * 10^e` rounded to the nearest double. -/
def ofScaled (m : Nat) (e : Int) : Float := Float.ofScientific m (e < 0) e.natAbs

/-- The radix a numeral's text announces: 16 after `0x`, 2 after `0b`, else 10. -/
def radixOfText (text : String) : Nat :=
  match text.toList with
  | '0' :: 'x' :: _ => 16
  | '0' :: 'b' :: _ => 2
  | _ => 10

/-- The value of the numeral `text`, whose radix is that of `form` if given, else the one its
prefix announces. -/
def numeralValue (text : String) (form : Option NumeralForm) : Float :=
  let r := match form with
    | some f => f.style.radix
    | none => radixOfText text
  if r = 10 then
    let (m, e) := decimalParts text.toList
    ofScaled m e
  else Float.ofNat (digitsValue r (text.toList.drop 2))

end Scriptlet.Number
