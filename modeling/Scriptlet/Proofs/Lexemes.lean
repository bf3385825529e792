import Mathlib
import Scriptlet.Syntax.Parser

/-!
# The token languages

Which character sequences are tokens of each kind, stated on their own and not through the
scanner: names, numerals with their forms, and the quote that can enclose a string.

* A name is an identifier, an ASCII letter or `_` followed by letters, digits and `_`, that is
  not a reserved word.
* A numeral is `0x` or `0b` followed by hexadecimal or binary digits (an integer), or a decimal
  numeral: a whole part without a leading zero, then a fraction `.digits` (a real), then an
  exponent `e` or `E`, an optional sign and digits (a real in scientific notation).
* A string body can be quoted when one of the three quotes does not occur in it.

## Main definitions

* `isName`: the words that name variables.
* `Numeral`: the spellings of numerals, with the form each one denotes.
* `quotable`: the string bodies that have a quote.
-/

set_option autoImplicit false

namespace Scriptlet.Syntax

/-- Whether `w` can name a variable: an identifier that is not a reserved word. -/
def isName (w : String) : Bool :=
  match w.toList with
  | c :: cs => isWordStart c && cs.all isWordChar && !isReserved w
  | [] => false

/-- A name is never a reserved word. -/
theorem isReserved_eq_false_of_isName {w : String} (h : isName w = true) : isReserved w = false := by
  unfold isName at h
  split at h <;> simp_all

/-- A run of at least one character of the class `p`. -/
def IsRun (p : Char → Bool) (ds : List Char) : Prop := ds ≠ [] ∧ ∀ d ∈ ds, p d = true

/-- The whole part of a decimal numeral: `0`, or decimal digits that do not start with `0`. -/
def IsWhole (w : List Char) : Prop :=
  w = ['0'] ∨ (IsRun isDecimalDigit w ∧ w.head? ≠ some '0')

/-- The part of a decimal numeral before its exponent: a whole part and an optional fraction. -/
def IsMantissa (m : List Char) : Prop :=
  IsWhole m ∨ ∃ w ds, IsWhole w ∧ IsRun isDecimalDigit ds ∧ m = w ++ '.' :: ds

/-- The spellings of numerals, each with the form it denotes. -/
inductive Numeral : List Char → NumeralForm → Prop
  /-- `0x` and hexadecimal digits, in either case. -/
  | hex {ds : List Char} : IsRun isHexDigit ds → Numeral ('0' :: 'x' :: ds) ⟨.integer, .hex⟩
  /-- `0b` and binary digits. -/
  | binary {ds : List Char} : IsRun isBinaryDigit ds →
      Numeral ('0' :: 'b' :: ds) ⟨.integer, .binary⟩
  /-- A whole part alone. -/
  | integer {w : List Char} : IsWhole w → Numeral w ⟨.integer, .decimal⟩
  /-- A whole part and a fraction. -/
  | fraction {w ds : List Char} : IsWhole w → IsRun isDecimalDigit ds →
      Numeral (w ++ '.' :: ds) ⟨.real, .decimal⟩
  /-- A mantissa, `e` or `E`, an optional sign and digits. -/
  | exponent {m s ds : List Char} {e : Char} : IsMantissa m → (e = 'e' ∨ e = 'E') →
      (s = [] ∨ s = ['+'] ∨ s = ['-']) → IsRun isDecimalDigit ds →
      Numeral (m ++ e :: s ++ ds) ⟨.real, .scientific⟩

/-- Whether a string body can be quoted: one of the three quotes does not occur in it. -/
def quotable (text : String) : Bool :=
  ['\'', '"', '`'].any fun q => !text.toList.contains q

end Scriptlet.Syntax
