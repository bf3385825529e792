import Scriptlet.Text.Printable

/-!
# Texts written as quoted literals

Error messages quote the text they complain about: a character that starts no token, or the
text of an unexpected token. `literal s` writes `s` between quotes so that every character can
be read off unambiguously:

* the quote is `'`, unless the text holds a `'` and no `"`, in which case it is `"`;
* the chosen quote and the backslash are written behind a backslash;
* tab, line feed and carriage return are written `\t`, `\n` and `\r`;
* every other character that does not print as itself (`Text.isPrintable`) is written as its
  code point in lower-case hexadecimal: `\xhh` below 256, `\uhhhh` below 65536, else
  `\Uhhhhhhhh`;
* all other characters stand for themselves.
-/

namespace Scriptlet.Text

/-- The lower-case hexadecimal digit of `d`, for `d < 16`. -/
def hexDigit (d : Nat) : Char :=
  if d < 10 then Char.ofNat (48 + d) else Char.ofNat (87 + d)

/-- The `width` lowest hexadecimal digits of `n`, most significant first. -/
def hexDigits (width n : Nat) : List Char :=
  (List.range width).reverse.map fun i => hexDigit (n / Nat.pow 16 i % 16)

/-- The quote used for `s`: the double quote when `s` holds a single quote and no double quote,
else the single quote. -/
def quoteFor (s : List Char) : Char :=
  if '\'' ∈ s ∧ '"' ∉ s then '"' else '\''

/-- How the character `c` is written between the quotes `q`. -/
def escape (q c : Char) : List Char :=
  if c = q ∨ c = '\\' then ['\\', c]
  else if c = '\t' then ['\\', 't']
  else if c = '\n' then ['\\', 'n']
  else if c = '\r' then ['\\', 'r']
  else if c.toNat < 0x20 ∨ c.toNat = 0x7F then '\\' :: 'x' :: hexDigits 2 c.toNat
  else if c.toNat < 0x7F ∨ isPrintable c then [c]
  else if c.toNat < 0x100 then '\\' :: 'x' :: hexDigits 2 c.toNat
  else if c.toNat < 0x10000 then '\\' :: 'u' :: hexDigits 4 c.toNat
  else '\\' :: 'U' :: hexDigits 8 c.toNat

/-- The text `s` between quotes, every character escaped as `escape` says. -/
def literal (s : String) : String :=
  let cs := s.toList
  let q := quoteFor cs
  String.ofList (q :: (cs.flatMap (escape q) ++ [q]))

example : literal "@" = "'@'" := by decide
example : literal "\\" = "'\\\\'" := by decide
example : literal "\n" = "'\\n'" := by decide
example : literal "it's" = "\"it's\"" := by decide

end Scriptlet.Text
