import Scriptlet.Proofs.DisplayReading

/-!
# The text of a number, run again

`Value.display` writes a finite double as a minus sign or nothing, then one decimal numeral.
Run as a program, in any session, that text is the numeral or its negation, and it gives the
double back bit for bit, except negative zero: its text `0` has no sign, and it comes back as
positive zero.

* The bits: a finite double's exponent field is not all ones (`exponentField_ne_of_isFinite`),
  so its text is its sign and the layout of its shortest decimal (`Notation.render_finite`), or
  `0` for either zero (`Notation.display_render_zero`, `Notation.display_render_nonzero`).
* The number: the layout of the shortest decimal is a decimal numeral whose value has the bits of
  the double, negated after a minus sign (`Notation.layout_shortest_reads`, from
  `Binary.covers_shortest`, `Notation.layout_spells` and `ofScaled_toBits`).
* The program: a numeral after an optional minus sign is the printed text of one expression,
  the numeral or its negation (`Expr.signedNumeral`), so it scans and parses back as that
  expression (`Program.reads_signedNumeral`) and runs to its value (`Session.run_signedNumeral`).

## Main statements

* `Notation.display_reads`: the display text of a finite double is an optional minus sign and a
  decimal numeral whose value, negated after the sign, has the double's bits, `0` for both zeros.
* `Session.run_display`: in every session that text scans as the sign and the numeral, parses
  as the numeral or its negation, and runs to the double, negative zero to positive zero.
-/

set_option autoImplicit false

namespace Scriptlet

open Syntax Number

namespace Number

/-! ## The bits of a finite double -/

open Float.Model Float.Model.UnpackedFloat in
/-- The exponent field of a finite double is not all ones: all ones is infinity or NaN. -/
theorem exponentField_ne_of_isFinite {x : Float} (h : x.isFinite = true) :
    exponentField x.toBits ≠ 2047 := by
  intro hE
  have hexp : @unpackExponent .binary64 x.toModel.toBits.toBitVec = -1#11 := by
    apply BitVec.eq_of_toNat_eq
    simp only [unpackExponent, BitVec.toNat_cast, BitVec.extractLsb, BitVec.extractLsb'_toNat,
      Nat.shiftRight_eq_div_pow]
    exact hE
  change (UnpackedFloat.unpack .binary64 x.toModel.toBits.toBitVec).isFinite = true at h
  unfold UnpackedFloat.unpack at h
  simp only [hexp, if_true] at h
  split at h <;> simp [UnpackedFloat.isFinite] at h

/-- The sign bit of a double is set exactly when its bits are at least `2^63`. -/
theorem signBit_eq_one (b : UInt64) : (b >>> 63 == 1) = decide (2 ^ 63 ≤ b.toNat) := by
  have hb : b.toNat < 2 ^ 64 := b.toNat_lt_size
  by_cases h : 2 ^ 63 ≤ b.toNat
  · simp only [h, decide_true, beq_iff_eq]
    apply UInt64.toNat_inj.1
    rw [UInt64.toNat_shiftRight]
    simp
    omega
  · simp only [h, decide_false, beq_eq_false_iff_ne, ne_eq]
    intro h1
    have h2 := congrArg UInt64.toNat h1
    rw [UInt64.toNat_shiftRight] at h2
    simp at h2
    omega

/-- The exponent bits are all ones exactly when the exponent field is `2047`. -/
theorem exponentBits_eq (b : UInt64) :
    ((b >>> 52) &&& 0x7FF == 0x7FF) = decide (exponentField b = 2047) := by
  rw [← toNat_exponentBits]
  by_cases h : ((b >>> 52) &&& 0x7FF).toNat = 2047
  · simp only [h, decide_true, beq_iff_eq]
    exact UInt64.toNat_inj.1 h
  · simp only [h, decide_false, beq_eq_false_iff_ne, ne_eq]
    intro h1
    exact h (by rw [h1]; rfl)

/-- A double whose significand is zero is one of the two zeros. -/
theorem toBits_of_m_eq_zero {b : UInt64} (hm : (Binary.ofBits b).m = 0) :
    b = 0 ∨ b = 0x8000000000000000 := by
  have hfields := toNat_mod_eq_fields b
  have hb : b.toNat < 2 ^ 64 := b.toNat_lt_size
  rw [ofBits_eq] at hm
  have hzero : exponentField b = 0 ∧ fractionField b = 0 := by
    split_ifs at hm with he
    · exact ⟨he, hm⟩
    · simp at hm
  rw [hzero.1, hzero.2] at hfields
  rcases Nat.lt_or_ge b.toNat (2 ^ 63) with hlt | hge
  · left
    apply UInt64.toNat_inj.1
    simp only [UInt64.toNat_zero]
    omega
  · right
    apply UInt64.toNat_inj.1
    change b.toNat = 2 ^ 63
    omega

/-! ## The text of a finite double -/

/-- A finite double is written as a minus sign, when its sign bit is set and it is not a zero
whose sign the notation hides, and the layout of its shortest decimal, or of zero. -/
theorem Notation.render_finite (n : Notation) {x : Float} (hfin : exponentField x.toBits ≠ 2047) :
    n.render x = String.ofList
      (if 2 ^ 63 ≤ x.toBits.toNat ∧ ((Binary.ofBits x.toBits).m ≠ 0 ∨ n.signedZero = true)
        then '-' :: n.layout (if (Binary.ofBits x.toBits).m = 0 then ⟨0, 0⟩
          else (Binary.ofBits x.toBits).shortest)
        else n.layout (if (Binary.ofBits x.toBits).m = 0 then ⟨0, 0⟩
          else (Binary.ofBits x.toBits).shortest)) := by
  unfold Notation.render
  simp only [exponentBits_eq, hfin, decide_false, Bool.false_eq_true, if_false, signBit_eq_one,
    decide_eq_true_eq]

/-- Both zeros are displayed `0`. -/
theorem Notation.display_render_zero {x : Float} (hfin : exponentField x.toBits ≠ 2047)
    (hm : (Binary.ofBits x.toBits).m = 0) : Notation.display.render x = "0" := by
  rw [Notation.render_finite _ hfin]
  simp [hm, Notation.display, Notation.layout]

/-- A finite nonzero double is displayed as its sign and the layout of its shortest decimal. -/
theorem Notation.display_render_nonzero {x : Float} (hfin : exponentField x.toBits ≠ 2047)
    (hm : (Binary.ofBits x.toBits).m ≠ 0) :
    Notation.display.render x = (if 2 ^ 63 ≤ x.toBits.toNat then "-" else "") ++
      String.ofList (Notation.display.layout (Binary.ofBits x.toBits).shortest) := by
  rw [Notation.render_finite _ hfin, if_neg hm]
  by_cases hneg : 2 ^ 63 ≤ x.toBits.toNat
  · rw [if_pos ⟨hneg, .inl hm⟩, if_pos hneg]
    simp
  · rw [if_neg (fun h => hneg h.1), if_neg hneg]
    simp

/-- The layout of the shortest decimal of a finite nonzero double is a decimal numeral whose
value has the bits of the double, negated when its sign bit is set. -/
theorem Notation.layout_shortest_reads (n : Notation) {b : UInt64}
    (hfin : exponentField b ≠ 2047) (hm : (Binary.ofBits b).m ≠ 0) :
    ∃ f, Numeral (n.layout (Binary.ofBits b).shortest) f ∧
      (f.style = .decimal ∨ f.style = .scientific) ∧
      (if 2 ^ 63 ≤ b.toNat then -numeralValue (String.ofList (n.layout (Binary.ofBits b).shortest)) (some f)
        else numeralValue (String.ofList (n.layout (Binary.ofBits b).shortest)) (some f)).toBits =
        b := by
  obtain ⟨f, hnum, hstyle, hden⟩ := n.layout_spells (Binary.ofBits b).shortest
  obtain ⟨m, e, hval, hread⟩ := hden.value
  -- the numeral spells the shortest decimal, which lies in the interval of the double
  have hcov : (Binary.ofBits b).Covers (m * 10 ^ e) := by
    rw [hval]
    exact Binary.covers_shortest (Nat.pos_of_ne_zero hm)
  refine ⟨f, hnum, hstyle, ?_⟩
  rw [Numeral.numeralValue_form hnum, hread]
  by_cases hneg : 2 ^ 63 ≤ b.toNat
  · rw [if_pos hneg]
    exact neg_ofScaled_toBits hneg hfin hm hcov
  · rw [if_neg hneg]
    exact ofScaled_toBits (by omega) hfin hm hcov

/-- **The display text of a finite double reads as the double.** It is a minus sign or nothing,
then a decimal numeral, positional or with an exponent, whose value, negated after a minus sign,
has the bits of the double; both zeros are written `0`, which reads as positive zero. -/
theorem Notation.display_reads {x : Float} (hfin : exponentField x.toBits ≠ 2047) :
    ∃ (neg : Bool) (body : String) (f : NumeralForm),
      Notation.display.render x = (if neg then "-" else "") ++ body ∧ Numeral body.toList f ∧
      (f.style = .decimal ∨ f.style = .scientific) ∧
      (if neg then -numeralValue body (some f) else numeralValue body (some f)).toBits =
        if x.toBits = 0x8000000000000000 then 0 else x.toBits := by
  by_cases hm : (Binary.ofBits x.toBits).m = 0
  · have hzero : (numeralValue "0" (some ⟨.integer, .decimal⟩)).toBits = 0 := by decide +kernel
    refine ⟨false, "0", ⟨.integer, .decimal⟩, ?_, .integer (.inl rfl), .inl rfl, ?_⟩
    · rw [Notation.display_render_zero hfin hm]
      rfl
    · rcases toBits_of_m_eq_zero hm with h | h <;> simp [h, hzero]
  · obtain ⟨f, hnum, hstyle, hbits⟩ := Notation.display.layout_shortest_reads hfin hm
    -- the sign bit alone is negative zero, whose significand is zero
    have hnot : x.toBits ≠ 0x8000000000000000 := by
      intro h
      rw [h] at hm
      exact hm (by decide)
    refine ⟨decide (2 ^ 63 ≤ x.toBits.toNat),
      String.ofList (Notation.display.layout (Binary.ofBits x.toBits).shortest), f, ?_,
      by simpa using hnum, hstyle, ?_⟩
    · rw [Notation.display_render_nonzero hfin hm]
      simp only [decide_eq_true_eq]
    · rw [if_neg hnot]
      simpa only [decide_eq_true_eq] using hbits

end Number

/-! ## The program a signed numeral spells -/

namespace Syntax

/-- A numeral, negated when `neg` holds: the one expression the text of a number reads as. -/
def Expr.signedNumeral (neg : Bool) (text : String) (f : NumeralForm) : Expr :=
  if neg then .unary .neg 0 (.num text f 0) else .num text f 0

variable {neg : Bool} {text : String} {f : NumeralForm}

theorem Expr.printable_signedNumeral (h : Numeral text.toList f) :
    Program.Printable [.expr (Expr.signedNumeral neg text f)] := by
  cases neg
  · exact ⟨h, trivial⟩
  · exact ⟨h, trivial⟩

theorem Expr.render_signedNumeral :
    Program.render [.expr (Expr.signedNumeral neg text f)] = (if neg then "-" else "") ++ text := by
  cases neg <;> simp [Expr.signedNumeral, Program.render, Stmt.render, Expr.render,
    Stmt.renderLines, parenthesizeIf, Expr.isOperation, Expr.isAssign, Expr.binaryPrecedence?,
    Sign.symbol]

theorem Expr.tokens_signedNumeral :
    Program.tokens [.expr (Expr.signedNumeral neg text f)] =
      (if neg then [Sign.neg.token 0] else []) ++ [Expr.numeralToken text f 0] := by
  cases neg <;> simp [Expr.signedNumeral, Program.tokens, Stmt.tokens, Expr.tokens,
    Stmt.lineTokens, parenTokensIf, Expr.isOperation, Expr.isAssign, Expr.binaryPrecedence?]

theorem Expr.height_signedNumeral :
    Program.height [.expr (Expr.signedNumeral neg text f)] ≤ 2 := by
  cases neg <;> simp [Expr.signedNumeral, Program.height, Stmt.listHeight, Stmt.height, Expr.height]

theorem Expr.erase_signedNumeral :
    (Expr.signedNumeral neg text f).erase = Expr.signedNumeral neg text f := by
  cases neg <;> rfl

theorem Stmt.eq_of_erase_eq_expr {st : Stmt} {e₀ : Expr} (h : st.erase = .expr e₀) :
    ∃ e, st = .expr e ∧ e.erase = e₀ := by
  cases st with
  | expr e => exact ⟨e, rfl, by simpa [Stmt.erase] using h⟩
  | block body => simp [Stmt.erase] at h
  | letDecl n init => cases init <;> simp [Stmt.erase] at h
  | ite c th el => cases el <;> simp [Stmt.erase] at h
  | loop c b => simp [Stmt.erase] at h

theorem Program.eq_of_erase_eq_single {p : Program} {e₀ : Expr} (h : p.erase = [.expr e₀]) :
    ∃ e, p = [.expr e] ∧ e.erase = e₀ := by
  rcases p with _ | ⟨st, _ | ⟨st', rest⟩⟩
  · simp [Program.erase, Stmt.eraseList] at h
  · simp only [Program.erase, Stmt.eraseList, List.cons.injEq, and_true] at h
    obtain ⟨e, rfl, he⟩ := Stmt.eq_of_erase_eq_expr h
    exact ⟨e, rfl, he⟩
  · simp [Program.erase, Stmt.eraseList] at h

theorem Expr.eq_of_erase_eq_num {e : Expr} (h : e.erase = .num text f 0) :
    ∃ pos, e = .num text f pos := by
  cases e <;> simp [Expr.erase] at h
  obtain ⟨rfl, rfl⟩ := h
  exact ⟨_, rfl⟩

theorem Expr.eq_of_erase_eq_unary {e e₀ : Expr} {s : Sign} (h : e.erase = .unary s 0 e₀) :
    ∃ pos e', e = .unary s pos e' ∧ e'.erase = e₀ := by
  cases e <;> simp [Expr.erase] at h
  obtain ⟨rfl, rfl⟩ := h
  exact ⟨_, _, rfl, rfl⟩

variable [NestingLimit]

/-- A numeral after an optional minus sign scans as the sign and the numeral, then the end of
input, and parses, at every level that leaves room for two nestings, as the numeral or its
negation. -/
theorem Program.reads_signedNumeral (neg : Bool) (h : Numeral text.toList f) {q : Nat}
    (hq : q + 30 ≤ nestingLimit) :
    (∃ ts, TokenStream.ofString (Program.render [.expr (Expr.signedNumeral neg text f)]) =
        ⟨ts, .ok ⟨.eof, "", (Program.render [.expr (Expr.signedNumeral neg text f)]).length,
          none⟩⟩ ∧
      ts.map Token.erase = (if neg then [Sign.neg.token 0] else []) ++
        [Expr.numeralToken text f 0]) ∧
    ∃ p, Program.parseAt q (Program.render [.expr (Expr.signedNumeral neg text f)]) = .ok p ∧
      p.erase = [.expr (Expr.signedNumeral neg text f)] := by
  have hp : Program.Printable [.expr (Expr.signedNumeral neg text f)] :=
    Expr.printable_signedNumeral h
  obtain ⟨ts, hts, hstream⟩ := TokenStream.ofString_render hp
  refine ⟨⟨ts, hstream, by rw [hts, Expr.tokens_signedNumeral]⟩, ?_⟩
  have hheight : Program.height [.expr (Expr.signedNumeral neg text f)] ≤ 2 :=
    Expr.height_signedNumeral
  obtain ⟨p', hparse, herase⟩ := Program.ofTokens_of_tokens hp
    (show (TokenStream.mk ts (.ok ⟨.eof, "",
      (Program.render [.expr (Expr.signedNumeral neg text f)]).length, none⟩)).tokens.map
        Token.erase = _ from hts) rfl rfl
    (show q + 6 * Program.height [.expr (Expr.signedNumeral neg text f)] + 18 ≤ nestingLimit by
      omega)
  refine ⟨p', ?_, ?_⟩
  · rw [Program.parseAt, hstream]
    exact hparse
  · rw [herase]
    simp only [Program.erase, Stmt.eraseList, Stmt.erase, Expr.erase_signedNumeral]

end Syntax

/-! ## Running a signed numeral -/

namespace Eval

variable {neg : Bool} {text : String} {f : NumeralForm}

variable [NestingLimit]

/-- An expression that is a signed numeral, wherever its tokens stood, evaluates to the
numeral's value, negated after a minus sign, and changes nothing. -/
theorem exec_expr_signedNumeral (fuel d : Nat) (sc : FrameId) {e : Expr}
    (he : e.erase = Expr.signedNumeral neg text f) (hd : d + 6 ≤ nestingLimit) (m : Machine) :
    exec (expr (fuel + 2) d sc e) m =
      (.ok (.num (if neg then -numeralValue text (some f) else numeralValue text (some f))), m) := by
  cases neg with
  | false =>
    obtain ⟨pos, rfl⟩ := Expr.eq_of_erase_eq_num he
    exact exec_expr_num (fuel + 1) d sc text f pos (by omega) m
  | true =>
    obtain ⟨pos, e', rfl, he'⟩ := Expr.eq_of_erase_eq_unary he
    obtain ⟨pos', rfl⟩ := Expr.eq_of_erase_eq_num he'
    simp only [expr, exec_bind, exec_reach, if_neg (show ¬nestingLimit < d by omega),
      if_neg (show ¬nestingLimit < d + 1 by omega), if_neg (show ¬nestingLimit < d + 3 by omega),
      if_neg (show ¬nestingLimit < d + 2 by omega),
      if_neg (show ¬nestingLimit < d + 2 + 4 by omega),
      if_neg (show ¬nestingLimit < d + 4 by omega), exec_ofExcept, unaryValue, Sign.apply,
      exec_pure, if_true]

end Eval

namespace Session

open Eval

variable {text : String} {f : NumeralForm}

variable [NestingLimit]

/-- A numeral after an optional minus sign runs, in any session, to the numeral's value,
negated after the sign; it prints nothing and leaves the session as it was. -/
theorem run_signedNumeral (hlimit : runLevel + 31 ≤ nestingLimit) (s : Session) (neg : Bool)
    (h : Numeral text.toList f) :
    s.run (Program.render [.expr (Expr.signedNumeral neg text f)]) =
      (⟨.ok (.num (if neg then -numeralValue text (some f) else numeralValue text (some f))), ""⟩,
        s) := by
  obtain ⟨-, p, hparse, herase⟩ :=
    Program.reads_signedNumeral neg h (show runLevel + 1 + 30 ≤ nestingLimit by omega)
  obtain ⟨e, rfl, he⟩ := Program.eq_of_erase_eq_single herase
  -- the one statement evaluates the expression, three levels below the run
  obtain ⟨k, hk⟩ : ∃ k, evalFuel = k + 4 := ⟨10 ^ 15 - 4, by simp [evalFuel]⟩
  rw [run_of_parseAt s hparse, hk, body_succ_cons, exec_bind]
  simp only [stmt]
  rw [exec_expr_signedNumeral k _ _ he (by unfold runLevel at hlimit ⊢; omega)]
  simp only [body_succ_nil, exec_pure]
  rfl

/-- **The display text of every finite double runs back to the double.** In any session, the
text of a finite number `x` is a minus sign or nothing, then one decimal numeral, positional or
with an exponent. It scans as the minus sign, the numeral and the end of input, and parses as
the numeral, negated after a minus sign. Run, it prints nothing, leaves the session as it was,
and gives a number with the bits of `x`, except that negative zero gives positive zero; all this
at every nesting limit that leaves room to read and run a signed numeral. -/
theorem run_display (hlimit : runLevel + 31 ≤ nestingLimit) (s : Session) {x : Float}
    (hx : x.isFinite = true) :
    ∃ (neg : Bool) (body : String) (f : NumeralForm),
      (Value.num x).display = (if neg then "-" else "") ++ body ∧
      Numeral body.toList f ∧ (f.style = .decimal ∨ f.style = .scientific) ∧
      (∃ ts, TokenStream.ofString (Value.num x).display =
          ⟨ts, .ok ⟨.eof, "", (Value.num x).display.length, none⟩⟩ ∧
        ts.map Token.erase = (if neg then [Sign.neg.token 0] else []) ++
          [Expr.numeralToken body f 0]) ∧
      (∃ p, Program.parse (Value.num x).display = .ok p ∧
        p.erase = [.expr (Expr.signedNumeral neg body f)]) ∧
      ∃ y : Float, s.run (Value.num x).display = (⟨.ok (.num y), ""⟩, s) ∧
        y.toBits = if x.toBits = 0x8000000000000000 then 0 else x.toBits := by
  obtain ⟨neg, body, f, htext, hnum, hstyle, hbits⟩ :=
    Notation.display_reads (exponentField_ne_of_isFinite hx)
  have hsrc : (Value.num x).display = Program.render [.expr (Expr.signedNumeral neg body f)] := by
    rw [Expr.render_signedNumeral]
    exact htext
  obtain ⟨hscan, hparse⟩ :=
    Program.reads_signedNumeral neg hnum
      (show readLevel + 30 ≤ nestingLimit by unfold readLevel; unfold runLevel at hlimit; omega)
  rw [hsrc]
  exact ⟨neg, body, f, Expr.render_signedNumeral, hnum, hstyle, hscan, hparse,
    _, run_signedNumeral hlimit s neg hnum, hbits⟩

end Session
end Scriptlet

namespace Scriptlet

open Syntax Number

namespace Session

open Eval

/-- The text of `-1.5e-7`, written with an exponent, runs back to it in a new session. -/
theorem run_display_small_negative :
    runLevel + 31 ≤ nestingLimit ∧ (-1.5e-7 : Float).isFinite = true ∧ ∃ (neg : Bool) (body : String) (f : NumeralForm),
      (Value.num (-1.5e-7)).display = (if neg then "-" else "") ++ body ∧
      Numeral body.toList f ∧ (f.style = .decimal ∨ f.style = .scientific) ∧
      (∃ ts, TokenStream.ofString (Value.num (-1.5e-7)).display =
          ⟨ts, .ok ⟨.eof, "", (Value.num (-1.5e-7)).display.length, none⟩⟩ ∧
        ts.map Token.erase = (if neg then [Sign.neg.token 0] else []) ++
          [Expr.numeralToken body f 0]) ∧
      (∃ p, Program.parse (Value.num (-1.5e-7)).display = .ok p ∧
        p.erase = [.expr (Expr.signedNumeral neg body f)]) ∧
      ∃ y : Float, (start false).run (Value.num (-1.5e-7)).display =
          (⟨.ok (.num y), ""⟩, start false) ∧
        y.toBits = if (-1.5e-7 : Float).toBits = 0x8000000000000000 then 0
          else (-1.5e-7 : Float).toBits :=
  ⟨by decide, by decide +kernel, run_display (by decide) (start false) (by decide +kernel)⟩

end Session

end Scriptlet
