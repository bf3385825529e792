import Scriptlet.Proofs.ParseEnds
import Scriptlet.Proofs.Triples
import Scriptlet.Session

/-!
# What a run can fail with

A run fails only in the ways the language documents: a fault of the scanner, a syntax error, or a
fault of the running program, each with its class; or at the nesting limit, where the host's stack
would end; or it does not end. Two failures are never met although the code has them: the parser's
"expected an operator" (`ParseError.Ordinary`), and applying a value that is not a function, the
last branch of `Eval.apply` and an internal error. A call tests its callee before it evaluates the
arguments, so only a function reaches `Eval.apply` (`Eval.noInternal`).

Every numeral of the program run is spelled by the numeral grammar in the form it records
(`Program.parseAt_spelled`), so reading the number it stands for never meets a text outside the
grammar.

## Main definitions

* `Interrupt.Ordinary`: an interruption other than the application of a value that is not a
  function.
* `Eval.Ordinarily`: an evaluation whose interruptions are ordinary.
* `Session.documentedClasses`: the classes of error a run documents.

## Main statements

* `Eval.noInternal`: no evaluation function, with any fuel, stops at the internal error.
* `Session.run_fails_as_documented`: a run's failures, by class.
-/

set_option autoImplicit false

namespace Scriptlet

open Syntax

/-- The interruptions a program can meet: every fault but the application of a value that is not
a function, and the fuel running out. -/
def Interrupt.Ordinary : Interrupt → Prop
  | .fault (.applyNotCallable _) => False
  | _ => True

namespace Store

/-- Looking a name up fails only because no frame binds it. -/
theorem lookup_error {s : Store} {i : FrameId} {n : String} {f : Fault}
    (h : s.lookup i n = .error f) : f = .undefinedVariable n := by
  unfold lookup at h
  split at h
  · split at h
    · cases h
    · cases h
      rfl
  · cases h
    rfl

/-- Finding the frame to assign in fails because no frame binds the name, or one binds it as a
constant. -/
theorem assignTarget_error {s : Store} {i : FrameId} {n : String} {f : Fault}
    (h : s.assignTarget i n = .error f) : f = .undefinedVariable n ∨ f = .constantViolation n := by
  unfold assignTarget at h
  split at h
  · cases h
    exact .inl rfl
  · split at h
    · cases h
      exact .inr rfl
    · cases h

end Store

/-- An operator fails only on operands that are not numbers, or as one without meaning. -/
theorem binaryValue_error {op : BinOp} {a b : Value} {f : Fault} (h : binaryValue op a b = .error f) :
    f = .unsupportedOperator op a.type b.type ∨ f = .operandsNotNumbers op a.type b.type := by
  unfold binaryValue at h
  split at h
  -- the five operators without meaning
  any_goals (cases h; exact .inl rfl)
  -- the others, on two numbers or not
  split at h
  · split at h <;> cases h
    exact .inl rfl
  · cases h
    exact .inr rfl

/-- A sign fails only on an operand that is not a number. -/
theorem unaryValue_error {s : Sign} {a : Value} {f : Fault} (h : unaryValue s a = .error f) :
    f = .operandNotNumber s a.type := by
  unfold unaryValue at h
  split at h
  · cases h
  · cases h
    rfl

namespace Eval

/-- An evaluation whose interruptions, from any machine, are ordinary. -/
def Ordinarily {α : Type} (x : Eval α) : Prop :=
  Triple (fun _ => True) x (fun _ _ => True) fun i _ => i.Ordinary

namespace Ordinarily

variable {α β : Type}

theorem ret {a : α} : Ordinarily (pure a) := Triple.ret fun _ _ => trivial

variable [NestingLimit] in
theorem reached {d : Nat} : Ordinarily (reach d) :=
  Triple.reached (fun _ _ => trivial) fun _ _ => trivial

theorem fault {f : Fault} (hf : (Interrupt.fault f).Ordinary) : Ordinarily (fail f : Eval α) :=
  Triple.fault fun _ _ => hf

theorem bind {x : Eval α} {f : α → Eval β} (hx : Ordinarily x) (hf : ∀ a, Ordinarily (f a)) :
    Ordinarily (x >>= f) :=
  Triple.bind hx hf

theorem read {f : Machine → Eval α} (h : ∀ m, Ordinarily (f m)) : Ordinarily (get >>= f) :=
  Triple.peek fun m _ => h m

theorem write {g : Machine → Machine} : Ordinarily (modify g) := Triple.write fun _ _ => trivial

theorem update {g : Machine → α × Machine} : Ordinarily (modifyGet g) :=
  Triple.update fun _ _ => trivial

theorem cond {c : Prop} [Decidable c] {x y : Eval α} (hx : Ordinarily x) (hy : Ordinarily y) :
    Ordinarily (if c then x else y) :=
  Triple.cond (fun _ => hx) fun _ => hy

theorem ofExcept {e : Except Fault α} (h : ∀ f, e = .error f → (Interrupt.fault f).Ordinary) :
    Ordinarily (Eval.ofExcept e) :=
  Triple.ofExcept (fun _ _ _ _ => trivial) fun f hf _ _ => h f hf

end Ordinarily

variable [NestingLimit]

theorem ordinarily_truth (d : Nat) (v : Value) : Ordinarily (truth d v) := by
  unfold truth
  refine Ordinarily.bind Ordinarily.reached fun _ => ?_
  cases v with
  | bool b => exact Ordinarily.ret
  | _ => exact Ordinarily.bind Ordinarily.reached fun _ => Ordinarily.fault trivial

theorem ordinarily_bindParams (d : Nat) (i : FrameId) :
    ∀ (ps : List String) (vs : List Value), Ordinarily (bindParams d i ps vs)
  | [], _ => Ordinarily.ret
  | p :: ps, vs => by
    simp only [bindParams]
    have hrest : Ordinarily (modify (fun m => ⟨m.store.bind i p (vs.headD .null) false,
        m.printed⟩) >>= fun _ => bindParams d i ps vs.tail) :=
      Ordinarily.bind Ordinarily.write fun _ => ordinarily_bindParams d i ps _
    exact Ordinarily.bind Ordinarily.reached fun _ => Ordinarily.read fun _ =>
      Ordinarily.cond (Ordinarily.bind Ordinarily.reached fun _ =>
        Ordinarily.bind (Ordinarily.fault trivial) fun _ => hrest) hrest

theorem ordinarily_native (d : Nat) (action : NativeAction) (vs : List Value) :
    Ordinarily (native d action vs) := by
  have hemit : ∀ text : String, Ordinarily (emit text >>= fun _ => pure Value.null) :=
    fun _ => Ordinarily.bind Ordinarily.write fun _ => Ordinarily.ret
  simp only [native]
  refine Ordinarily.bind Ordinarily.reached fun _ => ?_
  cases action with
  | print =>
    exact Ordinarily.bind Ordinarily.reached fun _ =>
      Ordinarily.cond (Ordinarily.bind Ordinarily.reached fun _ => hemit _) (hemit _)
  | _ => exact Ordinarily.bind Ordinarily.reached fun _ => Ordinarily.ret

/-- With `fuel`, every evaluation function stops, when it stops, with an ordinary interruption;
applying needs a function. -/
structure NoInternal (fuel : Nat) : Prop where
  expr : ∀ d sc e, Ordinarily (Eval.expr fuel d sc e)
  exprs : ∀ d sc es, Ordinarily (Eval.exprs fuel d sc es)
  apply : ∀ d f vs, f.isCallable = true → Ordinarily (Eval.apply fuel d f vs)
  stmt : ∀ d sc st, Ordinarily (Eval.stmt fuel d sc st)
  branch : ∀ d sc st, Ordinarily (Eval.branch fuel d sc st)
  loop : ∀ d sc c b l, Ordinarily (Eval.loop fuel d sc c b l)
  body : ∀ d sc sts l, Ordinarily (Eval.body fuel d sc sts l)

theorem noInternal_zero : NoInternal 0 where
  expr _ _ _ := by simp only [Eval.expr]; exact Triple.raise fun _ _ => trivial
  exprs _ _ _ := by simp only [Eval.exprs]; exact Triple.raise fun _ _ => trivial
  apply _ _ _ _ := by simp only [Eval.apply]; exact Triple.raise fun _ _ => trivial
  stmt _ _ _ := by simp only [Eval.stmt]; exact Triple.raise fun _ _ => trivial
  branch _ _ _ := by simp only [Eval.branch]; exact Triple.raise fun _ _ => trivial
  loop _ _ _ _ _ := by simp only [Eval.loop]; exact Triple.raise fun _ _ => trivial
  body _ _ _ _ := by simp only [Eval.body]; exact Triple.raise fun _ _ => trivial

section Succ

variable {n : Nat} (ih : NoInternal n)
include ih

theorem noInternal_expr_succ (d : Nat) (sc : FrameId) (e : Expr) :
    Ordinarily (Eval.expr (n + 1) d sc e) := by
  cases e with
  | ident x =>
    simp only [Eval.expr]
    refine Ordinarily.bind Ordinarily.reached fun _ => Ordinarily.bind Ordinarily.reached fun _ =>
      Ordinarily.read fun m => ?_
    cases hl : m.store.lookup sc x with
    | ok v => exact Ordinarily.ret
    | error f =>
      refine Ordinarily.bind Ordinarily.reached fun _ => Ordinarily.fault ?_
      rw [Store.lookup_error hl]
      trivial
  | num text form pos =>
    simp only [Eval.expr]
    exact Ordinarily.bind Ordinarily.reached fun _ =>
      Ordinarily.bind Ordinarily.reached fun _ => Ordinarily.ret
  | str t =>
    simp only [Eval.expr]
    exact Ordinarily.bind Ordinarily.reached fun _ =>
      Ordinarily.bind Ordinarily.reached fun _ => Ordinarily.ret
  | binary op pos l r =>
    simp only [Eval.expr]
    have hv : ∀ a b, Ordinarily (ofExcept (binaryValue op a b)) := fun _ _ =>
      Ordinarily.ofExcept fun f hf => by
        rcases binaryValue_error hf with rfl | rfl <;> trivial
    exact Ordinarily.bind Ordinarily.reached fun _ => Ordinarily.bind Ordinarily.reached fun _ =>
      Ordinarily.bind (ih.expr _ sc l) fun a => Ordinarily.bind (ih.expr _ sc r) fun b =>
        Ordinarily.bind Ordinarily.reached fun _ => Ordinarily.bind (hv a b) fun _ =>
          Ordinarily.cond (Ordinarily.bind Ordinarily.reached fun _ => Ordinarily.ret)
            Ordinarily.ret
  | unary sg pos x =>
    simp only [Eval.expr]
    have hv : ∀ a, Ordinarily (ofExcept (unaryValue sg a)) := fun _ =>
      Ordinarily.ofExcept fun f hf => by
        rw [unaryValue_error hf]
        trivial
    exact Ordinarily.bind Ordinarily.reached fun _ => Ordinarily.bind Ordinarily.reached fun _ =>
      Ordinarily.bind (ih.expr _ sc x) fun a => Ordinarily.bind Ordinarily.reached fun _ =>
        Ordinarily.bind (hv a) fun _ => Ordinarily.bind Ordinarily.reached fun _ => Ordinarily.ret
  | assign t v =>
    cases t
    case ident x =>
      simp only [Eval.expr]
      refine Ordinarily.bind Ordinarily.reached fun _ => Ordinarily.bind Ordinarily.reached fun _ =>
        Ordinarily.bind (ih.expr _ sc v) fun w => Ordinarily.bind Ordinarily.reached fun _ =>
          Ordinarily.read fun m => ?_
      cases hx : m.store.assignTarget sc x with
      | ok j => exact Ordinarily.bind Ordinarily.write fun _ => Ordinarily.ret
      | error f =>
        refine Ordinarily.bind Ordinarily.reached fun _ => Ordinarily.fault ?_
        rcases Store.assignTarget_error hx with rfl | rfl <;> trivial
    all_goals
      simp only [Eval.expr]
      exact Ordinarily.bind Ordinarily.reached fun _ => Ordinarily.bind Ordinarily.reached fun _ =>
        Ordinarily.bind Ordinarily.reached fun _ => Ordinarily.fault trivial
  | call callee args =>
    simp only [Eval.expr]
    -- the callee is tested before its arguments: only a function is applied
    refine Ordinarily.bind Ordinarily.reached fun _ => Ordinarily.bind Ordinarily.reached fun _ =>
      Ordinarily.bind (ih.expr _ sc callee) fun f => Ordinarily.bind Ordinarily.reached fun _ => ?_
    by_cases hf : f.isCallable = true
    · rw [if_pos hf]
      exact Ordinarily.bind (ih.exprs _ sc args) fun vs => ih.apply _ f vs hf
    · rw [if_neg hf]
      exact Ordinarily.fault trivial
  | func ps body =>
    simp only [Eval.expr]
    exact Ordinarily.bind Ordinarily.reached fun _ =>
      Ordinarily.bind Ordinarily.reached fun _ => Ordinarily.ret

theorem noInternal_exprs_succ (d : Nat) (sc : FrameId) (es : List Expr) :
    Ordinarily (Eval.exprs (n + 1) d sc es) := by
  cases es with
  | nil =>
    simp only [Eval.exprs]
    exact Ordinarily.ret
  | cons e rest =>
    simp only [Eval.exprs]
    exact Ordinarily.bind (ih.expr _ sc e) fun _ => Ordinarily.bind (ih.exprs _ sc rest) fun _ =>
      Ordinarily.ret

/-- Only a function is applied, so the last branch, the internal error, is never taken. -/
theorem noInternal_apply_succ (d : Nat) (f : Value) (vs : List Value) (hf : f.isCallable = true) :
    Ordinarily (Eval.apply (n + 1) d f vs) := by
  cases f with
  | closure ps stmts c =>
    simp only [Eval.apply]
    exact Ordinarily.bind Ordinarily.reached fun _ => Ordinarily.bind Ordinarily.reached fun _ =>
      Ordinarily.bind Ordinarily.update fun fr =>
        Ordinarily.bind (ordinarily_bindParams _ fr ps vs) fun _ =>
          Ordinarily.cond (Ordinarily.bind Ordinarily.reached fun _ => ih.body _ fr stmts _)
            (ih.body _ fr stmts _)
  | native name action =>
    simp only [Eval.apply]
    exact Ordinarily.bind Ordinarily.reached fun _ => ordinarily_native _ action vs
  | _ => cases hf

theorem noInternal_stmt_succ (d : Nat) (sc : FrameId) (st : Stmt) :
    Ordinarily (Eval.stmt (n + 1) d sc st) := by
  -- the end of a declaration fails only if the frame binds the name
  have hdeclare : ∀ x (v : Value), Ordinarily (do
      reach (d + 2)
      if (← get).store.has sc x then
        reach (d + 5)
        fail (.alreadyDefined x)
      modify fun m => ⟨m.store.bind sc x v false, m.printed⟩
      return v) := fun x v => by
    have hrest : Ordinarily (modify (fun m => ⟨m.store.bind sc x v false, m.printed⟩) >>=
        fun _ => pure v) :=
      Ordinarily.bind Ordinarily.write fun _ => Ordinarily.ret
    exact Ordinarily.bind Ordinarily.reached fun _ => Ordinarily.read fun _ =>
      Ordinarily.cond (Ordinarily.bind Ordinarily.reached fun _ =>
        Ordinarily.bind (Ordinarily.fault trivial) fun _ => hrest) hrest
  cases st with
  | expr e =>
    simp only [Eval.stmt]
    exact ih.expr _ sc e
  | block stmts =>
    simp only [Eval.stmt]
    exact Ordinarily.bind Ordinarily.reached fun _ => Ordinarily.bind Ordinarily.update fun fr =>
      ih.body _ fr stmts _
  | letDecl x init =>
    cases init with
    | some e =>
      simp only [Eval.stmt]
      exact Ordinarily.bind Ordinarily.reached fun _ => Ordinarily.bind (ih.expr _ sc e) fun v =>
        hdeclare x v
    | none =>
      simp only [Eval.stmt]
      exact Ordinarily.bind Ordinarily.reached fun _ => Ordinarily.bind Ordinarily.ret fun v =>
        hdeclare x v
  | ite c th el =>
    cases el with
    | some st =>
      simp only [Eval.stmt]
      exact Ordinarily.bind Ordinarily.reached fun _ => Ordinarily.bind (ih.expr _ sc c) fun _ =>
        Ordinarily.bind (ordinarily_truth _ _) fun _ =>
          Ordinarily.cond (ih.branch _ sc th) (ih.branch _ sc st)
    | none =>
      simp only [Eval.stmt]
      exact Ordinarily.bind Ordinarily.reached fun _ => Ordinarily.bind (ih.expr _ sc c) fun _ =>
        Ordinarily.bind (ordinarily_truth _ _) fun _ =>
          Ordinarily.cond (ih.branch _ sc th) Ordinarily.ret
  | loop c b =>
    simp only [Eval.stmt]
    exact Ordinarily.bind Ordinarily.reached fun _ => ih.loop _ sc c b _

theorem noInternal_branch_succ (d : Nat) (sc : FrameId) (st : Stmt) :
    Ordinarily (Eval.branch (n + 1) d sc st) := by
  cases st
  case block stmts =>
    simp only [Eval.branch]
    exact Ordinarily.bind Ordinarily.reached fun _ => Ordinarily.bind Ordinarily.update fun fr =>
      ih.body _ fr stmts _
  all_goals
    simp only [Eval.branch]
    exact Ordinarily.bind Ordinarily.reached fun _ => Ordinarily.bind Ordinarily.update fun fr =>
      ih.stmt _ fr _

theorem noInternal_loop_succ (d : Nat) (sc : FrameId) (c : Expr) (b : Stmt) (l : Value) :
    Ordinarily (Eval.loop (n + 1) d sc c b l) := by
  simp only [Eval.loop]
  exact Ordinarily.bind Ordinarily.reached fun _ => Ordinarily.bind Ordinarily.update fun fr =>
    Ordinarily.bind (ih.expr _ fr c) fun _ => Ordinarily.bind (ordinarily_truth _ _) fun _ =>
      Ordinarily.cond (Ordinarily.bind (ih.branch _ sc b) fun v => ih.loop _ sc c b v)
        Ordinarily.ret

theorem noInternal_body_succ (d : Nat) (sc : FrameId) (sts : List Stmt) :
    ∀ l : Value, Ordinarily (Eval.body (n + 1) d sc sts l) := by
  -- every statement of the list runs with the same fuel, so the induction is on the list
  induction sts with
  | nil =>
    intro l
    simp only [Eval.body_succ_nil]
    exact Ordinarily.ret
  | cons st rest ihr =>
    intro l
    simp only [Eval.body_succ_cons]
    exact Ordinarily.bind (ih.stmt d sc st) ihr

end Succ

theorem noInternal_succ {n : Nat} (ih : NoInternal n) : NoInternal (n + 1) where
  expr d sc e := noInternal_expr_succ ih d sc e
  exprs d sc es := noInternal_exprs_succ ih d sc es
  apply d f vs hf := noInternal_apply_succ ih d f vs hf
  stmt d sc st := noInternal_stmt_succ ih d sc st
  branch d sc st := noInternal_branch_succ ih d sc st
  loop d sc c b l := noInternal_loop_succ ih d sc c b l
  body d sc sts l := noInternal_body_succ ih d sc sts l

/-- Every evaluation function, with any fuel, stops only with ordinary interruptions. -/
theorem noInternal (fuel : Nat) : NoInternal fuel := by
  induction fuel with
  | zero => exact noInternal_zero
  | succ n ih => exact noInternal_succ ih

end Eval

namespace Session

/-- The classes of error the language documents for a run: faults of the scanner, syntax errors,
and faults of a running program. -/
def documentedClasses : List String :=
  ["TzUnexpectedCharacter", "TzUnterminatedString", "TzInvalidNumber", "TzSyntaxError",
    "TzUndefinedVariable", "TzAlreadyDefined", "TzConstantViolation", "TzTypeError",
    "TzNotCallable", "TzInvalidAssignmentTarget", "TzUnsupported"]

/-- An ordinary fault is of a documented class, or the nesting limit. -/
theorem className_of_ordinary {f : Fault} (hf : (Interrupt.fault f).Ordinary) :
    f.className ∈ documentedClasses ∨ f.className = Fault.nestingLimit.className := by
  cases f with
  | applyNotCallable t => exact hf.elim
  | nestingLimit => exact .inr rfl
  | _ => exact .inl (by simp [Fault.className, documentedClasses])

/-- An ordinary error of the parser is of a documented class, or the nesting limit. -/
theorem className_of_parse_ordinary {e : ParseError} (he : e.Ordinary) :
    (Failure.parse e).className ∈ documentedClasses ∨
      (Failure.parse e).className = Fault.nestingLimit.className := by
  cases e with
  | lexical l =>
    cases l <;> exact .inl (by simp [Failure.className, LexError.className, documentedClasses])
  | unexpected t w => exact .inl (by simp [Failure.className, documentedClasses])
  | tooDeep => exact .inr rfl
  | exhausted => exact he.elim

variable [NestingLimit]

/-- A run fails only with an error of a documented class; at the nesting limit, where the host's
stack would end; or when its fuel runs out, for a program that does not end. It never fails with
"expected an operator", nor with an internal error. Every numeral of the program it runs is
spelled by the numeral grammar in its form. -/
theorem run_fails_as_documented (s : Session) (src : String) :
    (∀ f, (s.run src).1.result = .error f →
      (f.className ∈ documentedClasses ∧ ∀ t, f ≠ .parse (.unexpected t .operator)) ∨
        f.className = Fault.nestingLimit.className ∨ f = .outOfFuel) ∧
    ∀ p, Program.parseAt (runLevel + 1) src = .ok p → Spelled (Stmt.listNumerals p) := by
  refine ⟨fun f hf => ?_, fun p hp => Program.parseAt_spelled hp⟩
  unfold run at hf
  split at hf
  · -- the text does not parse: an ordinary error of the parser
    rename_i e he
    cases hf
    have hord := Program.parseAt_ordinary he
    rcases className_of_parse_ordinary hord with hc | hc
    · refine .inl ⟨hc, fun t h => ?_⟩
      cases h
      exact hord rfl
    · exact .inr (.inl hc)
  · -- the program runs: an ordinary interruption of its statements
    rename_i prog _
    have hrun := (Eval.noInternal evalFuel).body (runLevel + 3) globalFrame prog .null ⟨s.store, ""⟩ trivial
    simp only [Eval.exec] at hrun
    split at hf
    rename_i r m hr
    rw [hr] at hrun
    simp only at hf
    rcases r with (_ | g) | v
    · cases hf
      rcases className_of_ordinary hrun with hc | hc
      · exact .inl ⟨hc, nofun⟩
      · exact .inr (.inl hc)
    · cases hf
      exact .inr (.inr rfl)
    · cases hf

end Session

end Scriptlet
