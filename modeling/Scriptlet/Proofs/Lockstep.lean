import Mathlib
import Scriptlet.Eval

/-!
# Running two evaluations side by side

Several facts about evaluation compare two runs: of one program from two stores that agree on
what the program can see, or of two programs that differ only where evaluation never looks.
Both are instances of one notion, `Eval.Lockstep`: started from machines related by `R`, two
evaluations end in machines related by `R`, either both with values related by `V` or both with
the same interruption.

Lockstep runs compose as the programs do (`Lockstep.bind`), so two evaluations are compared by
walking through the program once, with one rule for each kind of step: a value, a fault, a test
of the nesting level, a read or a change of the machine, a choice.

## Main definitions

* `Eval.exec`: an evaluation run from a machine.
* `Eval.Matches`: two outcomes that end alike.
* `Eval.Lockstep`: two evaluations that end alike from any two related machines.
-/

set_option autoImplicit false

namespace Scriptlet.Eval

open Scriptlet.Syntax

/-! ## Running an evaluation -/

/-- An evaluation run from machine `m`: its value or interruption, and the machine after it. -/
def exec {α : Type} (x : Eval α) (m : Machine) : Except Interrupt α × Machine := x.run.run m

@[simp] theorem exec_pure {α : Type} (a : α) (m : Machine) : exec (pure a) m = (.ok a, m) := rfl

@[simp] theorem exec_throw {α : Type} (e : Interrupt) (m : Machine) :
    exec (throw e : Eval α) m = (.error e, m) := rfl

@[simp] theorem exec_get_bind {α : Type} (f : Machine → Eval α) (m : Machine) :
    exec (get >>= f) m = exec (f m) m := rfl

@[simp] theorem exec_modify (f : Machine → Machine) (m : Machine) :
    exec (modify f) m = (.ok (), f m) := rfl

@[simp] theorem exec_modifyGet {α : Type} (f : Machine → α × Machine) (m : Machine) :
    exec (modifyGet f) m = (.ok (f m).1, (f m).2) := rfl

/-- A sequence runs its first part, and its second from where the first stopped, unless the
first was interrupted. -/
theorem exec_bind {α β : Type} (x : Eval α) (f : α → Eval β) (m : Machine) :
    exec (x >>= f) m = match exec x m with
      | (.ok a, m') => exec (f a) m'
      | (.error e, m') => (.error e, m') := by
  delta exec
  rcases h : x.run.run m with ⟨r, m'⟩
  cases r <;> simp_all [StateT.run, ExceptT.run, bind, ExceptT.bind, ExceptT.mk, StateT.bind,
    ExceptT.bindCont, pure, StateT.pure]

variable [NestingLimit] in
theorem exec_reach (d : Nat) (m : Machine) :
    exec (reach d) m = if nestingLimit < d then (.error (.fault .nestingLimit), m) else (.ok (), m) := by
  unfold reach
  split <;> rfl

theorem exec_fail {α : Type} (f : Fault) (m : Machine) :
    exec (fail f : Eval α) m = (.error (.fault f), m) := rfl

theorem exec_ofExcept {α : Type} (e : Except Fault α) (m : Machine) :
    exec (ofExcept e) m = (match e with | .ok a => .ok a | .error f => .error (.fault f), m) := by
  cases e <;> rfl

/-! ## Outcomes that end alike -/

/-- Two outcomes that end alike: values related by `V`, or the same interruption, and in either
case machines related by `R`. -/
def Matches {α β : Type} (R : Machine → Machine → Prop) (V : α → β → Prop) :
    Except Interrupt α × Machine → Except Interrupt β × Machine → Prop
  | (.ok a, m₁), (.ok b, m₂) => V a b ∧ R m₁ m₂
  | (.error e₁, m₁), (.error e₂, m₂) => e₁ = e₂ ∧ R m₁ m₂
  | _, _ => False

/-- Two evaluations in lockstep: from any two machines related by `R` they end alike. -/
def Lockstep {α β : Type} (R : Machine → Machine → Prop) (V : α → β → Prop) (x : Eval α)
    (y : Eval β) : Prop :=
  ∀ m₁ m₂, R m₁ m₂ → Matches R V (exec x m₁) (exec y m₂)

namespace Lockstep

variable {α β γ δ : Type} {R : Machine → Machine → Prop} {V : α → β → Prop}
  {W : γ → δ → Prop}

theorem ret {a : α} {b : β} (h : V a b) : Lockstep R V (pure a) (pure b) :=
  fun _ _ hR => ⟨h, hR⟩

theorem raise {e : Interrupt} : Lockstep R V (throw e) (throw e) :=
  fun _ _ hR => ⟨rfl, hR⟩

theorem fault {f : Fault} : Lockstep R V (fail f) (fail f) :=
  fun _ _ hR => ⟨rfl, hR⟩

variable [NestingLimit] in
/-- Both runs test the same level, so both pass or both fail. -/
theorem reached {d : Nat} : Lockstep R (fun _ _ => True) (reach d) (reach d) := by
  intro m₁ m₂ hR
  simp only [exec_reach]
  split
  · exact ⟨rfl, hR⟩
  · exact ⟨trivial, hR⟩

/-- Lockstep runs compose: the second parts start from related machines with related values. -/
theorem bind {x : Eval α} {y : Eval β} {f : α → Eval γ} {g : β → Eval δ}
    (hx : Lockstep R V x y) (hf : ∀ a b, V a b → Lockstep R W (f a) (g b)) :
    Lockstep R W (x >>= f) (y >>= g) := by
  intro m₁ m₂ hR
  have h := hx m₁ m₂ hR
  rw [exec_bind, exec_bind]
  rcases hx₁ : exec x m₁ with ⟨r₁, m₁'⟩
  rcases hy₂ : exec y m₂ with ⟨r₂, m₂'⟩
  rw [hx₁, hy₂] at h
  cases r₁ <;> cases r₂ <;> simp only [Matches] at h ⊢
  · exact h
  · exact hf _ _ h.1 m₁' m₂' h.2

/-- A step that reads the machine: the rest is in lockstep for any two related machines. -/
theorem read {f : Machine → Eval α} {g : Machine → Eval β}
    (h : ∀ m₁ m₂, R m₁ m₂ → Lockstep R V (f m₁) (g m₂)) :
    Lockstep R V (get >>= f) (get >>= g) := by
  intro m₁ m₂ hR
  exact h m₁ m₂ hR m₁ m₂ hR

/-- A step that changes the machine, in a way that keeps related machines related. -/
theorem write {f g : Machine → Machine} (h : ∀ m₁ m₂, R m₁ m₂ → R (f m₁) (g m₂)) :
    Lockstep R (fun _ _ => True) (modify f) (modify g) :=
  fun m₁ m₂ hR => ⟨trivial, h m₁ m₂ hR⟩

/-- A step that changes the machine and gives a value. -/
theorem update {f : Machine → α × Machine} {g : Machine → β × Machine}
    (h : ∀ m₁ m₂, R m₁ m₂ → V (f m₁).1 (g m₂).1 ∧ R (f m₁).2 (g m₂).2) :
    Lockstep R V (modifyGet f) (modifyGet g) :=
  fun m₁ m₂ hR => by simpa [Matches] using h m₁ m₂ hR

/-- Both runs take the same branch of a choice. -/
theorem cond {c c' : Prop} [Decidable c] [Decidable c'] {x x' : Eval α} {y y' : Eval β}
    (hc : c ↔ c') (ht : c → Lockstep R V x y) (he : ¬c → Lockstep R V x' y') :
    Lockstep R V (if c then x else x') (if c' then y else y') := by
  by_cases h : c
  · rw [if_pos h, if_pos (hc.1 h)]; exact ht h
  · rw [if_neg h, if_neg (mt hc.2 h)]; exact he h

/-- A store operation whose results match on both sides. -/
theorem ofExcept {e₁ : Except Fault α} {e₂ : Except Fault β}
    (h : match e₁, e₂ with
      | .ok a, .ok b => V a b
      | .error f₁, .error f₂ => f₁ = f₂
      | _, _ => False) :
    Lockstep R V (Eval.ofExcept e₁) (Eval.ofExcept e₂) := by
  intro m₁ m₂ hR
  cases e₁ <;> cases e₂ <;> simp only at h <;>
    simp only [exec_ofExcept, Matches] <;> first | exact ⟨h, hR⟩ | exact ⟨by rw [h], hR⟩

/-- The same store operation on both sides, when each value it can give is related to itself. -/
theorem ofExcept_self {e : Except Fault α} {V : α → α → Prop} (hV : ∀ a, e = .ok a → V a a) :
    Lockstep R V (Eval.ofExcept e) (Eval.ofExcept e) := by
  apply ofExcept
  cases e with
  | ok a => exact hV a rfl
  | error f => rfl

end Lockstep

end Scriptlet.Eval
