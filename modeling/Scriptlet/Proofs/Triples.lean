import Scriptlet.Proofs.Lockstep

/-!
# What one evaluation guarantees

A fact about one evaluation is a triple `Eval.Triple P x Q E`: run from any machine that
satisfies `P`, the evaluation `x` ends in a machine that satisfies `Q a` when it gives the value
`a`, and `E i` when it stops with the interruption `i`. A fact that compares the machine at the end
with the machine at the start, such as a frame that keeps its bindings, is a triple whose
conditions name the starting machine.

Triples compose as the programs do (`Triple.bind`), with one rule for each kind of step: a value,
an interruption, a test of the nesting level, a read or a change of the machine, a choice. They
play for one run the part that `Eval.Lockstep` plays for two.

## Main definitions

* `Eval.Ends`: what an outcome satisfies, by its kind.
* `Eval.Triple`: pre- and postconditions of an evaluation.
* `Eval.Keeps`: an evaluation that keeps a condition on the machine, whatever it gives.
-/

set_option autoImplicit false

namespace Scriptlet.Eval

/-- An outcome that satisfies `Q` if it is a value and `E` if it is an interruption, each
together with the machine it ends in. -/
def Ends {α : Type} (Q : α → Machine → Prop) (E : Interrupt → Machine → Prop) :
    Except Interrupt α × Machine → Prop
  | (.ok a, m) => Q a m
  | (.error i, m) => E i m

/-- Run from a machine satisfying `P`, the evaluation `x` ends in a machine satisfying `Q a` if
it gives `a`, and `E i` if it stops with `i`. -/
def Triple {α : Type} (P : Machine → Prop) (x : Eval α) (Q : α → Machine → Prop)
    (E : Interrupt → Machine → Prop) : Prop :=
  ∀ m, P m → Ends Q E (exec x m)

/-- The evaluation `x` keeps `I`: run from a machine satisfying `I`, it ends in one, whatever it
gives. -/
def Keeps {α : Type} (I : Machine → Prop) (x : Eval α) : Prop :=
  Triple I x (fun _ => I) (fun _ => I)

namespace Triple

variable {α β : Type} {P : Machine → Prop} {Q : α → Machine → Prop}
  {E : Interrupt → Machine → Prop}

theorem ret {a : α} (h : ∀ m, P m → Q a m) : Triple P (pure a) Q E := h

theorem raise {i : Interrupt} (h : ∀ m, P m → E i m) : Triple P (throw i) Q E := h

theorem fault {f : Fault} (h : ∀ m, P m → E (.fault f) m) : Triple P (fail f) Q E := h

variable [NestingLimit] in
/-- A test of the nesting level changes nothing: it passes, or fails at the limit. -/
theorem reached {d : Nat} {Q : Unit → Machine → Prop} (hQ : ∀ m, P m → Q () m)
    (hE : ∀ m, P m → E (.fault .nestingLimit) m) : Triple P (reach d) Q E := by
  intro m hm
  rw [exec_reach]
  split
  · exact hE m hm
  · exact hQ m hm

variable [NestingLimit] in
/-- A test of the nesting level keeps what held of the machine. -/
theorem reach_stays {d : Nat} (hE : ∀ m, P m → E (.fault .nestingLimit) m) :
    Triple P (reach d) (fun _ => P) E :=
  reached (fun _ h => h) hE

/-- Triples compose: the second part starts where the first gave its value. -/
theorem bind {R : α → Machine → Prop} {x : Eval α} {f : α → Eval β} {Q : β → Machine → Prop}
    (hx : Triple P x R E) (hf : ∀ a, Triple (R a) (f a) Q E) : Triple P (x >>= f) Q E := by
  intro m hm
  have h := hx m hm
  rw [exec_bind]
  rcases hxm : exec x m with ⟨r, m'⟩
  rw [hxm] at h
  cases r with
  | ok a => exact hf a m' h
  | error i => exact h

/-- A step that reads the machine: the rest satisfies the triple from the machine it read. -/
theorem read {f : Machine → Eval α} (h : ∀ m, P m → Triple (· = m) (f m) Q E) :
    Triple P (get >>= f) Q E :=
  fun m hm => h m hm m rfl

/-- A step that reads the machine, when the rest needs of it no more than `P`. -/
theorem peek {f : Machine → Eval α} (h : ∀ m, P m → Triple P (f m) Q E) :
    Triple P (get >>= f) Q E :=
  fun m hm => h m hm m hm

theorem write {g : Machine → Machine} {Q : Unit → Machine → Prop} (h : ∀ m, P m → Q () (g m)) :
    Triple P (modify g) Q E := h

/-- A change of the machine, then a value. -/
theorem write_ret {g : Machine → Machine} {b : α} (h : ∀ m, P m → Q b (g m)) :
    Triple P (modify g >>= fun _ => pure b) Q E := h

/-- What follows a fault never runs. -/
theorem fault_bind {f : Fault} {k : β → Eval α} (h : ∀ m, P m → E (.fault f) m) :
    Triple P (fail f >>= k) Q E := h

theorem update {g : Machine → α × Machine} (h : ∀ m, P m → Q (g m).1 (g m).2) :
    Triple P (modifyGet g) Q E := h

theorem ofExcept {e : Except Fault α} (hok : ∀ a, e = .ok a → ∀ m, P m → Q a m)
    (herr : ∀ f, e = .error f → ∀ m, P m → E (.fault f) m) : Triple P (Eval.ofExcept e) Q E := by
  cases e with
  | ok a => exact hok a rfl
  | error f => exact herr f rfl

theorem cond {c : Prop} [Decidable c] {x y : Eval α} (ht : c → Triple P x Q E)
    (he : ¬c → Triple P y Q E) : Triple P (if c then x else y) Q E := by
  by_cases h : c
  · rw [if_pos h]; exact ht h
  · rw [if_neg h]; exact he h

/-- A triple holds for a stronger precondition and weaker postconditions. -/
theorem conseq {P' : Machine → Prop} {Q' : α → Machine → Prop}
    {E' : Interrupt → Machine → Prop} {x : Eval α} (h : Triple P x Q E) (hP : ∀ m, P' m → P m)
    (hQ : ∀ a m, Q a m → Q' a m) (hE : ∀ i m, E i m → E' i m) : Triple P' x Q' E' := by
  intro m hm
  have := h m (hP m hm)
  rcases hxm : exec x m with ⟨r, m'⟩
  rw [hxm] at this
  cases r with
  | ok a => exact hQ a m' this
  | error i => exact hE i m' this

/-- A fact about the starting machine that the rest of the run does not need to keep. -/
theorem frame {x : Eval α} {F : Prop} (h : F → Triple P x Q E) :
    Triple (fun m => P m ∧ F) x Q E :=
  fun m hm => h hm.2 m hm.1

end Triple

namespace Keeps

variable {α β : Type} {I : Machine → Prop}

theorem ret {a : α} : Keeps I (pure a) := Triple.ret fun _ h => h

theorem raise {i : Interrupt} : Keeps I (throw i : Eval α) := Triple.raise fun _ h => h

theorem fault {f : Fault} : Keeps I (fail f : Eval α) := Triple.fault fun _ h => h

variable [NestingLimit] in
theorem reached {d : Nat} : Keeps I (reach d) := Triple.reached (fun _ h => h) fun _ h => h

theorem bind {x : Eval α} {f : α → Eval β} (hx : Keeps I x) (hf : ∀ a, Keeps I (f a)) :
    Keeps I (x >>= f) :=
  Triple.bind hx hf

theorem read {f : Machine → Eval α} (h : ∀ m, I m → Keeps I (f m)) : Keeps I (get >>= f) :=
  fun m hm => h m hm m hm

theorem write {g : Machine → Machine} (h : ∀ m, I m → I (g m)) : Keeps I (modify g) := h

theorem cond {c : Prop} [Decidable c] {x y : Eval α} (ht : Keeps I x) (he : Keeps I y) :
    Keeps I (if c then x else y) :=
  Triple.cond (fun _ => ht) fun _ => he

theorem ofExcept {e : Except Fault α} : Keeps I (Eval.ofExcept e) :=
  Triple.ofExcept (fun _ _ _ h => h) fun _ _ _ h => h

/-- A part that keeps `I`, whose interruptions are seen through the weaker `J`. -/
theorem widen {x : Eval α} {J : Machine → Prop} (h : Keeps I x) (hJ : ∀ m, I m → J m) :
    Triple I x (fun _ => I) (fun _ => J) :=
  h.conseq (fun _ h => h) (fun _ _ h => h) fun _ m h => hJ m h

/-- A part that keeps `I`, run from one machine that satisfies it. -/
theorem on {x : Eval α} {m : Machine} (h : Keeps I x) (hm : I m) :
    Triple (· = m) x (fun _ => I) (fun _ => I) := by
  rintro _ rfl
  exact h _ hm

end Keeps

end Scriptlet.Eval
