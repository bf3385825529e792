import Scriptlet.Proofs.JoinedPrograms
import Scriptlet.Proofs.Locality
import Scriptlet.Session

/-!
# Running two programs joined by a line feed

Running the text of two programs joined by a line feed is running the first and then, unless it
failed, the second (`Session.run_join`). The joined text reads as the statements of the first
program followed by those of the second (`Program.parseAt_join`), and a session runs statements
one after another in the global frame.

The statements of the second program come out of the joined text with their offsets moved, and a
function keeps the statements of its body, offsets and all, in the store. Evaluation never looks
at an offset, so runs that differ only in offsets end alike once offsets are forgotten:
`Eval.Erased` relates a machine to one with the offsets of its store forgotten, and every
evaluation function keeps it, run on a tree and on the same tree with its offsets forgotten
(`Eval.forgets`).

## Main definitions

* `Value.erase`, `Frame.erase`, `Store.erase`: values, frames and stores with the offsets in the
  functions they hold forgotten.
* `Eval.Erased`: a machine and one with the offsets of its store forgotten.

## Main statements

* `Eval.forgets`: every evaluation function ends alike on a tree and on the tree with its offsets
  forgotten.
* `Session.run_join`: running two programs joined by a line feed.
-/

set_option autoImplicit false

namespace Scriptlet

open Syntax

/-! ## Trees, values and stores with offsets forgotten -/

mutual

theorem Syntax.Expr.erase_shift (k : Nat) : ∀ e : Expr, (e.shift k).erase = e.erase
  | .ident _ | .num .. | .str _ => rfl
  | .unary _ _ e => by simp only [Expr.shift, Expr.erase, Expr.erase_shift k e]
  | .binary _ _ l r => by
    simp only [Expr.shift, Expr.erase, Expr.erase_shift k l, Expr.erase_shift k r]
  | .assign t v => by simp only [Expr.shift, Expr.erase, Expr.erase_shift k t, Expr.erase_shift k v]
  | .call c args => by
    simp only [Expr.shift, Expr.erase, Expr.erase_shift k c, Expr.eraseList_shiftList k args]
  | .func _ body => by simp only [Expr.shift, Expr.erase, Stmt.eraseList_shiftList k body]

theorem Syntax.Expr.eraseList_shiftList (k : Nat) :
    ∀ es : List Expr, Expr.eraseList (Expr.shiftList k es) = Expr.eraseList es
  | [] => rfl
  | e :: rest => by
    simp only [Expr.shiftList, Expr.eraseList, Expr.erase_shift k e,
      Expr.eraseList_shiftList k rest]

theorem Syntax.Stmt.erase_shift (k : Nat) : ∀ s : Stmt, (s.shift k).erase = s.erase
  | .expr e => by simp only [Stmt.shift, Stmt.erase, Expr.erase_shift k e]
  | .block body => by simp only [Stmt.shift, Stmt.erase, Stmt.eraseList_shiftList k body]
  | .letDecl _ none => rfl
  | .letDecl _ (some e) => by simp only [Stmt.shift, Stmt.erase, Expr.erase_shift k e]
  | .ite c th none => by simp only [Stmt.shift, Stmt.erase, Expr.erase_shift k c, Stmt.erase_shift k th]
  | .ite c th (some el) => by
    simp only [Stmt.shift, Stmt.erase, Expr.erase_shift k c, Stmt.erase_shift k th,
      Stmt.erase_shift k el]
  | .loop c b => by simp only [Stmt.shift, Stmt.erase, Expr.erase_shift k c, Stmt.erase_shift k b]

theorem Syntax.Stmt.eraseList_shiftList (k : Nat) :
    ∀ ss : List Stmt, Stmt.eraseList (Stmt.shiftList k ss) = Stmt.eraseList ss
  | [] => rfl
  | s :: rest => by
    simp only [Stmt.shiftList, Stmt.eraseList, Stmt.erase_shift k s,
      Stmt.eraseList_shiftList k rest]

end

namespace Value

/-- The value with the offsets in the body of a function forgotten. -/
def erase : Value → Value
  | .closure ps body sc => .closure ps (Stmt.eraseList body) sc
  | v => v

variable (v : Value)

@[simp] theorem type_erase : v.erase.type = v.type := by
  cases v <;> rfl

@[simp] theorem display_erase : v.erase.display = v.display := by
  cases v <;> rfl

@[simp] theorem isCallable_erase : v.erase.isCallable = v.isCallable := by
  cases v <;> rfl

@[simp] theorem displayDepth_erase : displayDepth v.erase = displayDepth v := by
  cases v <;> rfl

/-- A value that keeps no frame is no function of the language, so it has no offsets. -/
theorem erase_of_scope {v : Value} (h : v.scope? = none) : v.erase = v := by
  cases v with
  | closure => cases h
  | _ => rfl

theorem headD_map_erase (vs : List Value) :
    (vs.map Value.erase).headD .null = (vs.headD .null).erase := by
  cases vs <;> rfl

theorem getLastD_map_erase (vs : List Value) :
    (vs.map Value.erase).getLastD .null = (vs.getLastD .null).erase := by
  simp only [List.getLastD_eq_getLast?, List.getLast?_map]
  cases vs.getLast? <;> rfl

end Value

/-- A binding with the offsets of its value forgotten. -/
def Binding.erase (b : Binding) : Binding := { b with value := b.value.erase }

/-- A frame with the offsets of its values forgotten. -/
def Frame.erase (f : Frame) : Frame := ⟨f.bindings.map Binding.erase, f.parent⟩

namespace Frame

variable (f : Frame) (n : String)

@[simp] theorem parent_erase : f.erase.parent = f.parent := rfl

@[simp] theorem binds_erase : f.erase.binds n = f.binds n := by
  simp [erase, binds, Binding.erase, Function.comp_def]

@[simp] theorem bindsConstant_erase : f.erase.bindsConstant n = f.bindsConstant n := by
  simp [erase, bindsConstant, Binding.erase, Function.comp_def]

theorem get?_erase : f.erase.get? n = (f.get? n).map Binding.erase := by
  simp [erase, get?, List.find?_map, Binding.erase, Function.comp_def]

theorem set_erase (v : Value) : (f.set n v).erase = f.erase.set n v.erase := by
  simp only [erase, set, List.map_map, Frame.mk.injEq, and_true]
  refine List.map_congr_left fun b _ => ?_
  by_cases h : b.name = n <;> simp [Binding.erase, h]

end Frame

/-- A store with the offsets of its values forgotten. -/
def Store.erase (s : Store) : Store := ⟨s.frames.map Frame.erase⟩

namespace Store

variable (s : Store)

@[simp] theorem frame?_erase (j : FrameId) : s.erase.frame? j = (s.frame? j).map Frame.erase := by
  simp [erase, frame?]

theorem ext_frame? {s₁ s₂ : Store} (h : ∀ j, s₁.frame? j = s₂.frame? j) : s₁ = s₂ := by
  obtain ⟨a⟩ := s₁
  obtain ⟨b⟩ := s₂
  rw [Store.mk.injEq]
  exact Array.ext_getElem? h

/-- Forgetting offsets keeps every parent, so every chain. -/
theorem chain_erase (i : FrameId) : s.erase.chain i = s.chain i := by
  -- each chain goes on through older frames, so the induction is on the frame
  induction i using Nat.strong_induction_on with
  | _ i ih =>
    rw [chain_eq s.erase, chain_eq s, frame?_erase]
    cases s.frame? i with
    | none => rfl
    | some f =>
      simp only [Option.map_some, Frame.parent_erase]
      cases f.parent with
      | none => rfl
      | some p =>
        by_cases hp : p < i
        · simp only [if_pos hp, ih p hp]
        · simp only [if_neg hp]

theorem find_erase (i : FrameId) (n : String) : s.erase.find i n = s.find i n := by
  simp only [find, chain_erase, frame?_erase]
  congr 1
  funext j
  cases s.frame? j <;> simp

theorem has_erase (i : FrameId) (n : String) : s.erase.has i n = s.has i n := by
  simp only [has, frame?_erase]
  cases s.frame? i <;> simp

theorem constantAlong_erase (i : FrameId) (n : String) :
    s.erase.constantAlong i n = s.constantAlong i n := by
  simp only [constantAlong, chain_erase, frame?_erase]
  congr 1
  funext j
  cases s.frame? j <;> simp

theorem assignTarget_erase (i : FrameId) (n : String) :
    s.erase.assignTarget i n = s.assignTarget i n := by
  simp only [assignTarget, find_erase, constantAlong_erase]

/-- Reading a name gives the value with its offsets forgotten. -/
theorem lookup_erase (i : FrameId) (n : String) :
    s.erase.lookup i n = (s.lookup i n).map Value.erase := by
  simp only [lookup, find_erase]
  cases s.find i n with
  | none => rfl
  | some j =>
    simp only [frame?_erase]
    cases s.frame? j with
    | none => rfl
    | some f =>
      simp only [Option.map_some, Option.bind_some, Frame.get?_erase]
      cases f.get? n <;> rfl

theorem alloc_erase (p : FrameId) : s.erase.alloc p = ((s.alloc p).1.erase, (s.alloc p).2) := by
  simp [alloc, erase, Array.map_push, Frame.erase]

theorem bind_erase (i : FrameId) (n : String) (v : Value) (c : Bool) :
    s.erase.bind i n v.erase c = (s.bind i n v c).erase :=
  ext_frame? fun j => by
    simp only [frame?_bind, frame?_erase]
    split
    · cases s.frame? j with
      | none => rfl
      | some f => simp [Frame.erase, Binding.erase]
    · rfl

theorem update_erase (j : FrameId) (n : String) (v : Value) :
    s.erase.update j n v.erase = (s.update j n v).erase :=
  ext_frame? fun k => by
    simp only [frame?_update, frame?_erase]
    split
    · cases s.frame? k with
      | none => rfl
      | some f => simp [Frame.set_erase]
    · rfl

end Store

/-- Operators read numbers only, which keep no offsets. -/
theorem binaryValue_erase (op : BinOp) (a b : Value) :
    binaryValue op a.erase b.erase = binaryValue op a b := by
  simp only [binaryValue, Value.type_erase]
  cases a <;> cases b <;> rfl

theorem unaryValue_erase (sg : Sign) (a : Value) : unaryValue sg a.erase = unaryValue sg a := by
  cases a <;> rfl

/-! ## Evaluation does not look at offsets -/

namespace Eval

/-- A machine, and one whose store is the first's with offsets forgotten and which printed `pre`
less before. -/
def Erased (pre : String) (m₁ m₂ : Machine) : Prop :=
  m₂.store = m₁.store.erase ∧ m₁.printed = pre ++ m₂.printed

namespace Erased

variable {pre : String}

/-- Both runs make the same next frame. -/
theorem newFrame (p : FrameId) :
    Lockstep (Erased pre) (· = ·) (Eval.newFrame p) (Eval.newFrame p) := by
  refine Lockstep.update fun ⟨st₁, out₁⟩ ⟨st₂, out₂⟩ ⟨hs, ho⟩ => ?_
  simp only at hs ho
  subst hs
  dsimp only
  rw [Store.alloc_erase]
  exact ⟨rfl, rfl, ho⟩

theorem emit (text : String) :
    Lockstep (Erased pre) (fun _ _ => True) (Eval.emit text) (Eval.emit text) :=
  Lockstep.write fun ⟨_, _⟩ ⟨_, _⟩ ⟨hs, ho⟩ => ⟨hs, by simp only at ho ⊢; rw [ho, String.append_assoc]⟩

variable [NestingLimit]

/-- A condition is tested alike on a value and on it with offsets forgotten. -/
theorem truth (d : Nat) (v : Value) :
    Lockstep (Erased pre) (· = ·) (Eval.truth d v) (Eval.truth d v.erase) := by
  refine Lockstep.bind Lockstep.reached fun _ _ _ => ?_
  cases v with
  | bool b => exact Lockstep.ret rfl
  | _ => exact Lockstep.bind Lockstep.reached fun _ _ _ => Lockstep.fault

/-- Parameters are bound alike to arguments and to them with offsets forgotten. -/
theorem bindParams (d : Nat) (i : FrameId) :
    ∀ (ps : List String) (vs : List Value),
      Lockstep (Erased pre) (fun _ _ => True) (Eval.bindParams d i ps vs)
        (Eval.bindParams d i ps (vs.map Value.erase))
  | [], _ => Lockstep.ret trivial
  | p :: ps, vs => by
    simp only [Eval.bindParams]
    refine Lockstep.bind Lockstep.reached fun _ _ _ => Lockstep.read fun m₁ m₂ h => ?_
    have hrest : Lockstep (Erased pre) (fun _ _ => True)
        (modify (fun x => ⟨x.store.bind i p (vs.headD .null) false, x.printed⟩) >>= fun _ =>
          Eval.bindParams d i ps vs.tail)
        (modify (fun x => ⟨x.store.bind i p ((vs.map Value.erase).headD .null) false,
          x.printed⟩) >>= fun _ => Eval.bindParams d i ps (vs.map Value.erase).tail) := by
      refine Lockstep.bind (Lockstep.write ?_) fun _ _ _ => ?_
      · rintro ⟨_, _⟩ ⟨_, _⟩ ⟨hs, ho⟩
        refine ⟨?_, ho⟩
        simp only at hs ⊢
        rw [hs, Value.headD_map_erase, Store.bind_erase]
      · rw [← List.map_tail]
        exact bindParams d i ps vs.tail
    refine Lockstep.cond (by rw [h.1, Store.has_erase]) (fun _ => ?_) fun _ => hrest
    exact Lockstep.bind Lockstep.reached fun _ _ _ =>
      Lockstep.bind (Lockstep.fault : Lockstep _ (fun _ _ => True) _ _) fun _ _ _ => hrest

/-- A host function gives alike results on arguments and on them with offsets forgotten, and
prints the same. -/
theorem native (d : Nat) (action : NativeAction) (vs : List Value) :
    Lockstep (Erased pre) (fun v v' : Value => v' = v.erase) (Eval.native d action vs)
      (Eval.native d action (vs.map Value.erase)) := by
  simp only [Eval.native]
  refine Lockstep.bind Lockstep.reached fun _ _ _ => ?_
  cases action with
  | print =>
    simp only [List.map_map, Function.comp_def, Value.display_erase, Value.displayDepth_erase,
      List.isEmpty_map]
    have hprint : Lockstep (Erased pre) (fun v v' : Value => v' = v.erase)
        (Eval.emit (" ".intercalate (vs.map Value.display) ++ "\n") >>= fun _ => pure .null)
        (Eval.emit (" ".intercalate (vs.map Value.display) ++ "\n") >>= fun _ => pure .null) :=
      Lockstep.bind (emit _) fun _ _ _ => Lockstep.ret rfl
    refine Lockstep.bind Lockstep.reached fun _ _ _ =>
      Lockstep.cond Iff.rfl (fun _ => ?_) fun _ => hprint
    exact Lockstep.bind Lockstep.reached fun _ _ _ => hprint
  | returnNothing => exact Lockstep.bind Lockstep.reached fun _ _ _ => Lockstep.ret rfl
  | countArgs =>
    simp only [List.length_map]
    exact Lockstep.bind Lockstep.reached fun _ _ _ => Lockstep.ret rfl
  | firstArg =>
    exact Lockstep.bind Lockstep.reached fun _ _ _ => Lockstep.ret (Value.headD_map_erase vs)
  | lastArg =>
    exact Lockstep.bind Lockstep.reached fun _ _ _ => Lockstep.ret (Value.getLastD_map_erase vs)

/-- A declaration binds alike a value and the value with offsets forgotten. -/
theorem declare (d : Nat) (sc : FrameId) (x : String) (v : Value) :
    Lockstep (Erased pre) (fun v v' : Value => v' = v.erase)
      (do
        reach (d + 2)
        if (← get).store.has sc x then
          reach (d + 5)
          fail (.alreadyDefined x)
        modify fun m => ⟨m.store.bind sc x v false, m.printed⟩
        return v)
      (do
        reach (d + 2)
        if (← get).store.has sc x then
          reach (d + 5)
          fail (.alreadyDefined x)
        modify fun m => ⟨m.store.bind sc x v.erase false, m.printed⟩
        return v.erase) := by
  have hrest : Lockstep (Erased pre) (fun v v' : Value => v' = v.erase)
      (modify (fun m => ⟨m.store.bind sc x v false, m.printed⟩) >>= fun _ => pure v)
      (modify (fun m => ⟨m.store.bind sc x v.erase false, m.printed⟩) >>= fun _ =>
        pure v.erase) := by
    refine Lockstep.bind (Lockstep.write fun ⟨_, _⟩ ⟨_, _⟩ ⟨hs, ho⟩ => ⟨?_, ho⟩) fun _ _ _ =>
      Lockstep.ret rfl
    simp only at hs ⊢
    rw [hs, Store.bind_erase]
  refine Lockstep.bind Lockstep.reached fun _ _ _ => Lockstep.read fun m₁ m₂ h => ?_
  exact Lockstep.cond (by rw [h.1, Store.has_erase]) (fun _ => Lockstep.bind Lockstep.reached
    fun _ _ _ => Lockstep.bind (Lockstep.fault : Lockstep _ (fun _ _ => True) _ _)
      fun _ _ _ => hrest) fun _ => hrest

end Erased

variable [NestingLimit]

variable (pre : String) in
/-- With `fuel` steps, every evaluation function ends alike on a tree and on the same tree with
its offsets forgotten, from machines related by `Erased pre`: expressions, statements, branches
and loops, and the values a run starts from, with offsets forgotten on the second side. -/
structure Forgets (fuel : Nat) : Prop where
  expr : ∀ d sc e, Lockstep (Erased pre) (fun v v' : Value => v' = v.erase)
    (Eval.expr fuel d sc e) (Eval.expr fuel d sc e.erase)
  exprs : ∀ d sc es, Lockstep (Erased pre) (fun vs vs' : List Value => vs' = vs.map Value.erase)
    (Eval.exprs fuel d sc es) (Eval.exprs fuel d sc (Expr.eraseList es))
  apply : ∀ d f vs, Lockstep (Erased pre) (fun v v' : Value => v' = v.erase)
    (Eval.apply fuel d f vs) (Eval.apply fuel d f.erase (vs.map Value.erase))
  stmt : ∀ d sc s, Lockstep (Erased pre) (fun v v' : Value => v' = v.erase)
    (Eval.stmt fuel d sc s) (Eval.stmt fuel d sc s.erase)
  branch : ∀ d sc s, Lockstep (Erased pre) (fun v v' : Value => v' = v.erase)
    (Eval.branch fuel d sc s) (Eval.branch fuel d sc s.erase)
  loop : ∀ d sc c b l, Lockstep (Erased pre) (fun v v' : Value => v' = v.erase)
    (Eval.loop fuel d sc c b l) (Eval.loop fuel d sc c.erase b.erase l.erase)
  body : ∀ d sc ss l, Lockstep (Erased pre) (fun v v' : Value => v' = v.erase)
    (Eval.body fuel d sc ss l) (Eval.body fuel d sc (Stmt.eraseList ss) l.erase)

variable {pre : String}

theorem forgets_zero : Forgets pre 0 :=
  ⟨fun _ _ _ => by simp only [Eval.expr]; exact Lockstep.raise,
    fun _ _ _ => by simp only [Eval.exprs]; exact Lockstep.raise,
    fun _ _ _ => by simp only [Eval.apply]; exact Lockstep.raise,
    fun _ _ _ => by simp only [Eval.stmt]; exact Lockstep.raise,
    fun _ _ _ => by simp only [Eval.branch]; exact Lockstep.raise,
    fun _ _ _ _ _ => by simp only [Eval.loop]; exact Lockstep.raise,
    fun _ _ _ _ => by simp only [Eval.body]; exact Lockstep.raise⟩

section Succ

variable {n : Nat} (ih : Forgets pre n)
include ih

theorem forgets_expr_succ (d : Nat) (sc : FrameId) (e : Expr) :
    Lockstep (Erased pre) (fun v v' : Value => v' = v.erase)
      (Eval.expr (n + 1) d sc e) (Eval.expr (n + 1) d sc e.erase) := by
  cases e with
  | ident x =>
    simp only [Eval.expr, Expr.erase]
    refine Lockstep.bind Lockstep.reached fun _ _ _ => Lockstep.bind Lockstep.reached
      fun _ _ _ => Lockstep.read fun m₁ m₂ h => ?_
    rw [h.1, Store.lookup_erase]
    cases m₁.store.lookup sc x with
    | ok v => exact Lockstep.ret rfl
    | error f => exact Lockstep.bind Lockstep.reached fun _ _ _ => Lockstep.fault
  | num text form pos =>
    simp only [Eval.expr, Expr.erase]
    exact Lockstep.bind Lockstep.reached fun _ _ _ => Lockstep.bind Lockstep.reached
      fun _ _ _ => Lockstep.ret rfl
  | str t =>
    simp only [Eval.expr, Expr.erase]
    exact Lockstep.bind Lockstep.reached fun _ _ _ => Lockstep.bind Lockstep.reached
      fun _ _ _ => Lockstep.ret rfl
  | binary op pos l r =>
    simp only [Eval.expr, Expr.erase]
    refine Lockstep.bind Lockstep.reached fun _ _ _ => Lockstep.bind Lockstep.reached
      fun _ _ _ => Lockstep.bind (ih.expr _ _ l) fun a₁ a₂ ha =>
        Lockstep.bind (ih.expr _ _ r) fun b₁ b₂ hb =>
          Lockstep.bind Lockstep.reached fun _ _ _ => ?_
    subst ha hb
    rw [binaryValue_erase]
    refine Lockstep.bind (Lockstep.ofExcept_self (V := fun v v' : Value => v' = v.erase) fun v hv =>
      (Value.erase_of_scope (binaryValue_scope hv)).symm) fun v₁ v₂ hv => ?_
    -- a number result is checked once more, on both sides
    refine Lockstep.cond ?_ (fun _ => Lockstep.bind Lockstep.reached fun _ _ _ =>
      Lockstep.ret hv) fun _ => Lockstep.ret hv
    subst hv
    cases v₁ <;> exact Iff.rfl
  | unary sg pos x =>
    simp only [Eval.expr, Expr.erase]
    refine Lockstep.bind Lockstep.reached fun _ _ _ => Lockstep.bind Lockstep.reached
      fun _ _ _ => Lockstep.bind (ih.expr _ _ x) fun a₁ a₂ ha =>
        Lockstep.bind Lockstep.reached fun _ _ _ => ?_
    subst ha
    rw [unaryValue_erase]
    exact Lockstep.bind (Lockstep.ofExcept_self (V := fun v v' : Value => v' = v.erase) fun v hv =>
      (Value.erase_of_scope (unaryValue_scope hv)).symm) fun v₁ v₂ hv =>
        Lockstep.bind Lockstep.reached fun _ _ _ => Lockstep.ret hv
  | assign t v =>
    cases t
    case ident x =>
      simp only [Eval.expr, Expr.erase]
      refine Lockstep.bind Lockstep.reached fun _ _ _ => Lockstep.bind Lockstep.reached
        fun _ _ _ => Lockstep.bind (ih.expr _ _ v) fun v₁ v₂ hv =>
          Lockstep.bind Lockstep.reached fun _ _ _ => Lockstep.read fun m₁ m₂ h => ?_
      rw [h.1, Store.assignTarget_erase]
      cases m₁.store.assignTarget sc x with
      | ok j =>
        refine Lockstep.bind (Lockstep.write ?_) fun _ _ _ => Lockstep.ret hv
        rintro ⟨_, _⟩ ⟨_, _⟩ ⟨hs, ho⟩
        refine ⟨?_, ho⟩
        simp only at hs ⊢
        rw [hs, hv, Store.update_erase]
      | error f => exact Lockstep.bind Lockstep.reached fun _ _ _ => Lockstep.fault
    all_goals
      simp only [Eval.expr, Expr.erase, Expr.nodeName]
      exact Lockstep.bind Lockstep.reached fun _ _ _ => Lockstep.bind Lockstep.reached
        fun _ _ _ => Lockstep.bind Lockstep.reached fun _ _ _ => Lockstep.fault
  | call callee args =>
    simp only [Eval.expr, Expr.erase]
    refine Lockstep.bind Lockstep.reached fun _ _ _ => Lockstep.bind Lockstep.reached
      fun _ _ _ => Lockstep.bind (ih.expr _ _ callee) fun f₁ f₂ hf =>
        Lockstep.bind Lockstep.reached fun _ _ _ => ?_
    subst hf
    refine Lockstep.cond (by rw [Value.isCallable_erase]) (fun _ =>
      Lockstep.bind (ih.exprs _ _ args) fun vs₁ vs₂ hvs => ?_) fun _ => ?_
    · subst hvs
      exact ih.apply _ _ _
    · rw [Value.type_erase]
      exact Lockstep.fault
  | func ps body =>
    simp only [Eval.expr, Expr.erase]
    exact Lockstep.bind Lockstep.reached fun _ _ _ => Lockstep.bind Lockstep.reached
      fun _ _ _ => Lockstep.ret rfl

theorem forgets_exprs_succ (d : Nat) (sc : FrameId) (es : List Expr) :
    Lockstep (Erased pre) (fun vs vs' : List Value => vs' = vs.map Value.erase)
      (Eval.exprs (n + 1) d sc es) (Eval.exprs (n + 1) d sc (Expr.eraseList es)) := by
  cases es with
  | nil =>
    simp only [Eval.exprs, Expr.eraseList]
    exact Lockstep.ret rfl
  | cons e rest =>
    simp only [Eval.exprs, Expr.eraseList]
    refine Lockstep.bind (ih.expr _ _ e) fun v₁ v₂ hv =>
      Lockstep.bind (ih.exprs _ _ rest) fun vs₁ vs₂ hvs => Lockstep.ret ?_
    rw [hv, hvs, List.map_cons]

/-- A call runs the body of a function and the body with its offsets forgotten, in the same new
frame. -/
theorem forgets_apply_succ (d : Nat) (f : Value) (vs : List Value) :
    Lockstep (Erased pre) (fun v v' : Value => v' = v.erase)
      (Eval.apply (n + 1) d f vs) (Eval.apply (n + 1) d f.erase (vs.map Value.erase)) := by
  cases f with
  | closure ps stmts c =>
    simp only [Eval.apply, Value.erase]
    refine Lockstep.bind Lockstep.reached fun _ _ _ => Lockstep.bind Lockstep.reached
      fun _ _ _ => Lockstep.bind (Erased.newFrame c) fun fr₁ fr₂ hfr => ?_
    subst hfr
    have hbody := ih.body (d + 3) fr₁ stmts .null
    -- extra arguments are noticed alike, since both lists have the same length
    exact Lockstep.bind (Erased.bindParams (d + 2) fr₁ ps vs) fun _ _ _ =>
      Lockstep.cond (by rw [List.length_map]) (fun _ => Lockstep.bind Lockstep.reached
        fun _ _ _ => hbody) fun _ => hbody
  | native name action =>
    simp only [Eval.apply, Value.erase]
    exact Lockstep.bind Lockstep.reached fun _ _ _ => Erased.native (d + 1) action vs
  | _ =>
    simp only [Eval.apply, Value.erase]
    exact Lockstep.bind Lockstep.reached fun _ _ _ => Lockstep.fault

/-- A branch runs in a new frame, a block's statements in it directly. -/
theorem forgets_branch_succ (d : Nat) (sc : FrameId) (st : Stmt) :
    Lockstep (Erased pre) (fun v v' : Value => v' = v.erase)
      (Eval.branch (n + 1) d sc st) (Eval.branch (n + 1) d sc st.erase) := by
  -- a statement that is not a block runs one level down in the new frame
  have hstmt : ∀ s : Stmt, Lockstep (Erased pre) (fun v v' : Value => v' = v.erase)
      (reach (d + 2) >>= fun _ => Eval.newFrame sc >>= fun fr => Eval.stmt n (d + 1) fr s)
      (reach (d + 2) >>= fun _ => Eval.newFrame sc >>= fun fr => Eval.stmt n (d + 1) fr s.erase) :=
    fun s => Lockstep.bind Lockstep.reached fun _ _ _ =>
      Lockstep.bind (Erased.newFrame sc) fun fr₁ fr₂ hfr => hfr ▸ ih.stmt _ fr₁ s
  cases st with
  | block stmts =>
    simp only [Eval.branch, Stmt.erase]
    refine Lockstep.bind Lockstep.reached fun _ _ _ =>
      Lockstep.bind (Erased.newFrame sc) fun fr₁ fr₂ hfr => ?_
    subst hfr
    exact ih.body _ _ stmts .null
  | expr e =>
    simp only [Eval.branch, Stmt.erase]
    exact hstmt (.expr e)
  | letDecl x init =>
    cases init <;> simp only [Eval.branch, Stmt.erase] <;> exact hstmt (.letDecl x _)
  | ite c th el =>
    cases el <;> simp only [Eval.branch, Stmt.erase] <;> exact hstmt (.ite c th _)
  | loop c b =>
    simp only [Eval.branch, Stmt.erase]
    exact hstmt (.loop c b)

theorem forgets_stmt_succ (d : Nat) (sc : FrameId) (st : Stmt) :
    Lockstep (Erased pre) (fun v v' : Value => v' = v.erase)
      (Eval.stmt (n + 1) d sc st) (Eval.stmt (n + 1) d sc st.erase) := by
  cases st with
  | expr e =>
    simp only [Eval.stmt, Stmt.erase]
    exact ih.expr _ _ e
  | block stmts =>
    simp only [Eval.stmt, Stmt.erase]
    refine Lockstep.bind Lockstep.reached fun _ _ _ =>
      Lockstep.bind (Erased.newFrame sc) fun fr₁ fr₂ hfr => ?_
    subst hfr
    exact ih.body _ _ stmts .null
  | letDecl x init =>
    cases init with
    | some e =>
      simp only [Eval.stmt, Stmt.erase]
      exact Lockstep.bind Lockstep.reached fun _ _ _ =>
        Lockstep.bind (ih.expr _ _ e) fun v₁ v₂ hv => hv ▸ Erased.declare d sc x v₁
    | none =>
      simp only [Eval.stmt, Stmt.erase]
      exact Lockstep.bind Lockstep.reached fun _ _ _ => Erased.declare d sc x .null
  | ite c th el =>
    -- the condition is tested alike, so both take the same branch
    have hcond : ∀ {x y : Eval Value}, Lockstep (Erased pre) (fun v v' : Value => v' = v.erase) x y →
        Lockstep (Erased pre) (fun v v' : Value => v' = v.erase)
          (reach (d + 1) >>= fun _ => Eval.expr n (d + 2) sc c >>= fun cv =>
            Eval.truth (d + 2) cv >>= fun t => if t = true then Eval.branch n (d + 2) sc th else x)
          (reach (d + 1) >>= fun _ => Eval.expr n (d + 2) sc c.erase >>= fun cv =>
            Eval.truth (d + 2) cv >>= fun t =>
              if t = true then Eval.branch n (d + 2) sc th.erase else y) :=
      fun hxy => Lockstep.bind Lockstep.reached fun _ _ _ => Lockstep.bind (ih.expr _ _ c)
        fun cv₁ cv₂ hcv => Lockstep.bind (hcv ▸ Erased.truth (d + 2) cv₁) fun t₁ t₂ ht =>
          Lockstep.cond (by rw [ht]) (fun _ => ih.branch _ _ th) fun _ => hxy
    cases el with
    | some st =>
      simp only [Eval.stmt, Stmt.erase]
      exact hcond (ih.branch _ _ st)
    | none =>
      simp only [Eval.stmt, Stmt.erase]
      exact hcond (Lockstep.ret rfl)
  | loop c b =>
    simp only [Eval.stmt, Stmt.erase]
    exact Lockstep.bind Lockstep.reached fun _ _ _ => ih.loop _ _ c b .null

/-- Each round of a loop tests its condition in a new frame and runs its body as a branch. -/
theorem forgets_loop_succ (d : Nat) (sc : FrameId) (c : Expr) (b : Stmt) (l : Value) :
    Lockstep (Erased pre) (fun v v' : Value => v' = v.erase)
      (Eval.loop (n + 1) d sc c b l) (Eval.loop (n + 1) d sc c.erase b.erase l.erase) := by
  simp only [Eval.loop]
  refine Lockstep.bind Lockstep.reached fun _ _ _ =>
    Lockstep.bind (Erased.newFrame sc) fun fr₁ fr₂ hfr => ?_
  subst hfr
  refine Lockstep.bind (ih.expr _ _ c) fun cv₁ cv₂ hcv =>
    Lockstep.bind (hcv ▸ Erased.truth (d + 1) cv₁) fun t₁ t₂ ht => ?_
  subst ht
  exact Lockstep.cond Iff.rfl (fun _ => Lockstep.bind (ih.branch _ _ b)
    fun v₁ v₂ hv => hv ▸ ih.loop _ _ c b v₁) fun _ => Lockstep.ret rfl

theorem forgets_body_succ (d : Nat) (sc : FrameId) (ss : List Stmt) (l : Value) :
    Lockstep (Erased pre) (fun v v' : Value => v' = v.erase)
      (Eval.body (n + 1) d sc ss l) (Eval.body (n + 1) d sc (Stmt.eraseList ss) l.erase) := by
  -- every statement of the list runs with the same fuel, so the induction is on the list
  induction ss generalizing l with
  | nil =>
    simp only [Eval.body_succ_nil, Stmt.eraseList]
    exact Lockstep.ret rfl
  | cons st rest ihr =>
    simp only [Eval.body_succ_cons, Stmt.eraseList]
    exact Lockstep.bind (ih.stmt _ _ st) fun v₁ v₂ hv => hv ▸ ihr v₁

end Succ

theorem forgets_succ {n : Nat} (ih : Forgets pre n) : Forgets pre (n + 1) where
  expr := forgets_expr_succ ih
  exprs := forgets_exprs_succ ih
  apply := forgets_apply_succ ih
  stmt := forgets_stmt_succ ih
  branch := forgets_branch_succ ih
  loop := forgets_loop_succ ih
  body := forgets_body_succ ih

variable (pre) in
/-- Every evaluation function, with any fuel, ends alike on a tree and on the tree with its
offsets forgotten. -/
theorem forgets : ∀ fuel, Forgets pre fuel
  | 0 => forgets_zero
  | n + 1 => forgets_succ (forgets n)

/-- A list of statements that is not empty gives the value of its own last statement, whatever
value it starts from. -/
theorem body_succ_cons_last (fuel d : Nat) (sc : FrameId) (st : Stmt) (rest : List Stmt)
    (l l' : Value) : body (fuel + 1) d sc (st :: rest) l = body (fuel + 1) d sc (st :: rest) l' := by
  rw [body_succ_cons, body_succ_cons]

omit [NestingLimit] in
/-- Two runs that each end alike with a third, with their offsets forgotten, the first having
printed `pre` more before it, end alike with each other. -/
theorem Matches.erased_pair {pre : String} {o₁ o₂ o : Except Interrupt Value × Machine}
    (h₁ : Matches (Erased pre) (fun v v' : Value => v' = v.erase) o₁ o)
    (h₂ : Matches (Erased "") (fun v v' : Value => v' = v.erase) o₂ o) :
    o₁.2.store.erase = o₂.2.store.erase ∧ o₁.2.printed = pre ++ o₂.2.printed ∧
      match o₁.1, o₂.1 with
      | .ok v₁, .ok v₂ => v₁.erase = v₂.erase
      | .error e₁, .error e₂ => e₁ = e₂
      | _, _ => False := by
  obtain ⟨r₁, m₁⟩ := o₁
  obtain ⟨r₂, m₂⟩ := o₂
  obtain ⟨r, m⟩ := o
  -- both runs end on the same side as the third, so on the same side as each other
  cases r₁ <;> cases r₂ <;> cases r <;> simp only [Matches] at h₁ h₂ ⊢
  · obtain ⟨rfl, hs₁, ho₁⟩ := h₁
    obtain ⟨rfl, hs₂, ho₂⟩ := h₂
    exact ⟨hs₁.symm.trans hs₂, by rw [ho₁, ho₂, String.empty_append], rfl⟩
  · obtain ⟨hv₁, hs₁, ho₁⟩ := h₁
    obtain ⟨hv₂, hs₂, ho₂⟩ := h₂
    exact ⟨hs₁.symm.trans hs₂, by rw [ho₁, ho₂, String.empty_append], hv₁.symm.trans hv₂⟩

end Eval

namespace Session

open Eval

/-- The result of a run, from the outcome of its program. -/
def resultOf : Except Interrupt Value → Except Failure Value
  | .ok v => .ok v
  | .error (.fault f) => .error (.fault f)
  | .error .outOfFuel => .error .outOfFuel

/-- The report and the session that a run ends with, from the outcome of its program. -/
def conclude (o : Except Interrupt Value × Machine) : Report × Session :=
  (⟨resultOf o.1, o.2.printed⟩, ⟨o.2.store⟩)

variable [NestingLimit]

/-- A run of a text that reads as a program runs the program's statements in the global frame,
from the session's store and with nothing printed yet. -/
theorem run_of_parseAt (s : Session) {src : String} {p : Program}
    (h : Program.parseAt (runLevel + 1) src = .ok p) :
    s.run src = conclude (exec (body evalFuel (runLevel + 3) globalFrame p .null) ⟨s.store, ""⟩) := by
  simp only [run, h]
  rfl

/-- A run of a text that does not read fails with the reading error, prints nothing and leaves
the session as it was. -/
theorem run_of_parseAt_error (s : Session) {src : String} {e : ParseError}
    (h : Program.parseAt (runLevel + 1) src = .error e) :
    s.run src = (⟨.error (.parse e), ""⟩, s) := by
  simp only [run, h]

omit [NestingLimit] in
theorem evalFuel_eq_succ : evalFuel = (10 ^ 15 - 1) + 1 := rfl

/-- Running `src₁` and `src₂` joined by a line feed from `s` ends as running `src₁` and then,
unless it failed, `src₂`, whose program is `p₂`: with the same text printed, the same frames and
bindings (the offsets that functions keep in their bodies forgotten), the same failure, and
otherwise the value of the second program, or of the first when the second has no statements. -/
def RunsInSequence (s : Session) (src₁ src₂ : String) (p₂ : Program) : Prop :=
  match (s.run src₁).1.result with
  | .error f =>
    (s.run (src₁ ++ "\n" ++ src₂)).1.result = .error f ∧
      (s.run (src₁ ++ "\n" ++ src₂)).1.printed = (s.run src₁).1.printed ∧
      (s.run (src₁ ++ "\n" ++ src₂)).2.store.erase = (s.run src₁).2.store.erase
  | .ok v₁ =>
    (s.run (src₁ ++ "\n" ++ src₂)).1.printed =
        (s.run src₁).1.printed ++ ((s.run src₁).2.run src₂).1.printed ∧
      (s.run (src₁ ++ "\n" ++ src₂)).2.store.erase = ((s.run src₁).2.run src₂).2.store.erase ∧
      match ((s.run src₁).2.run src₂).1.result with
      | .error f => (s.run (src₁ ++ "\n" ++ src₂)).1.result = .error f
      | .ok v₂ => ∃ v, (s.run (src₁ ++ "\n" ++ src₂)).1.result = .ok v ∧
          v.erase = (if p₂.isEmpty then v₁ else v₂).erase

/-- **Running two programs joined by a line feed.** When each of two texts reads as a program at
the level a run reads it, running them joined by a line feed ends as running the first and then,
unless it failed, the second. The limit must leave room for the line feed between them: below
it, two empty texts each read, but their join does not. -/
theorem run_join (hlimit : runLevel + 11 ≤ nestingLimit) (s : Session) (src₁ src₂ : String)
    {p₁ p₂ : Program} (h₁ : Program.parseAt (runLevel + 1) src₁ = .ok p₁)
    (h₂ : Program.parseAt (runLevel + 1) src₂ = .ok p₂) : RunsInSequence s src₁ src₂ p₂ := by
  have hjoin := Program.parseAt_join hlimit h₁ h₂
  unfold RunsInSequence
  rw [run_of_parseAt s h₁, run_of_parseAt s hjoin, evalFuel_eq_succ, body_succ_append, exec_bind]
  -- the first program runs alone as it runs at the head of the joined one
  rcases hfirst : exec (body (10 ^ 15 - 1 + 1) (runLevel + 3) globalFrame p₁ .null)
    ⟨s.store, ""⟩ with ⟨r₁, m₁⟩
  cases r₁ with
  | error e =>
    -- the first program failed, and the joined one stops where it did
    cases e <;> exact ⟨rfl, rfl, rfl⟩
  | ok v₁ =>
    simp only [conclude, resultOf]
    rw [run_of_parseAt _ h₂, evalFuel_eq_succ]
    simp only [conclude]
    cases p₂ with
    | nil =>
      simp only [Program.shift, Stmt.shiftList, body_succ_nil, exec_pure, resultOf]
      exact ⟨String.append_empty.symm, trivial, v₁, rfl, rfl⟩
    | cons st rest =>
      -- both runs of the second program end alike with its run with offsets forgotten, from the
      -- store after the first program with offsets forgotten
      have hE₁ : Erased m₁.printed m₁ ⟨m₁.store.erase, ""⟩ := ⟨rfl, String.append_empty.symm⟩
      have hE₂ : Erased "" ⟨m₁.store, ""⟩ ⟨m₁.store.erase, ""⟩ := ⟨rfl, rfl⟩
      have hsame : Stmt.eraseList (Program.shift (src₁.length + 1) (st :: rest)) =
          Stmt.eraseList (st :: rest) := Stmt.eraseList_shiftList _ _
      have hA := (forgets m₁.printed (10 ^ 15 - 1 + 1)).body (runLevel + 3) globalFrame
        (Program.shift (src₁.length + 1) (st :: rest)) v₁ _ _ hE₁
      have hB := (forgets "" (10 ^ 15 - 1 + 1)).body (runLevel + 3) globalFrame (st :: rest) .null
        _ _ hE₂
      rw [hsame] at hA
      rw [show Stmt.eraseList (st :: rest) = Stmt.erase st :: Stmt.eraseList rest from rfl,
        body_succ_cons_last _ _ _ _ _ v₁.erase Value.null.erase] at hA
      rw [show Stmt.eraseList (st :: rest) = Stmt.erase st :: Stmt.eraseList rest from rfl] at hB
      obtain ⟨hstore, hprinted, hresult⟩ := Matches.erased_pair hA hB
      refine ⟨hprinted, hstore, ?_⟩
      revert hresult
      rcases exec (body (10 ^ 15 - 1 + 1) (runLevel + 3) globalFrame
        (Program.shift (src₁.length + 1) (st :: rest)) v₁) m₁ with ⟨r, m⟩
      rcases exec (body (10 ^ 15 - 1 + 1) (runLevel + 3) globalFrame (st :: rest) .null)
        ⟨m₁.store, ""⟩ with ⟨r₂, m₂⟩
      cases r <;> cases r₂
      · rintro rfl
        rename_i e
        cases e <;> rfl
      · exact False.elim
      · exact False.elim
      · intro hv
        exact ⟨_, rfl, by simpa using hv⟩

end Session
end Scriptlet

namespace Scriptlet

open Syntax

namespace Session

open Eval

/-- The host function `print`, read, then `null`, read. -/
theorem run_join_read_then_read :
    runLevel + 11 ≤ nestingLimit ∧
      Program.parseAt (runLevel + 1) "print" = .ok [.expr (.ident "print")] ∧
      Program.parseAt (runLevel + 1) "null" = .ok [.expr (.ident "null")] ∧
      RunsInSequence (Session.start true) "print" "null" [.expr (.ident "null")] := by
  have hlimit : runLevel + 11 ≤ nestingLimit := by decide
  have h₁ : Program.parseAt (runLevel + 1) "print" = .ok [.expr (.ident "print")] := by
    with_unfolding_all rfl
  have h₂ : Program.parseAt (runLevel + 1) "null" = .ok [.expr (.ident "null")] := by
    with_unfolding_all rfl
  exact ⟨hlimit, h₁, h₂, run_join hlimit (Session.start true) "print" "null" h₁ h₂⟩

end Session

end Scriptlet
