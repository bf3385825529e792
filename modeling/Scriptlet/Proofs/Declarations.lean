import Scriptlet.Proofs.Triples
import Scriptlet.Proofs.Frames
import Scriptlet.Session

/-!
# Bindings stay where they are made

A `let` binds its name in the frame it is evaluated in, and nothing else adds a binding to a
frame that existed before: a block, a branch, each round of a loop and each test of its
condition, and the body of a function all run in frames made for them, and the parser puts a
declaration nowhere but among statements. Nothing removes a binding or moves it; assignment
changes a value in place, and never the value of a constant.

What an evaluation does to the frames that existed when it started is `Store.Grows`: every such
frame keeps its parent and its bindings in order with their names and constant marks, followed by
the bindings made in it, and every constant binding keeps its place and value.

## Main statements

* `Eval.confined`: every evaluation function, with any fuel, grows the store so; only a statement
  adds to its own frame, the binding it declares.
* `Eval.grows_stmt`, `Eval.grows_body`: what a statement, and statements in a row, add to their
  frame: the declarations that completed (`Eval.declaredBy`).
* `Session.globalLayout_replay`: after any steps of a session, the global frame holds the
  constants it starts with, then the bindings each step declared, in order.
* `Eval.bindings_stay_local`: the statement for every node and every session.
-/

set_option autoImplicit false

namespace Scriptlet

open Syntax

/-! ## Layouts of frames -/

/-- The layout of a frame: the names it binds, oldest first, each with its constant mark. -/
def Frame.layout (f : Frame) : List (String × Bool) :=
  f.bindings.map fun b => (b.name, b.constant)

/-- The bindings a statement makes in the frame it runs in: a declaration binds its name, not as a
constant; every other statement binds nothing there. -/
def Syntax.Stmt.declares : Stmt → List (String × Bool)
  | .letDecl n _ => [(n, false)]
  | _ => []

namespace Frame

/-- Frame `f'` is frame `f` after assignments to it and after the bindings laid out as `added`
were made in it: it has the same parent, the bindings of `f` first with their names and constant
marks, then `added`; and every constant binding of `f` is where it was, with its value. -/
structure Extends (f f' : Frame) (added : List (String × Bool)) : Prop where
  parent : f'.parent = f.parent
  layout : f'.layout = f.layout ++ added
  constants : ∀ (p : Nat) (b : Binding), f.bindings[p]? = some b → b.constant = true →
    f'.bindings[p]? = some b

theorem Extends.refl (f : Frame) : f.Extends f [] :=
  ⟨rfl, (List.append_nil _).symm, fun _ _ h _ => h⟩

theorem Extends.trans {f f' f'' : Frame} {A B : List (String × Bool)} (h₁ : f.Extends f' A)
    (h₂ : f'.Extends f'' B) : f.Extends f'' (A ++ B) :=
  ⟨h₂.parent.trans h₁.parent, by rw [h₂.layout, h₁.layout, List.append_assoc],
    fun p b hb hc => h₂.constants p b (h₁.constants p b hb hc) hc⟩

/-- A binding made at the end of a frame extends it by its name and mark. -/
theorem Extends.push (f : Frame) (n : String) (v : Value) (c : Bool) :
    f.Extends { f with bindings := f.bindings ++ [⟨n, v, c⟩] } [(n, c)] where
  parent := rfl
  layout := by simp [Frame.layout]
  constants p b hb _ := by
    rw [List.getElem?_append_left (List.getElem?_eq_some_iff.1 hb).1]
    exact hb

/-- Assigning a name that the frame does not bind as a constant keeps its layout and its
constants. -/
theorem Extends.set {f : Frame} {n : String} (hn : f.bindsConstant n = false) (v : Value) :
    f.Extends (f.set n v) [] where
  parent := rfl
  layout := by
    simp only [Frame.layout, Frame.set, List.map_map, List.append_nil]
    refine List.map_congr_left fun b _ => ?_
    by_cases h : b.name = n <;> simp [h]
  constants p b hb hc := by
    -- a constant binding does not bear the assigned name
    have hne : b.name ≠ n := by
      intro he
      have : f.bindsConstant n = true := by
        simp only [bindsConstant, List.any_eq_true]
        exact ⟨b, List.mem_of_getElem? hb, by simp [he, hc]⟩
      simp_all
    simp [Frame.set, hb, hne]

/-- Whether a frame binds a name depends only on its layout. -/
theorem binds_eq_of_layout {f g : Frame} (h : f.layout = g.layout) (n : String) :
    f.binds n = g.binds n := by
  have := congrArg (fun l : List (String × Bool) => l.any (·.1 == n)) h
  simpa [Frame.layout, Frame.binds, List.any_map, Function.comp_def] using this

end Frame

/-! ## Stores that grow -/

namespace Store

/-- No bindings added anywhere. -/
def noneAdded : FrameId → List (String × Bool) := fun _ => []

/-- The additions `a`, and `A` more in frame `i`. -/
def addTo (a : FrameId → List (String × Bool)) (i : FrameId) (A : List (String × Bool)) :
    FrameId → List (String × Bool) :=
  fun j => if j = i then a j ++ A else a j

@[simp] theorem addTo_nil (a : FrameId → List (String × Bool)) (i : FrameId) : addTo a i [] = a := by
  funext j
  simp [addTo]

theorem addTo_addTo (a : FrameId → List (String × Bool)) (i : FrameId) (A B : List (String × Bool)) :
    addTo (addTo a i A) i B = addTo a i (A ++ B) := by
  funext j
  by_cases h : j = i <;> simp [addTo, h]

/-- Store `s'` is store `s` grown, with the bindings laid out as `added j` made in each frame `j`
of `s`: no frame is lost, and each frame of `s` extends as `Frame.Extends` says. -/
structure Grows (s s' : Store) (added : FrameId → List (String × Bool)) : Prop where
  size_le : s.frames.size ≤ s'.frames.size
  frame : ∀ j f, s.frame? j = some f → ∃ f', s'.frame? j = some f' ∧ f.Extends f' (added j)

variable {s s' s'' : Store} {a b : FrameId → List (String × Bool)}

theorem Grows.refl (s : Store) : s.Grows s noneAdded :=
  ⟨Nat.le_refl _, fun _ f hf => ⟨f, hf, .refl f⟩⟩

theorem Grows.trans (h₁ : s.Grows s' a) (h₂ : s'.Grows s'' b) : s.Grows s'' fun j => a j ++ b j where
  size_le := Nat.le_trans h₁.size_le h₂.size_le
  frame j f hf := by
    obtain ⟨f', hf', he⟩ := h₁.frame j f hf
    obtain ⟨f'', hf'', he'⟩ := h₂.frame j f' hf'
    exact ⟨f'', hf'', he.trans he'⟩

/-- Only the additions to frames of `s` matter. -/
theorem Grows.congr (h : s.Grows s' a) (hab : ∀ j, j < s.frames.size → a j = b j) :
    s.Grows s' b where
  size_le := h.size_le
  frame j f hf := by
    rw [← hab j ((frame?_isSome_iff s j).1 (by simp [hf]))]
    exact h.frame j f hf

/-- A frame of a grown store is laid out as it was, then what was added to it. -/
theorem Grows.layout (h : s.Grows s' a) {j : FrameId} {f : Frame} (hf : s.frame? j = some f) :
    ∃ f', s'.frame? j = some f' ∧ f'.layout = f.layout ++ a j :=
  let ⟨f', hf', he⟩ := h.frame j f hf
  ⟨f', hf', he.layout⟩

/-- A frame to which nothing was added binds the names it bound. -/
theorem Grows.has_eq (h : s.Grows s' noneAdded) {i : FrameId} (hi : i < s.frames.size)
    (n : String) : s'.has i n = s.has i n := by
  obtain ⟨f, hf⟩ := Option.isSome_iff_exists.1 ((frame?_isSome_iff s i).2 hi)
  obtain ⟨f', hf', hl⟩ := h.layout hf
  simp only [has, hf, hf', Option.any_some]
  exact Frame.binds_eq_of_layout (by simpa [noneAdded] using hl) n

/-- Growth by additions to one frame, then more additions to it. -/
theorem Grows.trans_addTo {i : FrameId} {A B : List (String × Bool)}
    (h₁ : s.Grows s' (addTo noneAdded i A)) (h₂ : s'.Grows s'' (addTo noneAdded i B)) :
    s.Grows s'' (addTo noneAdded i (A ++ B)) :=
  (h₁.trans h₂).congr fun j _ => by by_cases hj : j = i <;> simp [addTo, noneAdded, hj]

theorem grows_alloc (p : FrameId) : s.Grows (s.alloc p).1 noneAdded where
  size_le := by simp
  frame j f hf := by
    have hj : j ≠ s.frames.size := by
      rintro rfl
      simp [(frame?_eq_none_iff s _).2 (Nat.le_refl _)] at hf
    exact ⟨f, by rw [frame?_alloc, if_neg hj, hf], .refl f⟩

theorem grows_bind (i : FrameId) (n : String) (v : Value) (c : Bool) :
    s.Grows (s.bind i n v c) (addTo noneAdded i [(n, c)]) where
  size_le := by simp
  frame j f hf := by
    by_cases hij : i = j
    · subst hij
      refine ⟨_, by rw [frame?_bind, if_pos rfl, hf]; rfl, ?_⟩
      simpa [addTo, noneAdded] using Frame.Extends.push f n v c
    · refine ⟨f, by rw [frame?_bind, if_neg hij, hf], ?_⟩
      simpa [addTo, noneAdded, Ne.symm hij] using Frame.Extends.refl f

/-- Assignment accepts a target only on the chain, where no frame binds the name as a constant. -/
theorem assignTarget_eq_ok {i j : FrameId} {n : String} (h : s.assignTarget i n = .ok j) :
    j ∈ s.chain i ∧ s.constantAlong i n = false := by
  unfold assignTarget at h
  cases hf : s.find i n with
  | none => simp [hf] at h
  | some j' =>
    have hmem : j' ∈ s.chain i := List.mem_of_find?_eq_some hf
    cases hc : s.constantAlong i n <;> simp_all

/-- Assigning through a target that assignment accepts grows nothing: the frame changed binds
the name, and not as a constant. -/
theorem grows_update {i j : FrameId} {n : String} (h : s.assignTarget i n = .ok j) (v : Value) :
    s.Grows (s.update j n v) noneAdded where
  size_le := by simp
  frame k f hf := by
    by_cases hjk : j = k
    · subst hjk
      refine ⟨_, by rw [frame?_update, if_pos rfl, hf]; rfl, ?_⟩
      show f.Extends (f.set n v) []
      refine Frame.Extends.set ?_ v
      -- the target lies on the chain, none of whose frames binds the name as a constant
      obtain ⟨hmem, hconst⟩ := assignTarget_eq_ok h
      simp only [constantAlong, List.any_eq_false] at hconst
      simpa [hf] using hconst j hmem
    · exact ⟨f, by rw [frame?_update, if_neg hjk, hf], .refl f⟩

end Store

/-! ## Evaluation grows the store -/

namespace Eval

open Store

/-- The machine `m` grew from `m₀`, with the bindings `added` made in the frames of `m₀`. -/
def Grown (m₀ : Machine) (added : FrameId → List (String × Bool)) (m : Machine) : Prop :=
  m₀.store.Grows m.store added

variable {m₀ : Machine} {a : FrameId → List (String × Bool)}

theorem Grown.start (m : Machine) : Grown m noneAdded m := Grows.refl m.store

/-- A step of the store that adds nothing keeps the growth so far. -/
theorem Grown.step {m : Machine} {s' : Store} (h : Grown m₀ a m) (hs : m.store.Grows s' noneAdded)
    (out : String) : Grown m₀ a ⟨s', out⟩ :=
  (h.trans hs).congr fun j _ => by simp [noneAdded]

theorem Grown.bind {m : Machine} (h : Grown m₀ a m) (i : FrameId) (n : String) (v : Value)
    (c : Bool) (out : String) : Grown m₀ (addTo a i [(n, c)]) ⟨m.store.bind i n v c, out⟩ :=
  (h.trans (grows_bind i n v c)).congr fun j _ => by
    by_cases hj : j = i <;> simp [addTo, noneAdded, hj]

/-- Additions to a frame made after `m₀` do not count. -/
theorem Grown.forget {m : Machine} {i : FrameId} {A : List (String × Bool)}
    (h : Grown m₀ (addTo a i A) m) (hi : m₀.store.frames.size ≤ i) : Grown m₀ a m :=
  Grows.congr h fun j hj => by simp [addTo, show j ≠ i by omega]

/-- A new frame comes after every frame of `m₀`. -/
theorem triple_newFrame {E : Interrupt → Machine → Prop} (p : FrameId) :
    Triple (Grown m₀ a) (newFrame p)
      (fun fr m => Grown m₀ a m ∧ m₀.store.frames.size ≤ fr) E := by
  rintro ⟨st, out⟩ h
  exact ⟨h.step (grows_alloc p) out, by simpa using h.size_le⟩

/-- A new frame, made from a known machine. -/
theorem triple_newFrame_at {E : Interrupt → Machine → Prop} (m : Machine) (p : FrameId) :
    Triple (· = m) (newFrame p)
      (fun fr m' => fr = m.store.frames.size ∧ m' = ⟨(m.store.alloc p).1, m.printed⟩) E := by
  rintro _ rfl
  exact ⟨rfl, rfl⟩

variable [NestingLimit]

/-- A condition's truth is tested without changing the machine. -/
theorem keeps_truth {I : Machine → Prop} (d : Nat) (v : Value) : Keeps I (truth d v) := by
  unfold truth
  refine Keeps.bind Keeps.reached fun _ => ?_
  cases v with
  | bool b => exact Keeps.ret
  | _ => exact Keeps.bind Keeps.reached fun _ => Keeps.fault

/-- A host function changes only the printed text. -/
theorem keeps_native {I : Machine → Prop} (hI : ∀ m out, I m → I ⟨m.store, out⟩) (d : Nat)
    (action : NativeAction) (vs : List Value) : Keeps I (native d action vs) := by
  have hemit : ∀ text : String, Keeps I (emit text >>= fun _ => pure Value.null) :=
    fun _ => Keeps.bind (Keeps.write fun ⟨_, _⟩ h => hI _ _ h) fun _ => Keeps.ret
  simp only [native]
  refine Keeps.bind Keeps.reached fun _ => ?_
  cases action with
  | print =>
    exact Keeps.bind Keeps.reached fun _ =>
      Keeps.cond (Keeps.bind Keeps.reached fun _ => hemit _) (hemit _)
  | _ => exact Keeps.bind Keeps.reached fun _ => Keeps.ret

/-- Parameters bound in a frame made after `m₀` add nothing to the frames of `m₀`. -/
theorem keeps_bindParams (d : Nat) {i : FrameId} (hi : m₀.store.frames.size ≤ i) :
    ∀ (ps : List String) (vs : List Value), Keeps (Grown m₀ a) (bindParams d i ps vs)
  | [], _ => Keeps.ret
  | p :: ps, vs => by
    simp only [bindParams]
    have hrest : Keeps (Grown m₀ a) (modify (fun m => ⟨m.store.bind i p (vs.headD .null) false,
        m.printed⟩) >>= fun _ => bindParams d i ps vs.tail) :=
      Keeps.bind (Keeps.write fun _ h => (h.bind i p _ false _).forget hi) fun _ =>
        keeps_bindParams d hi ps _
    exact Keeps.bind Keeps.reached fun _ => Keeps.read fun _ _ =>
      Keeps.cond (Keeps.bind Keeps.reached fun _ => Keeps.bind Keeps.fault fun _ => hrest) hrest

/-- The end of a declaration binds the name in its frame, unless the frame binds it already. -/
theorem triple_declare (d : Nat) (sc : FrameId) (x : String) (v : Value) :
    Triple (Grown m₀ a)
      (do
        reach (d + 2)
        if (← get).store.has sc x then
          reach (d + 5)
          fail (.alreadyDefined x)
        modify fun m => ⟨m.store.bind sc x v false, m.printed⟩
        return v)
      (fun _ => Grown m₀ (addTo a sc [(x, false)])) (fun _ => Grown m₀ a) := by
  have hrest : Triple (Grown m₀ a)
      (modify (fun m => ⟨m.store.bind sc x v false, m.printed⟩) >>= fun _ => pure v)
      (fun _ => Grown m₀ (addTo a sc [(x, false)])) (fun _ => Grown m₀ a) :=
    Triple.write_ret fun _ h => h.bind sc x v false _
  refine Triple.bind Keeps.reached fun _ => Triple.peek fun _ _ => ?_
  exact Triple.cond (fun _ => Triple.bind Keeps.reached fun _ => Triple.fault_bind fun _ h => h)
    fun _ => hrest

/-! ## Every evaluation function, confined -/

/-- With `fuel` steps left, no evaluation function adds a binding to a frame that existed when it
started, except a statement, which adds to its own frame the binding it declares, and statements
in a row, which add to their frame. -/
structure Confined (fuel : Nat) : Prop where
  expr : ∀ d sc e m₀ a, Keeps (Grown m₀ a) (Eval.expr fuel d sc e)
  exprs : ∀ d sc es m₀ a, Keeps (Grown m₀ a) (Eval.exprs fuel d sc es)
  apply : ∀ d f vs m₀ a, Keeps (Grown m₀ a) (Eval.apply fuel d f vs)
  stmt : ∀ d sc st m₀ a, Triple (Grown m₀ a) (Eval.stmt fuel d sc st)
    (fun _ => Grown m₀ (addTo a sc st.declares)) (fun _ => Grown m₀ a)
  branch : ∀ d sc st m₀ a, Keeps (Grown m₀ a) (Eval.branch fuel d sc st)
  loop : ∀ d sc c b l m₀ a, Keeps (Grown m₀ a) (Eval.loop fuel d sc c b l)
  body : ∀ d sc sts l m₀ a, Keeps (fun m => ∃ A, Grown m₀ (addTo a sc A) m)
    (Eval.body fuel d sc sts l)

theorem confined_zero : Confined 0 where
  expr _ _ _ _ _ := by simp only [Eval.expr]; exact Keeps.raise
  exprs _ _ _ _ _ := by simp only [Eval.exprs]; exact Keeps.raise
  apply _ _ _ _ _ := by simp only [Eval.apply]; exact Keeps.raise
  stmt _ _ _ _ _ := by simp only [Eval.stmt]; exact Triple.raise fun _ h => h
  branch _ _ _ _ _ := by simp only [Eval.branch]; exact Keeps.raise
  loop _ _ _ _ _ _ _ := by simp only [Eval.loop]; exact Keeps.raise
  body _ _ _ _ _ _ := by simp only [Eval.body]; exact Keeps.raise

/-- Statements run in a frame made after `m₀` add nothing to the frames of `m₀`. -/
theorem Confined.body_fresh {n : Nat} (ih : Confined n) (d : Nat) {fr : FrameId}
    (hfr : m₀.store.frames.size ≤ fr) (sts : List Stmt) (l : Value) :
    Keeps (Grown m₀ a) (Eval.body n d fr sts l) :=
  Triple.conseq (ih.body d fr sts l m₀ a) (fun m h => ⟨[], by simpa using h⟩)
    (fun _ _ ⟨_, h⟩ => h.forget hfr) fun _ _ ⟨_, h⟩ => h.forget hfr

section Succ

variable {n : Nat} (ih : Confined n)
include ih

theorem confined_expr_succ (d : Nat) (sc : FrameId) (e : Expr) :
    Keeps (Grown m₀ a) (Eval.expr (n + 1) d sc e) := by
  cases e with
  | ident x =>
    simp only [Eval.expr]
    refine Keeps.bind Keeps.reached fun _ => Keeps.bind Keeps.reached fun _ =>
      Keeps.read fun m _ => ?_
    cases m.store.lookup sc x with
    | ok v => exact Keeps.ret
    | error f => exact Keeps.bind Keeps.reached fun _ => Keeps.fault
  | num text form pos =>
    simp only [Eval.expr]
    exact Keeps.bind Keeps.reached fun _ => Keeps.bind Keeps.reached fun _ => Keeps.ret
  | str t =>
    simp only [Eval.expr]
    exact Keeps.bind Keeps.reached fun _ => Keeps.bind Keeps.reached fun _ => Keeps.ret
  | binary op pos l r =>
    simp only [Eval.expr]
    exact Keeps.bind Keeps.reached fun _ => Keeps.bind Keeps.reached fun _ =>
      Keeps.bind (ih.expr _ _ l _ _) fun _ => Keeps.bind (ih.expr _ _ r _ _) fun _ =>
        Keeps.bind Keeps.reached fun _ => Keeps.bind Keeps.ofExcept fun _ =>
          Keeps.cond (Keeps.bind Keeps.reached fun _ => Keeps.ret) Keeps.ret
  | unary sg pos x =>
    simp only [Eval.expr]
    exact Keeps.bind Keeps.reached fun _ => Keeps.bind Keeps.reached fun _ =>
      Keeps.bind (ih.expr _ _ x _ _) fun _ => Keeps.bind Keeps.reached fun _ =>
        Keeps.bind Keeps.ofExcept fun _ => Keeps.bind Keeps.reached fun _ => Keeps.ret
  | assign t v =>
    cases t
    case ident x =>
      simp only [Eval.expr]
      refine Keeps.bind Keeps.reached fun _ => Keeps.bind Keeps.reached fun _ =>
        Keeps.bind (ih.expr _ _ v _ _) fun _ => Keeps.bind Keeps.reached fun _ =>
          Triple.read fun m hm => ?_
      -- the only change is an assignment, which the target's check allows
      cases hx : m.store.assignTarget sc x with
      | ok j =>
        exact Triple.write_ret fun _ hm' => hm' ▸ hm.step (grows_update hx _) _
      | error f => exact Keeps.on (Keeps.bind Keeps.reached fun _ => Keeps.fault) hm
    all_goals
      simp only [Eval.expr]
      exact Keeps.bind Keeps.reached fun _ => Keeps.bind Keeps.reached fun _ =>
        Keeps.bind Keeps.reached fun _ => Keeps.fault
  | call callee args =>
    simp only [Eval.expr]
    exact Keeps.bind Keeps.reached fun _ => Keeps.bind Keeps.reached fun _ =>
      Keeps.bind (ih.expr _ _ callee _ _) fun _ => Keeps.bind Keeps.reached fun _ =>
        Keeps.cond (Keeps.bind (ih.exprs _ _ args _ _) fun _ => ih.apply _ _ _ _ _) Keeps.fault
  | func ps body =>
    simp only [Eval.expr]
    exact Keeps.bind Keeps.reached fun _ => Keeps.bind Keeps.reached fun _ => Keeps.ret

theorem confined_exprs_succ (d : Nat) (sc : FrameId) (es : List Expr) :
    Keeps (Grown m₀ a) (Eval.exprs (n + 1) d sc es) := by
  cases es with
  | nil =>
    simp only [Eval.exprs]
    exact Keeps.ret
  | cons e rest =>
    simp only [Eval.exprs]
    exact Keeps.bind (ih.expr _ _ e _ _) fun _ => Keeps.bind (ih.exprs _ _ rest _ _) fun _ =>
      Keeps.ret

/-- A function runs in a new frame, made after every frame of `m₀`. -/
theorem confined_apply_succ (d : Nat) (f : Value) (vs : List Value) :
    Keeps (Grown m₀ a) (Eval.apply (n + 1) d f vs) := by
  cases f with
  | closure ps stmts c =>
    simp only [Eval.apply]
    refine Keeps.bind Keeps.reached fun _ => Keeps.bind Keeps.reached fun _ =>
      Triple.bind (triple_newFrame c) fun fr => Triple.frame fun hfr => ?_
    exact Keeps.bind (keeps_bindParams _ hfr ps vs) fun _ =>
      Keeps.cond (Keeps.bind Keeps.reached fun _ => ih.body_fresh _ hfr stmts _)
        (ih.body_fresh _ hfr stmts _)
  | native name action =>
    simp only [Eval.apply]
    exact Keeps.bind Keeps.reached fun _ => keeps_native (fun _ _ h => h) _ action vs
  | _ =>
    simp only [Eval.apply]
    exact Keeps.bind Keeps.reached fun _ => Keeps.fault

/-- A declaration adds its binding to its own frame; no other statement adds to it. -/
theorem confined_stmt_succ (d : Nat) (sc : FrameId) (st : Stmt) :
    Triple (Grown m₀ a) (Eval.stmt (n + 1) d sc st)
      (fun _ => Grown m₀ (addTo a sc st.declares)) (fun _ => Grown m₀ a) := by
  cases st with
  | expr e =>
    simp only [Eval.stmt, Stmt.declares, addTo_nil]
    exact ih.expr _ _ e _ _
  | block stmts =>
    simp only [Eval.stmt, Stmt.declares, addTo_nil]
    exact Keeps.bind Keeps.reached fun _ =>
      Triple.bind (triple_newFrame sc) fun fr => Triple.frame fun hfr =>
        ih.body_fresh _ hfr stmts _
  | letDecl x init =>
    cases init with
    | some e =>
      simp only [Eval.stmt, Stmt.declares]
      exact Triple.bind Keeps.reached fun _ =>
        Triple.bind (ih.expr _ _ e _ _) fun v => triple_declare d sc x v
    | none =>
      simp only [Eval.stmt, Stmt.declares]
      exact Triple.bind Keeps.reached fun _ => Triple.bind Keeps.ret fun v => triple_declare d sc x v
  | ite c th el =>
    cases el with
    | some st =>
      simp only [Eval.stmt, Stmt.declares, addTo_nil]
      exact Keeps.bind Keeps.reached fun _ => Keeps.bind (ih.expr _ _ c _ _) fun _ =>
        Keeps.bind (keeps_truth _ _) fun _ =>
          Keeps.cond (ih.branch _ _ th _ _) (ih.branch _ _ st _ _)
    | none =>
      simp only [Eval.stmt, Stmt.declares, addTo_nil]
      exact Keeps.bind Keeps.reached fun _ => Keeps.bind (ih.expr _ _ c _ _) fun _ =>
        Keeps.bind (keeps_truth _ _) fun _ => Keeps.cond (ih.branch _ _ th _ _) Keeps.ret
  | loop c b =>
    simp only [Eval.stmt, Stmt.declares, addTo_nil]
    exact Keeps.bind Keeps.reached fun _ => ih.loop _ _ c b _ _ _

/-- A branch runs in a new frame, made after every frame of `m₀`. -/
theorem confined_branch_succ (d : Nat) (sc : FrameId) (st : Stmt) :
    Keeps (Grown m₀ a) (Eval.branch (n + 1) d sc st) := by
  cases st
  case block stmts =>
    simp only [Eval.branch]
    exact Keeps.bind Keeps.reached fun _ =>
      Triple.bind (triple_newFrame sc) fun fr => Triple.frame fun hfr =>
        ih.body_fresh _ hfr stmts _
  -- a single statement adds at most to the new frame
  all_goals
    simp only [Eval.branch]
    exact Keeps.bind Keeps.reached fun _ =>
      Triple.bind (triple_newFrame sc) fun fr => Triple.frame fun hfr =>
        Triple.conseq (ih.stmt _ fr _ m₀ a) (fun _ h => h) (fun _ _ h => h.forget hfr)
          fun _ _ h => h

/-- Each round tests the condition in a new frame and runs the body as a branch. -/
theorem confined_loop_succ (d : Nat) (sc : FrameId) (c : Expr) (b : Stmt) (l : Value) :
    Keeps (Grown m₀ a) (Eval.loop (n + 1) d sc c b l) := by
  simp only [Eval.loop]
  refine Keeps.bind Keeps.reached fun _ =>
    Triple.bind (triple_newFrame sc) fun fr => Triple.frame fun _ => ?_
  exact Keeps.bind (ih.expr _ _ c _ _) fun _ => Keeps.bind (keeps_truth _ _) fun _ =>
    Keeps.cond (Keeps.bind (ih.branch _ _ b _ _) fun _ => ih.loop _ _ c b _ _ _) Keeps.ret

theorem confined_body_succ (d : Nat) (sc : FrameId) (sts : List Stmt) (l : Value) :
    Keeps (fun m => ∃ A, Grown m₀ (addTo a sc A) m) (Eval.body (n + 1) d sc sts l) := by
  -- every statement of the list runs with the same fuel, so the induction is on the list
  induction sts generalizing l with
  | nil =>
    simp only [Eval.body_succ_nil]
    exact Keeps.ret
  | cons st rest ihr =>
    simp only [Eval.body_succ_cons]
    rintro m ⟨A, hA⟩
    have h := ih.stmt d sc st m₀ (addTo a sc A) m hA
    rw [exec_bind]
    rcases hst : exec (Eval.stmt n d sc st) m with ⟨r, m'⟩
    rw [hst] at h
    cases r with
    | ok v => exact ihr v m' ⟨A ++ st.declares, by rwa [← addTo_addTo]⟩
    | error i => exact ⟨A, h⟩

end Succ

theorem confined_succ {n : Nat} (ih : Confined n) : Confined (n + 1) where
  expr d sc e _ _ := confined_expr_succ ih d sc e
  exprs d sc es _ _ := confined_exprs_succ ih d sc es
  apply d f vs _ _ := confined_apply_succ ih d f vs
  stmt d sc st _ _ := confined_stmt_succ ih d sc st
  branch d sc st _ _ := confined_branch_succ ih d sc st
  loop d sc c b l _ _ := confined_loop_succ ih d sc c b l
  body d sc sts l _ _ := confined_body_succ ih d sc sts l

/-- Every evaluation function, with any fuel, is confined. -/
theorem confined (fuel : Nat) : Confined fuel := by
  induction fuel with
  | zero => exact confined_zero
  | succ n ih => exact confined_succ ih

/-! ## What evaluations add -/

theorem grows_expr (fuel d : Nat) (sc : FrameId) (e : Expr) (m : Machine) :
    m.store.Grows (exec (expr fuel d sc e) m).2.store noneAdded := by
  have h := (confined fuel).expr d sc e m noneAdded m (Grown.start m)
  rcases hx : exec (expr fuel d sc e) m with ⟨r, m'⟩
  rw [hx] at h
  cases r <;> exact h

/-- A call adds no binding to a frame that existed: its parameters are bound in a frame made for
it. -/
theorem grows_apply (fuel d : Nat) (f : Value) (vs : List Value) (m : Machine) :
    m.store.Grows (exec (apply fuel d f vs) m).2.store noneAdded := by
  have h := (confined fuel).apply d f vs m noneAdded m (Grown.start m)
  rcases hx : exec (apply fuel d f vs) m with ⟨r, m'⟩
  rw [hx] at h
  cases r <;> exact h

/-- A statement adds to its frame the binding it declares if it completes, and nothing else. -/
theorem grows_stmt (fuel d : Nat) (sc : FrameId) (st : Stmt) (m : Machine) :
    m.store.Grows (exec (stmt fuel d sc st) m).2.store
      (addTo noneAdded sc (match (exec (stmt fuel d sc st) m).1 with
        | .ok _ => st.declares
        | .error _ => [])) := by
  have h := (confined fuel).stmt d sc st m noneAdded m (Grown.start m)
  rcases hx : exec (stmt fuel d sc st) m with ⟨r, m'⟩
  rw [hx] at h
  cases r with
  | ok v => exact h
  | error i =>
    show m.store.Grows m'.store (addTo noneAdded sc [])
    rw [addTo_nil]
    exact h

/-- What statements in a row, run from `m` with `fuel` each, declare in their frame `sc`: the
bindings of the statements that completed, in order, up to the first that did not. -/
def declaredBy (fuel d : Nat) (sc : FrameId) : List Stmt → Machine → List (String × Bool)
  | [], _ => []
  | st :: rest, m =>
    match exec (stmt fuel d sc st) m with
    | (.ok _, m') => st.declares ++ declaredBy fuel d sc rest m'
    | (.error _, _) => []

/-- Statements in a row add to their frame what the ones that completed declared. -/
theorem grows_body (fuel d : Nat) (sc : FrameId) (sts : List Stmt) (l : Value) (m : Machine) :
    m.store.Grows (exec (body (fuel + 1) d sc sts l) m).2.store
      (addTo noneAdded sc (declaredBy fuel d sc sts m)) := by
  induction sts generalizing l m with
  | nil => simpa [declaredBy] using Grows.refl m.store
  | cons st rest ih =>
    have h := grows_stmt fuel d sc st m
    rw [body_succ_cons, exec_bind, declaredBy]
    rcases hx : exec (stmt fuel d sc st) m with ⟨r, m'⟩
    rw [hx] at h
    cases r with
    | ok v => exact h.trans_addTo (ih v m')
    | error i => simpa using h

end Eval

/-! ## Declarations in frames of their own -/

namespace Eval

open Store

variable [NestingLimit]

/-- A declaration whose frame does not bind its name yet fails for that name only if its
initializer did: the initializer adds nothing to the frame. -/
theorem triple_declare_absent (n d : Nat) (sc : FrameId) (x : String) (init : Option Expr)
    (m₀ : Machine) (hsc : sc < m₀.store.frames.size) (hx : m₀.store.has sc x = false) :
    Triple (· = m₀) (stmt (n + 1) d sc (.letDecl x init)) (fun _ _ => True)
      (fun i _ => i = .fault (.alreadyDefined x) →
        ∃ e, init = some e ∧ (exec (expr n (d + 2) sc e) m₀).1 = .error i) := by
  have htail : ∀ v, Triple (fun m => m.store.has sc x = false)
      (do
        reach (d + 2)
        if (← get).store.has sc x then
          reach (d + 5)
          fail (.alreadyDefined x)
        modify fun m => ⟨m.store.bind sc x v false, m.printed⟩
        return v)
      (fun _ _ => True) (fun i _ => i = .fault (.alreadyDefined x) →
        ∃ e, init = some e ∧ (exec (expr n (d + 2) sc e) m₀).1 = .error i) := fun v =>
    Triple.bind (Triple.reached (fun _ h => h) fun _ _ h => absurd h (by simp)) fun _ =>
      Triple.peek fun _ hm => Triple.cond (fun hc => absurd (hc.symm.trans hm) (by simp))
        fun _ => Triple.write_ret fun _ _ => trivial
  have hstart : Triple (· = m₀) (reach (d + 1)) (fun _ m => m = m₀)
      (fun i _ => i = .fault (.alreadyDefined x) →
        ∃ e, init = some e ∧ (exec (expr n (d + 2) sc e) m₀).1 = .error i) :=
    Triple.reached (fun _ h => h) fun _ _ h => absurd h (by simp)
  cases init with
  | none =>
    simp only [Eval.stmt]
    exact Triple.bind hstart fun _ => Triple.bind (Triple.ret fun _ h => h ▸ hx) htail
  | some e =>
    simp only [Eval.stmt]
    refine Triple.bind hstart fun _ => Triple.bind ?_ htail
    -- the initializer adds nothing to the frame, so the frame still does not bind the name
    intro m hm
    rw [hm]
    have hg := grows_expr n (d + 2) sc e m₀
    rcases he : exec (expr n (d + 2) sc e) m₀ with ⟨r, m₂⟩
    rw [he] at hg
    cases r with
    | ok v => exact (hg.has_eq hsc x).trans hx
    | error i => exact fun _ => ⟨e, rfl, by rw [he]⟩

/-- A declaration that is a branch, such as the body of a loop, runs in a frame made for it,
which binds nothing yet: it fails for its own name only if its initializer failed so. -/
theorem branch_declare_fresh (n d : Nat) (sc : FrameId) (x : String) (init : Option Expr)
    (m : Machine)
    (h : (exec (branch (n + 2) d sc (.letDecl x init)) m).1 = .error (.fault (.alreadyDefined x))) :
    ∃ e, init = some e ∧ (exec (expr n (d + 3) m.store.frames.size e)
      ⟨(m.store.alloc sc).1, m.printed⟩).1 = .error (.fault (.alreadyDefined x)) := by
  have hlt : m.store.frames.size < (m.store.alloc sc).1.frames.size := by simp
  have hfresh : (m.store.alloc sc).1.has m.store.frames.size x = false := by
    simp [has, frame?_alloc, Frame.binds]
  have ht : Triple (· = m) (branch (n + 2) d sc (.letDecl x init)) (fun _ _ => True)
      (fun i _ => i = .fault (.alreadyDefined x) → ∃ e, init = some e ∧
        (exec (expr n (d + 1 + 2) m.store.frames.size e)
          ⟨(m.store.alloc sc).1, m.printed⟩).1 = .error i) := by
    simp only [Eval.branch]
    refine Triple.bind (Triple.reached (fun _ h => h) fun _ _ h => absurd h (by simp)) fun _ =>
      Triple.bind (triple_newFrame_at m sc) fun fr => ?_
    rintro m' ⟨rfl, rfl⟩
    exact triple_declare_absent n (d + 1) _ x init _ hlt hfresh _ rfl
  have := ht m rfl
  rcases hx : exec (branch (n + 2) d sc (.letDecl x init)) m with ⟨r, m'⟩
  rw [hx] at this h
  cases r with
  | ok v => cases h
  | error i =>
    cases h
    exact this rfl

end Eval

/-! ## Sessions -/

namespace Session

open Store

/-- The layout of the global frame. -/
def globalLayout (s : Session) : List (String × Bool) :=
  ((s.store.frame? globalFrame).map Frame.layout).getD []

variable [NestingLimit]

/-- The bindings a step makes in the global frame: those of the program's top-level declarations
that completed, or the host function that was added. -/
def declares (s : Session) : Step → List (String × Bool)
  | .run src =>
    match Program.parseAt (runLevel + 1) src with
    | .error _ => []
    | .ok prog => Eval.declaredBy (evalFuel - 1) (runLevel + 3) globalFrame prog ⟨s.store, ""⟩
  | .addNative name _ => if s.store.has globalFrame name then [] else [(name, true)]

/-- What steps in a row declare in the global frame, in order. -/
def declaresAlong : Session → List Step → List (String × Bool)
  | _, [] => []
  | s, st :: rest => s.declares st ++ declaresAlong (s.step st).2 rest

/-- A run leaves the store its statements leave, or the store as it was if the program does not
parse. -/
theorem store_run (s : Session) (src : String) : (s.run src).2.store =
    match Program.parseAt (runLevel + 1) src with
    | .error _ => s.store
    | .ok prog => (Eval.exec (Eval.body evalFuel (runLevel + 3) globalFrame prog .null)
        ⟨s.store, ""⟩).2.store := by
  unfold run
  cases Program.parseAt (runLevel + 1) src with
  | error e => rfl
  | ok prog =>
    dsimp only
    split
    rename_i r m h
    simp only [Eval.exec, h]

/-- A step adds to the global frame what it declares, and nothing to any other frame. -/
theorem grows_step (s : Session) (st : Step) :
    s.store.Grows (s.step st).2.store (addTo noneAdded globalFrame (s.declares st)) := by
  cases st with
  | run src =>
    simp only [step, store_run, declares]
    cases Program.parseAt (runLevel + 1) src with
    | error e => simpa using Grows.refl s.store
    | ok prog =>
      have h := Eval.grows_body (evalFuel - 1) (runLevel + 3) globalFrame prog .null ⟨s.store, ""⟩
      rwa [show evalFuel - 1 + 1 = evalFuel by decide] at h
  | addNative name action =>
    simp only [step, addNative, declares, define]
    by_cases hn : s.store.has globalFrame name = true
    · simpa [hn] using Grows.refl s.store
    · simpa [hn] using grows_bind globalFrame name (.native name action) true

/-- Steps in a row add to the global frame what each declared, in order. -/
theorem grows_replay (s : Session) (steps : List Step) :
    s.store.Grows (s.replay steps).store (addTo noneAdded globalFrame (s.declaresAlong steps)) := by
  induction steps generalizing s with
  | nil => simpa [replay, declaresAlong] using Grows.refl s.store
  | cons st rest ih => exact (s.grows_step st).trans_addTo (ih _)

/-- After any steps, the global frame holds the bindings it had, then those the steps declared,
in order. -/
theorem globalLayout_replay (s : Session) (hs : (s.store.frame? globalFrame).isSome)
    (steps : List Step) :
    (s.replay steps).globalLayout = s.globalLayout ++ s.declaresAlong steps := by
  obtain ⟨f, hf⟩ := Option.isSome_iff_exists.1 hs
  obtain ⟨f', hf', hl⟩ := (s.grows_replay steps).layout hf
  simp [globalLayout, hf, hf', hl, addTo, noneAdded]

omit [NestingLimit] in
/-- A session starts with the constants `null`, `true` and `false`, then `print` when host
functions are on. -/
theorem globalLayout_start (natives : Bool) : (start natives).globalLayout =
    [("null", true), ("true", true), ("false", true)] ++
      (if natives then [("print", true)] else []) := by
  cases natives <;> rfl

end Session

/-! ## Bindings stay local -/

namespace Eval

open Store

variable [NestingLimit]

/-- Bindings stay where they are made. An expression adds no binding to a frame that existed
before it, and a statement adds to its own frame at most the binding it declares, when it
completes; no evaluation removes, reorders or renames a binding, or changes a constant
(`Store.Grows`). A declaration that is a branch, such as a loop body, binds in a frame of its own
and meets no binding of an earlier round there. Over any steps of a session the global frame
holds the constants it starts with, then what the steps declared, in order: the top-level
declarations that completed and the host functions that were added. -/
theorem bindings_stay_local :
    (∀ fuel d sc (e : Expr) (m : Machine),
      m.store.Grows (exec (expr fuel d sc e) m).2.store noneAdded) ∧
    (∀ fuel d sc (st : Stmt) (m : Machine),
      m.store.Grows (exec (stmt fuel d sc st) m).2.store
        (addTo noneAdded sc (match (exec (stmt fuel d sc st) m).1 with
          | .ok _ => st.declares
          | .error _ => []))) ∧
    (∀ n d sc x init (m : Machine),
      (exec (branch (n + 2) d sc (.letDecl x init)) m).1 = .error (.fault (.alreadyDefined x)) →
      ∃ e, init = some e ∧ (exec (expr n (d + 3) m.store.frames.size e)
        ⟨(m.store.alloc sc).1, m.printed⟩).1 = .error (.fault (.alreadyDefined x))) ∧
    (∀ natives steps, ((Session.start natives).replay steps).globalLayout =
      [("null", true), ("true", true), ("false", true)] ++
        (if natives then [("print", true)] else []) ++
          (Session.start natives).declaresAlong steps) := by
  refine ⟨grows_expr, grows_stmt, branch_declare_fresh, fun natives steps => ?_⟩
  rw [Session.globalLayout_replay _ (by cases natives <;> rfl), Session.globalLayout_start]

end Eval

end Scriptlet

namespace Scriptlet.Eval

open Syntax

/-- A declaration whose value calls a function with a repeated parameter fails as already
defined, and the name was found in the frame made for the call, not in the branch's own frame. -/
theorem bindings_stay_local_repeated_parameter :
    (exec (branch 12 5 globalFrame (.letDecl "y" (some (.call (.func ["y", "y"] []) []))))
      ⟨(Session.start true).store, ""⟩).1 = .error (.fault (.alreadyDefined "y")) ∧
    ∃ e, some (Expr.call (.func ["y", "y"] []) []) = some e ∧
      (exec (expr 10 8 (Session.start true).store.frames.size e)
        ⟨((Session.start true).store.alloc globalFrame).1, ""⟩).1 =
          .error (.fault (.alreadyDefined "y")) := by
  have hget : ∀ m, exec (get : Eval Machine) m = (.ok m, m) := fun _ => rfl
  have hfail : (exec (branch 12 5 globalFrame
      (.letDecl "y" (some (.call (.func ["y", "y"] []) [])))) ⟨(Session.start true).store, ""⟩).1 =
        .error (.fault (.alreadyDefined "y")) := by
    simp [Eval.branch, Eval.stmt, Eval.expr, Eval.exprs, Eval.apply, Eval.bindParams, exec_bind,
      exec_reach, hget, Eval.newFrame, exec_modifyGet, nestingLimit, Session.start, Store.has,
      Store.frame?, Store.alloc, Store.bind, Frame.binds, Value.isCallable, exec_fail]
  exact ⟨hfail, bindings_stay_local.2.2.1 10 5 globalFrame "y" _ _ hfail⟩

end Scriptlet.Eval
