import Scriptlet.Proofs.Constants

/-!
# Parent chains

Every frame has a parent, except the global frame, and a frame is made after its parent. The
frames a frame's bindings are looked up in are its parent path: the frame, its parent, the parent
of that, and so on up to a frame without parent (`Store.ParentPath`). A frame has one such path
at most, as each frame has one parent, and the path never comes back to a frame: from a frame met
twice it would be a strict part of itself (`Store.ParentPath.nodup`).

`Store.chain`, the list that lookup, `find` and assignment scan, follows parents only while they
are older than their children. In a well-formed store every parent is, so `chain` is the whole
parent path (`Store.WellFormed.parentPath_chain`). In a rooted store the path ends at the global
frame, the only frame without parent, so every scan meets the global frame last and only there
(`Store.Rooted.chain_ends_global`).

Every store a session reaches is rooted, and evaluation keeps a store rooted
(`Session.rooted_replay`, `Eval.rooting`), so this holds of every frame that ever exists, those
kept alive by functions included.

## Main definitions

* `Store.ParentPath s i l`: `l` is the parent path of frame `i`.

## Main statements

* `Store.ParentPath.unique`, `Store.ParentPath.nodup`: a frame has one parent path, without a
  repeated frame.
* `Store.Rooted.chain_ends_global`: in a rooted store the chain from every frame is its parent
  path and ends at the global frame.
* `Session.frame_chains_rooted`: the same for every store a session reaches or an evaluation
  passes through.
-/

set_option autoImplicit false

namespace Scriptlet

namespace Store

/-- `l` is the parent path of frame `i`: the frame, its parent, the parent of that, and so on up
to a frame without parent. -/
inductive ParentPath (s : Store) : FrameId → List FrameId → Prop
  /-- A frame without parent is its own path. -/
  | root {i : FrameId} {f : Frame} : s.frame? i = some f → f.parent = none → ParentPath s i [i]
  /-- A frame with a parent comes before the path of its parent. -/
  | up {i p : FrameId} {f : Frame} {l : List FrameId} : s.frame? i = some f →
      f.parent = some p → ParentPath s p l → ParentPath s i (i :: l)

variable {s : Store}

namespace ParentPath

/-- A frame has one parent path at most: each frame has one parent. -/
theorem unique {i : FrameId} {l l' : List FrameId} (h : s.ParentPath i l)
    (h' : s.ParentPath i l') : l = l' := by
  induction h generalizing l' with
  | root hf hp =>
    cases h' with
    | root => rfl
    | up hf' hp' =>
      rw [hf] at hf'
      cases hf'
      rw [hp] at hp'
      cases hp'
  | up hf hp _ ih =>
    cases h' with
    | root hf' hp' =>
      rw [hf] at hf'
      cases hf'
      rw [hp] at hp'
      cases hp'
    | up hf' hp' hl' =>
      rw [hf] at hf'
      cases hf'
      rw [hp] at hp'
      cases hp'
      rw [ih hl']

/-- Every frame on a parent path has for its own path the rest of the path from it. -/
theorem suffix {i j : FrameId} {l : List FrameId} (h : s.ParentPath i l) (hj : j ∈ l) :
    ∃ l', s.ParentPath j l' ∧ l' <:+ l := by
  induction h with
  | root hf hp =>
    rw [List.mem_singleton] at hj
    subst hj
    exact ⟨_, .root hf hp, List.suffix_refl _⟩
  | up hf hp hl ih =>
    rcases List.mem_cons.1 hj with rfl | hj
    · exact ⟨_, .up hf hp hl, List.suffix_refl _⟩
    · obtain ⟨l', hl', hsuf⟩ := ih hj
      exact ⟨l', hl', hsuf.trans (List.suffix_cons _ _)⟩

/-- A parent path never comes back to a frame: the path of a frame met again would be the rest of
the path from there, shorter than itself. -/
theorem nodup {i : FrameId} {l : List FrameId} (h : s.ParentPath i l) : l.Nodup := by
  induction h with
  | root => simp
  | up hf hp hl ih =>
    refine List.nodup_cons.2 ⟨fun hi => ?_, ih⟩
    obtain ⟨l', hl', hsuf⟩ := hl.suffix hi
    have hsame := (ParentPath.up hf hp hl).unique hl'
    have hlen := hsuf.length_le
    rw [← hsame, List.length_cons] at hlen
    omega

/-- A parent path ends at a frame without parent. -/
theorem exists_root {i : FrameId} {l : List FrameId} (h : s.ParentPath i l) :
    ∃ l₀ j f, l = l₀ ++ [j] ∧ s.frame? j = some f ∧ f.parent = none := by
  induction h with
  | root hf hp => exact ⟨[], _, _, rfl, hf, hp⟩
  | up _ _ _ ih =>
    obtain ⟨l₀, j, f, rfl, hf, hp⟩ := ih
    exact ⟨_ :: l₀, j, f, rfl, hf, hp⟩

end ParentPath

/-- In a well-formed store the chain from every frame is its parent path: every parent is older
than its child, so the chain never stops short of a frame without parent. -/
theorem WellFormed.parentPath_chain (h : s.WellFormed) (i : FrameId) (hi : i < s.frames.size) :
    s.ParentPath i (s.chain i) := by
  induction i using Nat.strong_induction_on with
  | _ i ih =>
    obtain ⟨f, hf⟩ := Option.isSome_iff_exists.1 ((frame?_isSome_iff s i).2 hi)
    rw [chain_eq, hf]
    cases hp : f.parent with
    | none =>
      simp only [hp]
      exact .root hf hp
    | some p =>
      have hpi : p < i := (h i f hf).1 p hp
      simp only [hp, if_pos hpi]
      exact .up hf hp (ih p hpi (Nat.lt_trans hpi hi))

/-- In a rooted store the chain from every frame is its parent path, which ends at the global
frame and meets it nowhere else: the global frame is the only frame without parent. -/
theorem Rooted.chain_ends_global (h : s.Rooted) {i : FrameId} (hi : i < s.frames.size) :
    s.ParentPath i (s.chain i) ∧ (s.chain i).Nodup ∧
      ∃ l, s.chain i = l ++ [globalFrame] ∧ globalFrame ∉ l := by
  have hpath := h.wellFormed.parentPath_chain i hi
  obtain ⟨l, j, f, hl, hf, hp⟩ := hpath.exists_root
  have hj : j = globalFrame := by
    by_contra hne
    have hsome := h.parent j f hf hne
    rw [hp] at hsome
    cases hsome
  subst hj
  have hnodup := hpath.nodup
  refine ⟨hpath, hnodup, l, hl, fun hmem => ?_⟩
  rw [hl, List.nodup_append] at hnodup
  exact hnodup.2.2 _ hmem _ (List.mem_singleton_self _) rfl

end Store

namespace Session

open Store

variable [NestingLimit]

/-- The value a step gives keeps a frame of the store the step leaves: a run gives the value of
its program, which evaluation keeps below the size of the store, and an added host function keeps
no frame. -/
theorem step_value_below {s : Session} (hs : s.store.Rooted) (st : Step) {v : Value}
    (hv : (s.step st).1.result = .ok v) : v.Below (s.step st).2.store.frames.size := by
  cases st with
  | run src =>
    simp only [step] at hv ⊢
    rcases hp : Syntax.Program.parseAt (runLevel + 1) src with e | prog
    · simp only [run, hp] at hv
      cases hv
    · have h := (Eval.rooting evalFuel).body (runLevel + 3) globalFrame prog .null
        (globalFrame + 1) (Nat.lt_succ_self _) (Value.below_of_scope rfl _) ⟨s.store, ""⟩
        ⟨hs, hs.global⟩
      change Eval.Ends _ _
        ((Eval.body evalFuel (runLevel + 3) globalFrame prog .null).run.run ⟨s.store, ""⟩) at h
      rcases hx : (Eval.body evalFuel (runLevel + 3) globalFrame prog .null).run.run
        ⟨s.store, ""⟩ with ⟨r, m⟩
      rw [hx] at h
      simp only [run, hp, hx] at hv ⊢
      cases r with
      | ok w =>
        cases hv
        exact h.2
      | error i => cases i <;> cases hv
  | addNative name action =>
    simp only [step, addNative] at hv
    split at hv
    · cases hv
      exact Value.below_of_scope rfl _
    · cases hv

/-- **Every frame has a finite, acyclic parent chain that ends at the global frame.** Every store
a session reaches, with host functions on or off and after any runs and added host functions, is
rooted, and the value each further step gives keeps a frame of the store after it. An expression
or a statement evaluated in a rooted store, in a frame the store holds, leaves the store rooted,
whether it gives a value or fails, and the value it gives keeps a frame of the store; so every
store that evaluation passes through is rooted too. In a rooted store the global frame exists,
every function bound in a frame keeps a frame the store holds, and the chain that lookup and
assignment scan from any frame is that frame's parent path: finite, with no frame met twice,
ending at the global frame and meeting it only there. -/
theorem frame_chains_rooted :
    (∀ natives steps, ((start natives).replay steps).store.Rooted ∧
      ∀ st v, (((start natives).replay steps).step st).1.result = .ok v →
        v.Below (((start natives).replay steps).step st).2.store.frames.size) ∧
    (∀ fuel d sc e (m : Machine), m.store.Rooted → sc < m.store.frames.size →
      (Eval.exec (Eval.expr fuel d sc e) m).2.store.Rooted ∧
      ∀ v, (Eval.exec (Eval.expr fuel d sc e) m).1 = .ok v →
        v.Below (Eval.exec (Eval.expr fuel d sc e) m).2.store.frames.size) ∧
    (∀ fuel d sc st (m : Machine), m.store.Rooted → sc < m.store.frames.size →
      (Eval.exec (Eval.stmt fuel d sc st) m).2.store.Rooted ∧
      ∀ v, (Eval.exec (Eval.stmt fuel d sc st) m).1 = .ok v →
        v.Below (Eval.exec (Eval.stmt fuel d sc st) m).2.store.frames.size) ∧
    ∀ s : Store, s.Rooted → globalFrame < s.frames.size ∧
      (∀ i f, s.frame? i = some f → ∀ b ∈ f.bindings, ∀ c, b.value.scope? = some c →
        c < s.frames.size) ∧
      ∀ i, i < s.frames.size → s.ParentPath i (s.chain i) ∧ (s.chain i).Nodup ∧
        ∃ l, s.chain i = l ++ [globalFrame] ∧ globalFrame ∉ l := by
  refine ⟨fun natives steps => ?_, ?_, ?_, ?_⟩
  · have hroot := rooted_replay (rooted_start natives) steps
    exact ⟨hroot, fun st v hv => step_value_below hroot st hv⟩
  · intro fuel d sc e m hroot hsc
    have h := (Eval.rooting fuel).expr d sc e _ hsc m ⟨hroot, Nat.le_refl _⟩
    rcases hx : Eval.exec (Eval.expr fuel d sc e) m with ⟨r, m'⟩
    rw [hx] at h
    cases r with
    | ok w => exact ⟨h.1.1, fun v hv => by cases hv; exact h.2⟩
    | error i => exact ⟨h.1, fun v hv => by cases hv⟩
  · intro fuel d sc st m hroot hsc
    have h := (Eval.rooting fuel).stmt d sc st _ hsc m ⟨hroot, Nat.le_refl _⟩
    rcases hx : Eval.exec (Eval.stmt fuel d sc st) m with ⟨r, m'⟩
    rw [hx] at h
    cases r with
    | ok w => exact ⟨h.1.1, fun v hv => by cases hv; exact h.2⟩
    | error i => exact ⟨h.1, fun v hv => by cases hv⟩
  · intro s hs
    exact ⟨hs.global, fun i f hf => (hs.wellFormed i f hf).2,
      fun i hi => hs.chain_ends_global hi⟩

end Session

end Scriptlet

namespace Scriptlet.Session

/-- In a new session: the program `null` gives a value that keeps no frame; a name read and a
declaration made in the global frame leave the store rooted; and the global frame's chain is the
global frame alone. -/
theorem frame_chains_rooted_at_start :
    ((start true).replay []).step (.run "null") = (⟨.ok .null, ""⟩, start true) ∧
      Value.null.Below (((start true).replay []).step (.run "null")).2.store.frames.size ∧
      (start true).store.Rooted ∧ globalFrame < (start true).store.frames.size ∧
      (Eval.exec (Eval.expr 3 0 globalFrame (.ident "print")) ⟨(start true).store, ""⟩).2.store.Rooted ∧
      (Eval.exec (Eval.stmt 3 0 globalFrame (.letDecl "x" none))
        ⟨(start true).store, ""⟩).2.store.Rooted ∧
      ∃ l, (start true).store.chain globalFrame = l ++ [globalFrame] ∧ globalFrame ∉ l := by
  have hroot := rooted_start true
  have hsize : globalFrame < (start true).store.frames.size := by decide
  have hstep : ((start true).replay []).step (.run "null") = (⟨.ok .null, ""⟩, start true) := by
    with_unfolding_all rfl
  have h := frame_chains_rooted
  exact ⟨hstep, (h.1 true []).2 (.run "null") .null (by rw [hstep]), hroot, hsize,
    (h.2.1 3 0 globalFrame _ _ hroot hsize).1, (h.2.2.1 3 0 globalFrame _ _ hroot hsize).1,
    ((h.2.2.2 _ hroot).2.2 globalFrame hsize).2.2⟩

end Scriptlet.Session
