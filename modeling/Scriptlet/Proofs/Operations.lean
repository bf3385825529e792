import Scriptlet.Proofs.Frames
import Scriptlet.Proofs.Constants

/-!
# Each operation of a store changes exactly what it names

The operations on a frame `e` of a store act as follows.

* `define` succeeds exactly when `e` itself does not bind the name; it then adds the binding last
  in `e`, constant as asked, and changes no other frame.
* `assign` succeeds exactly when some frame of the chain from `e` binds the name and none binds it
  as a constant; it then replaces the value in the nearest frame that binds it, in place, and
  changes nothing else.
* `lookup` gives the value in that nearest frame.
* `reset` empties `e` and changes no other frame.

A refused operation gives a fault and no store, so the store stays as it was; each refusal is
stated with its fault. Replacing "in place" needs that no frame binds a name twice, which holds
of every store the operations build from the root store (`Store.Built.distinct`).

## Main definitions

* `Store.Built`: the stores built by the operations.
* `Store.Nearest`: the nearest frame of a chain that binds a name.
* `Store.Replaces`: one store is another with one frame replaced.
* `Store.DefinesExactly`, `Store.AssignsExactly`, `Store.LooksUp`, `Store.ResetsExactly`: what
  each operation does.

## Main statements

* `Store.operations_exact`: every operation on every frame of a built store does what it names.
-/

set_option autoImplicit false

namespace Scriptlet.Store

/-- The stores that the operations build: the root store, then new frames under existing ones,
and definitions, assignments and resets in any frame. -/
inductive Built : Store → Prop
  | root : Built withRoot
  | alloc {s : Store} {p : FrameId} : Built s → p < s.frames.size → Built (s.alloc p).1
  | define {s s' : Store} {i : FrameId} {n : String} {v : Value} {c : Bool} :
      Built s → s.define i n v c = .ok s' → Built s'
  | assign {s s' : Store} {i : FrameId} {n : String} {v : Value} :
      Built s → s.assign i n v = .ok s' → Built s'
  | reset {s : Store} {i : FrameId} : Built s → Built (s.reset i)

/-- `j` is the nearest frame of the chain from `e` that binds `n`: every frame before it in the
chain does not. -/
def Nearest (s : Store) (e : FrameId) (n : String) (j : FrameId) : Prop :=
  ∃ pre post, s.chain e = pre ++ j :: post ∧ s.has j n = true ∧ ∀ k ∈ pre, s.has k n = false

/-- `s'` is `s` with frame `j` replaced by `f'`, every other frame as it was. -/
def Replaces (s s' : Store) (j : FrameId) (f' : Frame) : Prop :=
  s'.frames.size = s.frames.size ∧ s'.frame? j = some f' ∧ ∀ k, k ≠ j → s'.frame? k = s.frame? k

/-- What `define` does in frame `e`: it succeeds exactly when `e` does not bind `n`, and then adds
the binding of `n` to `v`, constant when `c`, after every binding of `e`, changing no other frame;
otherwise it is refused as already defined. -/
def DefinesExactly (s : Store) (e : FrameId) (n : String) (v : Value) (c : Bool) : Prop :=
  match s.define e n v c with
  | .ok s' => s.has e n = false ∧
      ∃ f, s.frame? e = some f ∧ Replaces s s' e { f with bindings := f.bindings ++ [⟨n, v, c⟩] }
  | .error err => s.has e n = true ∧ err = .alreadyDefined n

/-- What `assign` does from frame `e`: it succeeds exactly when some frame of the chain binds `n`
and none binds it as a constant, and then replaces the value of the one binding of `n` in the
nearest frame that binds it, keeping its place, changing no other binding of any frame. It is
refused as undefined when no frame of the chain binds `n`, else as a constant violation. -/
def AssignsExactly (s : Store) (e : FrameId) (n : String) (v : Value) : Prop :=
  match s.assign e n v with
  | .ok s' => (∀ k ∈ s.chain e, s.isConstant k n = false) ∧
      ∃ j f pre b post, Nearest s e n j ∧ s.frame? j = some f ∧ f.bindings = pre ++ b :: post ∧
        b.name = n ∧ (∀ b' ∈ pre ++ post, b'.name ≠ n) ∧
        Replaces s s' j { f with bindings := pre ++ { b with value := v } :: post }
  | .error err =>
    (err = .undefinedVariable n ∧ ∀ k ∈ s.chain e, s.has k n = false) ∨
      (err = .constantViolation n ∧ (∃ k ∈ s.chain e, s.has k n = true) ∧
        ∃ k ∈ s.chain e, s.isConstant k n = true)

/-- What `lookup` gives from frame `e`: the value bound to `n` in the nearest frame that binds it,
or the fault that `n` is undefined when no frame of the chain binds it. -/
def LooksUp (s : Store) (e : FrameId) (n : String) : Prop :=
  match s.lookup e n with
  | .ok v => ∃ j f b, Nearest s e n j ∧ s.frame? j = some f ∧ b ∈ f.bindings ∧ b.name = n ∧
      b.value = v
  | .error err => err = .undefinedVariable n ∧ ∀ k ∈ s.chain e, s.has k n = false

/-- What `reset` does to frame `e`: it empties it and changes no other frame. -/
def ResetsExactly (s : Store) (e : FrameId) : Prop :=
  ∃ f, s.frame? e = some f ∧ Replaces s (s.reset e) e { f with bindings := [] }

/-- No frame binds a name twice. -/
def Distinct (s : Store) : Prop :=
  ∀ j f, s.frame? j = some f → (f.bindings.map (·.name)).Nodup

variable {s : Store}

/-! ## Reset -/

@[simp] theorem size_reset (i : FrameId) : (s.reset i).frames.size = s.frames.size := by
  simp [reset]

/-- `reset` empties the frame it names and changes no other frame. -/
theorem frame?_reset (i j : FrameId) :
    (s.reset i).frame? j = if i = j then (s.frame? j).map fun f => { f with bindings := [] }
      else s.frame? j := by
  simp [reset, frame?, Array.getElem?_modify]

/-! ## Finding the nearest binding -/

theorem has_eq (j : FrameId) (n : String) : s.has j n = (s.frame? j).any (·.binds n) := rfl

/-- `find` gives the nearest frame of the chain that binds the name. -/
theorem find_eq_some_iff {e j : FrameId} {n : String} : s.find e n = some j ↔ Nearest s e n j := by
  simp only [find, List.find?_eq_some_iff_append, Nearest, ← has_eq, Bool.not_eq_true']
  constructor
  · rintro ⟨hj, pre, post, hchain, hpre⟩
    exact ⟨pre, post, hchain, hj, hpre⟩
  · rintro ⟨pre, post, hchain, hj, hpre⟩
    exact ⟨hj, pre, post, hchain, hpre⟩

theorem find_eq_none_iff {e : FrameId} {n : String} :
    s.find e n = none ↔ ∀ k ∈ s.chain e, s.has k n = false := by
  simp [find, List.find?_eq_none, ← has_eq]

theorem constantAlong_eq_true_iff {e : FrameId} {n : String} :
    s.constantAlong e n = true ↔ ∃ k ∈ s.chain e, s.isConstant k n = true := by
  simp [constantAlong, isConstant]

/-- A frame that binds a name holds a binding of it. -/
theorem exists_binding_of_has {j : FrameId} {n : String} (h : s.has j n = true) :
    ∃ f b, s.frame? j = some f ∧ b ∈ f.bindings ∧ b.name = n := by
  cases hf : s.frame? j with
  | none => simp [has, hf] at h
  | some f =>
    simp only [has, hf, Option.any_some, Frame.binds, List.any_eq_true, beq_iff_eq] at h
    obtain ⟨b, hb, hbn⟩ := h
    exact ⟨f, b, rfl, hb, hbn⟩

/-- A constant mark goes with a binding. -/
theorem has_of_isConstant {k : FrameId} {n : String} (h : s.isConstant k n = true) :
    s.has k n = true := by
  cases hf : s.frame? k with
  | none => simp [isConstant, hf] at h
  | some f =>
    simp only [isConstant, hf, Option.any_some] at h
    simpa [has, hf] using Frame.binds_of_bindsConstant h

/-! ## One binding of a name -/

/-- In a frame that binds a name once, setting its value replaces that one binding in place. -/
theorem Frame.set_of_nodup {f : Frame} {n : String} (hd : (f.bindings.map (·.name)).Nodup)
    {b : Binding} (hb : b ∈ f.bindings) (hbn : b.name = n) (v : Value) :
    ∃ pre post, f.bindings = pre ++ b :: post ∧ (∀ b' ∈ pre ++ post, b'.name ≠ n) ∧
      (f.set n v).bindings = pre ++ { b with value := v } :: post := by
  obtain ⟨pre, post, hsplit⟩ := List.append_of_mem hb
  rw [hsplit, List.map_append, List.map_cons, List.nodup_append] at hd
  obtain ⟨-, hpost, hdisj⟩ := hd
  -- the name occurs once, at `b`
  have hothers : ∀ b' ∈ pre ++ post, b'.name ≠ n := by
    intro b' hb' hname
    rcases List.mem_append.1 hb' with hpre | hpost'
    · exact hdisj _ (List.mem_map_of_mem hpre) _ List.mem_cons_self (hname.trans hbn.symm)
    · exact (List.nodup_cons.1 hpost).1 (hname.trans hbn.symm ▸ List.mem_map_of_mem hpost')
  refine ⟨pre, post, hsplit, hothers, ?_⟩
  have hkeep : ∀ l : List Binding, (∀ b' ∈ l, b'.name ≠ n) →
      l.map (fun b' => if b'.name == n then { b' with value := v } else b') = l := by
    intro l hl
    calc l.map (fun b' => if b'.name == n then { b' with value := v } else b')
        = l.map id := List.map_congr_left fun b' hb' => by simp [hl b' hb']
      _ = l := List.map_id l
  simp only [Frame.set, hsplit, List.map_append, List.map_cons, hbn, beq_self_eq_true, if_true]
  rw [hkeep pre fun b' hb' => hothers b' (List.mem_append_left _ hb'),
    hkeep post fun b' hb' => hothers b' (List.mem_append_right _ hb')]

/-! ## Distinct names -/

theorem distinct_withRoot : withRoot.Distinct := by
  intro j f hf
  cases j with
  | zero =>
    simp only [withRoot, frame?, List.getElem?_toArray, List.getElem?_cons_zero,
      Option.some.injEq] at hf
    subst hf
    exact List.nodup_nil
  | succ j => simp [withRoot, frame?] at hf

theorem Distinct.alloc (h : s.Distinct) (p : FrameId) : (s.alloc p).1.Distinct := by
  intro j f hf
  rw [frame?_alloc] at hf
  split at hf
  · cases hf
    exact List.nodup_nil
  · exact h j f hf

theorem Distinct.define (h : s.Distinct) {i : FrameId} {n : String} {v : Value} {c : Bool}
    {s' : Store} (hd : s.define i n v c = .ok s') : s'.Distinct := by
  simp only [Store.define] at hd
  split at hd
  · cases hd
  · rename_i hhas
    cases hd
    intro j f hf
    rw [frame?_bind] at hf
    split at hf
    · subst i
      obtain ⟨f₀, hf₀, rfl⟩ := Option.map_eq_some_iff.1 hf
      -- the new name is not among the frame's names
      have hnot : ∀ b ∈ f₀.bindings, b.name ≠ n := by
        simpa [has, hf₀, Frame.binds] using hhas
      simpa [List.nodup_append] using ⟨h j f₀ hf₀, hnot⟩
    · exact h j f hf

theorem Distinct.update (h : s.Distinct) (j : FrameId) (n : String) (v : Value) :
    (s.update j n v).Distinct := by
  intro k f hf
  rw [frame?_update] at hf
  split at hf
  · obtain ⟨f₀, hf₀, rfl⟩ := Option.map_eq_some_iff.1 hf
    -- setting a value keeps every name
    have hnames : (f₀.set n v).bindings.map (·.name) = f₀.bindings.map (·.name) := by
      simp only [Frame.set, List.map_map]
      exact List.map_congr_left fun b _ => by by_cases hb : b.name = n <;> simp [hb]
    rw [hnames]
    exact h k f₀ hf₀
  · exact h k f hf

theorem Distinct.assign (h : s.Distinct) {i : FrameId} {n : String} {v : Value} {s' : Store}
    (ha : s.assign i n v = .ok s') : s'.Distinct := by
  simp only [Store.assign] at ha
  cases ht : s.assignTarget i n with
  | error f => simp [ht, Except.map] at ha
  | ok j =>
    simp only [ht, Except.map, Except.ok.injEq] at ha
    subst ha
    exact h.update j n v

theorem Distinct.reset (h : s.Distinct) (i : FrameId) : (s.reset i).Distinct := by
  intro j f hf
  rw [frame?_reset] at hf
  split at hf
  · obtain ⟨_, _, rfl⟩ := Option.map_eq_some_iff.1 hf
    exact List.nodup_nil
  · exact h j f hf

/-- No store the operations build binds a name twice in a frame. -/
theorem Built.distinct (h : s.Built) : s.Distinct := by
  induction h with
  | root => exact distinct_withRoot
  | alloc _ _ ih => exact ih.alloc _
  | define _ hd ih => exact ih.define hd
  | assign _ ha ih => exact ih.assign ha
  | reset _ ih => exact ih.reset _

/-! ## Each operation -/

/-- A frame replaced through `modify` at its index. -/
theorem replaces_of_frame? {s' : Store} {j : FrameId} {f f' : Frame} (hf : s.frame? j = some f)
    (hsize : s'.frames.size = s.frames.size)
    (hframe : ∀ k, s'.frame? k = if j = k then (s.frame? k).map (fun _ => f') else s.frame? k) :
    Replaces s s' j f' := by
  refine ⟨hsize, by simp [hframe, hf], fun k hk => ?_⟩
  rw [hframe, if_neg (Ne.symm hk)]

theorem definesExactly (e : FrameId) (he : e < s.frames.size) (n : String) (v : Value)
    (c : Bool) : DefinesExactly s e n v c := by
  obtain ⟨f, hf⟩ : ∃ f, s.frame? e = some f := Option.isSome_iff_exists.1 ((frame?_isSome_iff s e).2 he)
  unfold DefinesExactly Store.define
  by_cases hhas : s.has e n = true
  · rw [if_pos hhas]
    exact ⟨hhas, rfl⟩
  · rw [if_neg hhas]
    refine ⟨by simpa using hhas, f, hf, replaces_of_frame? hf (size_bind s e n v c) fun k => ?_⟩
    rw [frame?_bind]
    split
    · subst e
      simp [hf]
    · rfl

theorem assignsExactly (hd : s.Distinct) (e : FrameId) (n : String) (v : Value) :
    AssignsExactly s e n v := by
  unfold AssignsExactly Store.assign Store.assignTarget
  cases hfind : s.find e n with
  | none =>
    exact .inl ⟨rfl, find_eq_none_iff.1 hfind⟩
  | some j =>
    have hnear := find_eq_some_iff.1 hfind
    obtain ⟨pre₀, post₀, hchain, hj, -⟩ := hnear
    have hjmem : j ∈ s.chain e := by simp [hchain]
    cases hconst : s.constantAlong e n with
    | true =>
      exact .inr ⟨rfl, ⟨j, hjmem, hj⟩, constantAlong_eq_true_iff.1 hconst⟩
    | false =>
      simp only [if_false, Bool.false_eq_true]
      have hnone : ∀ k ∈ s.chain e, s.isConstant k n = false := fun k hk => by
        by_contra hk'
        simp only [Bool.not_eq_false] at hk'
        have := constantAlong_eq_true_iff.2 ⟨k, hk, hk'⟩
        rw [hconst] at this
        cases this
      obtain ⟨f, b, hf, hb, hbn⟩ := exists_binding_of_has hj
      obtain ⟨pre, post, hsplit, hothers, hset⟩ := Frame.set_of_nodup (hd j f hf) hb hbn v
      refine ⟨hnone, j, f, pre, b, post, find_eq_some_iff.1 hfind, hf, hsplit, hbn, hothers,
        replaces_of_frame? hf (size_update s j n v) fun k => ?_⟩
      rw [frame?_update]
      split
      · subst j
        simp only [hf, Option.map_some, Option.some.injEq]
        obtain ⟨bs, par⟩ := f
        simp only [Frame.set] at hset ⊢
        rw [hset]
      · rfl

theorem looksUp (e : FrameId) (n : String) : LooksUp s e n := by
  unfold LooksUp Store.lookup
  cases hfind : s.find e n with
  | none => exact ⟨rfl, find_eq_none_iff.1 hfind⟩
  | some j =>
    obtain ⟨pre₀, post₀, hchain, hj, hpre⟩ := find_eq_some_iff.1 hfind
    obtain ⟨f, b, hf, hb, hbn⟩ := exists_binding_of_has hj
    -- the frame gives the first of its bindings of the name
    obtain ⟨b₁, hget⟩ : ∃ b₁, f.get? n = some b₁ := by
      simp only [Frame.get?, ← Option.isSome_iff_exists, List.find?_isSome, beq_iff_eq]
      exact ⟨b, hb, hbn⟩
    obtain ⟨hb₁n, hb₁⟩ : b₁.name = n ∧ b₁ ∈ f.bindings := by
      simp only [Frame.get?] at hget
      exact ⟨by simpa using List.find?_some hget, List.mem_of_find?_eq_some hget⟩
    simp only [hf, Option.bind_some, hget]
    exact ⟨j, f, b₁, ⟨pre₀, post₀, hchain, hj, hpre⟩, hf, hb₁, hb₁n, rfl⟩

theorem resetsExactly (e : FrameId) (he : e < s.frames.size) : ResetsExactly s e := by
  obtain ⟨f, hf⟩ : ∃ f, s.frame? e = some f := Option.isSome_iff_exists.1 ((frame?_isSome_iff s e).2 he)
  refine ⟨f, hf, replaces_of_frame? hf (size_reset e) fun k => ?_⟩
  rw [frame?_reset]
  split
  · subst e
    simp [hf]
  · rfl

/-- **Environment operations change exactly what they name.** In every store the operations
build, on every frame `e`: `define` succeeds exactly when `e` does not bind the name and then adds
the binding last in `e`; `assign` succeeds exactly when some frame of the chain binds the name and
none binds it as a constant, and then replaces the value of the one binding in the nearest frame
that binds it, in place; `lookup` gives the value there; `reset` empties `e` only; each refusal is
the fault its condition names, and every constant mark belongs to a binding. -/
theorem operations_exact (hs : s.Built) {e : FrameId} (he : e < s.frames.size) (n : String)
    (v : Value) (c : Bool) :
    DefinesExactly s e n v c ∧ AssignsExactly s e n v ∧ LooksUp s e n ∧ ResetsExactly s e ∧
      ∀ k m, s.isConstant k m = true → s.has k m = true :=
  ⟨definesExactly e he n v c, assignsExactly hs.distinct e n v, looksUp e n, resetsExactly e he,
    fun _ _ h => has_of_isConstant h⟩

/-- The operations on the child frame of a root. -/
theorem operations_exact_in_child :
    (withRoot.alloc 0).1.Built ∧ 1 < (withRoot.alloc 0).1.frames.size ∧
      DefinesExactly (withRoot.alloc 0).1 1 "x" .null true ∧
      AssignsExactly (withRoot.alloc 0).1 1 "x" .null ∧ LooksUp (withRoot.alloc 0).1 1 "x" ∧
      ResetsExactly (withRoot.alloc 0).1 1 ∧
      ∀ k m, (withRoot.alloc 0).1.isConstant k m = true → (withRoot.alloc 0).1.has k m = true := by
  have hb : (withRoot.alloc 0).1.Built := .alloc .root (by decide)
  have he : 1 < (withRoot.alloc 0).1.frames.size := by decide
  exact ⟨hb, he, operations_exact hb he "x" .null true⟩

end Scriptlet.Store
