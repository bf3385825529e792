import Mathlib.Data.List.Find
import Mathlib.Data.List.Forall2
import Scriptlet.Proofs.Lockstep
import Scriptlet.Proofs.Frames

/-!
# Evaluation is local to the frames it can reach

Evaluating a node in frame `E` can only see what `E` reaches: its chain of parents, and, through
every function bound in a reachable frame, the frame that function was defined in, and so on
(`Store.Reaches`). This file shows that evaluation depends on nothing else and changes nothing
else:

* run from a well-formed store, it leaves every frame that `E` does not reach exactly as it was;
* run from any other store that holds the same frames at the indices `E` reaches, it gives the
  same value or fault, prints the same text and leaves the same bindings in the reachable frames,
  once the frames each run makes are matched in the order they are made (`freshRenaming`).

In particular a function call never reads or writes a binding of its caller's frame unless that
frame is reachable from the frame the function was defined in.

The proof runs the two evaluations side by side (`Eval.Lockstep`) under one invariant,
`Mirror`: every frame in view (reachable, or made during the run) has its renamed copy in the
other run's store and refers only to frames in view, and frames out of view are untouched.

## Main statements

* `Store.Mirror`: the invariant, with one lemma for each store operation.
* `Eval.lockstep_mirror`: every evaluation function keeps it, by induction on the fuel.
* `evaluation_is_local`: the statement for every expression and statement.
-/

set_option autoImplicit false

namespace Scriptlet

/-! ## The frame a value keeps, and renaming it -/

namespace Value

/-- The frame a value keeps alive: the frame a function was defined in. -/
def scope? : Value → Option FrameId
  | .closure _ _ c => some c
  | _ => none

/-- The value with the frame it keeps renamed by `ρ`. -/
def rename (ρ : FrameId → FrameId) : Value → Value
  | .closure ps b c => .closure ps b (ρ c)
  | v => v

variable (ρ : FrameId → FrameId) (v : Value)

@[simp] theorem rename_null : Value.null.rename ρ = .null := rfl

@[simp] theorem rename_num (x : Float) : (Value.num x).rename ρ = .num x := rfl

@[simp] theorem rename_bool (b : Bool) : (Value.bool b).rename ρ = .bool b := rfl

@[simp] theorem type_rename : (v.rename ρ).type = v.type := by
  cases v <;> rfl

@[simp] theorem display_rename : (v.rename ρ).display = v.display := by
  cases v <;> rfl

@[simp] theorem isCallable_rename : (v.rename ρ).isCallable = v.isCallable := by
  cases v <;> rfl

@[simp] theorem displayDepth_rename : displayDepth (v.rename ρ) = displayDepth v := by
  cases v <;> rfl

theorem scope?_rename : (v.rename ρ).scope? = v.scope?.map ρ := by
  cases v <;> rfl

/-- Renaming a value that keeps no frame, or keeps one `ρ` fixes, changes nothing. -/
theorem rename_of_fixed (h : ∀ c, v.scope? = some c → ρ c = c) : v.rename ρ = v := by
  cases v with
  | closure ps b c => simp [rename, h c rfl]
  | _ => rfl

end Value

/-- A binding with the frame its value keeps renamed. -/
def Binding.rename (ρ : FrameId → FrameId) (b : Binding) : Binding :=
  { b with value := b.value.rename ρ }

/-- A frame with its parent and the frames its values keep renamed. -/
def Frame.rename (ρ : FrameId → FrameId) (f : Frame) : Frame :=
  ⟨f.bindings.map (Binding.rename ρ), f.parent.map ρ⟩

namespace Frame

variable (ρ : FrameId → FrameId) (f : Frame) (n : String)

@[simp] theorem parent_rename : (f.rename ρ).parent = f.parent.map ρ := rfl

@[simp] theorem binds_rename : (f.rename ρ).binds n = f.binds n := by
  simp [rename, binds, Binding.rename, Function.comp_def]

@[simp] theorem bindsConstant_rename : (f.rename ρ).bindsConstant n = f.bindsConstant n := by
  simp [rename, bindsConstant, Binding.rename, Function.comp_def]

theorem get?_rename : (f.rename ρ).get? n = (f.get? n).map (Binding.rename ρ) := by
  simp [rename, get?, List.find?_map, Binding.rename, Function.comp_def]

theorem set_rename (v : Value) : (f.set n v).rename ρ = (f.rename ρ).set n (v.rename ρ) := by
  simp only [rename, set, List.map_map, Frame.mk.injEq, and_true]
  refine List.map_congr_left fun b _ => ?_
  by_cases h : b.name = n <;> simp [Binding.rename, h]

/-- Renaming a frame whose parent and kept frames `ρ` fixes changes nothing. -/
theorem rename_of_fixed (hp : ∀ p, f.parent = some p → ρ p = p)
    (hb : ∀ b ∈ f.bindings, ∀ c, b.value.scope? = some c → ρ c = c) : f.rename ρ = f := by
  obtain ⟨bs, parent⟩ := f
  simp only [rename, Frame.mk.injEq]
  constructor
  · refine (List.map_congr_left fun b hb' => ?_).trans (List.map_id bs)
    simp only [Binding.rename, Value.rename_of_fixed ρ b.value (hb b hb'), id]
  · cases parent with
    | none => rfl
    | some p => simp [hp p rfl]

theorem push_rename (v : Value) (c : Bool) :
    ({ f with bindings := f.bindings ++ [⟨n, v, c⟩] } : Frame).rename ρ =
      { f.rename ρ with bindings := (f.rename ρ).bindings ++ [⟨n, v.rename ρ, c⟩] } := by
  simp [rename, Binding.rename]

end Frame

/-! ## Reachable frames -/

namespace Store

/-- A well-formed store: every parent is older than its child, and every function bound in a
frame keeps a frame that exists. Frames of the original are objects that refer to each other,
so every store it can build is of this kind. -/
def WellFormed (s : Store) : Prop :=
  ∀ i f, s.frame? i = some f → (∀ p, f.parent = some p → p < i) ∧
    ∀ b ∈ f.bindings, ∀ c, b.value.scope? = some c → c < s.frames.size

/-- The frames reachable from frame `i`: `i` itself, the parent of a reachable frame, and the
frame kept by a function bound in a reachable frame. -/
inductive Reaches (s : Store) (i : FrameId) : FrameId → Prop
  | refl : Reaches s i i
  | parent {j : FrameId} {f : Frame} {p : FrameId} :
      Reaches s i j → s.frame? j = some f → f.parent = some p → Reaches s i p
  | kept {j : FrameId} {f : Frame} {b : Binding} {c : FrameId} :
      Reaches s i j → s.frame? j = some f → b ∈ f.bindings → b.value.scope? = some c →
        Reaches s i c

/-- In a well-formed store, the frames reachable from a frame that exists exist. -/
theorem Reaches.lt_size {s : Store} {i j : FrameId} (hs : s.WellFormed)
    (hi : i < s.frames.size) (h : s.Reaches i j) : j < s.frames.size := by
  induction h with
  | refl => exact hi
  | @parent j f p _ hf hp ih =>
    exact Nat.lt_trans ((hs j f hf).1 p hp) ih
  | kept _ hf hb hc _ => exact (hs _ _ hf).2 _ hb _ hc

end Store

/-! ## Matching the frames two runs make -/

/-- Frames below `n₁` keep their index; the frame made `k`-th after `n₁` in one run is matched
with the frame made `k`-th after `n₂` in the other. -/
def freshRenaming (n₁ n₂ : Nat) (i : FrameId) : FrameId := if i < n₁ then i else i - n₁ + n₂

theorem freshRenaming_of_lt {n₁ n₂ i : Nat} (h : i < n₁) : freshRenaming n₁ n₂ i = i := by
  simp [freshRenaming, h]

theorem freshRenaming_of_le {n₁ n₂ i : Nat} (h : n₁ ≤ i) :
    freshRenaming n₁ n₂ i = i - n₁ + n₂ := by
  simp [freshRenaming, Nat.not_lt.2 h]

namespace Store

/-- The matching of the frames made by a run from `s` with those made by a run from `s₂`. -/
def matching (s s₂ : Store) : FrameId → FrameId := freshRenaming s.frames.size s₂.frames.size

/-- The frames a run from `s` that starts in view of the frames `R` may see: those of `R`, and
every frame made after the start. -/
def InView (s : Store) (R : FrameId → Prop) (i : FrameId) : Prop := R i ∨ s.frames.size ≤ i

/-! ## The invariant of two runs -/

/-- Two machines reached by runs from `s` and from `s₂` that started in view of `R`. -/
structure Mirror (s s₂ : Store) (R : FrameId → Prop) (m₁ m₂ : Machine) : Prop where
  /-- The frames of `R` exist in both starting stores. -/
  old : ∀ i, R i → i < s.frames.size ∧ i < s₂.frames.size
  /-- The first run only added frames. -/
  grown : s.frames.size ≤ m₁.store.frames.size
  /-- Both runs added the same number of frames. -/
  sizes : m₂.store.frames.size + s.frames.size = m₁.store.frames.size + s₂.frames.size
  /-- Every frame in view has its renamed copy in the other store. -/
  copies : ∀ i, s.InView R i →
    m₂.store.frame? (s.matching s₂ i) = (m₁.store.frame? i).map (Frame.rename (s.matching s₂))
  /-- Frames in view refer only to frames in view. -/
  closed : ∀ i f, s.InView R i → m₁.store.frame? i = some f →
    (∀ p, f.parent = some p → s.InView R p) ∧
      ∀ b ∈ f.bindings, ∀ c, b.value.scope? = some c → s.InView R c
  /-- Frames out of view are as they were at the start. -/
  untouched : ∀ i, i < s.frames.size → ¬ R i → m₁.store.frame? i = s.frame? i
  /-- Both runs printed the same text. -/
  printed : m₂.printed = m₁.printed

/-- Values of the two runs that correspond: the second is the first renamed, and the first keeps
only a frame in view. -/
def Mirrored (s s₂ : Store) (R : FrameId → Prop) (v₁ v₂ : Value) : Prop :=
  v₂ = v₁.rename (s.matching s₂) ∧ ∀ c, v₁.scope? = some c → s.InView R c

section Mirror

variable {s s₂ : Store} {R : FrameId → Prop} {m₁ m₂ : Machine}

/-- The matching keeps the order of the frames in view: old frames stay below the new ones. -/
theorem Mirror.matching_lt_iff (h : Mirror s s₂ R m₁ m₂) {i j : FrameId} (hi : s.InView R i)
    (hj : s.InView R j) : s.matching s₂ i < s.matching s₂ j ↔ i < j := by
  simp only [matching, InView] at *
  -- old frames keep their index and lie below every new frame on both sides
  rcases hi with hi | hi <;> rcases hj with hj | hj
  · rw [freshRenaming_of_lt (h.old i hi).1, freshRenaming_of_lt (h.old j hj).1]
  · have := h.old i hi
    rw [freshRenaming_of_lt this.1, freshRenaming_of_le hj]
    dsimp only [FrameId] at *
    omega
  · have := h.old j hj
    rw [freshRenaming_of_le hi, freshRenaming_of_lt this.1]
    dsimp only [FrameId] at *
    omega
  · rw [freshRenaming_of_le hi, freshRenaming_of_le hj]
    dsimp only [FrameId] at *
    omega

/-- The chain from a frame in view stays in view, and its copy is the chain from the copy. -/
theorem Mirror.chain (h : Mirror s s₂ R m₁ m₂) (i : FrameId) (hi : s.InView R i) :
    m₂.store.chain (s.matching s₂ i) = (m₁.store.chain i).map (s.matching s₂) ∧
      ∀ j ∈ m₁.store.chain i, s.InView R j := by
  induction i using Nat.strong_induction_on with
  | _ i ih =>
    rw [chain_eq m₂.store, chain_eq m₁.store, h.copies i hi]
    cases hf : m₁.store.frame? i with
    | none => simp
    | some f =>
      have hparent := (h.closed i f hi hf).1
      cases hp : f.parent with
      | none => simp [hp, hi]
      | some p =>
        have hpv := hparent p hp
        by_cases hpi : p < i
        · obtain ⟨hc, hv⟩ := ih p hpi hpv
          simp only [Option.map_some, Frame.parent_rename, hp, if_pos hpi,
            if_pos ((h.matching_lt_iff hpv hi).2 hpi), hc, List.map_cons, List.mem_cons, true_and]
          rintro j (rfl | hj)
          · exact hi
          · exact hv j hj
        · simp only [Option.map_some, Frame.parent_rename, hp, if_neg hpi,
            if_neg (mt (h.matching_lt_iff hpv hi).1 hpi), List.map_cons, List.map_nil,
            List.mem_cons, List.not_mem_nil, or_false, true_and]
          rintro j rfl
          exact hi

/-- The nearest frame binding a name is found at the copy of the frame found in the first run. -/
theorem Mirror.find (h : Mirror s s₂ R m₁ m₂) {i : FrameId} (hi : s.InView R i) (n : String) :
    m₂.store.find (s.matching s₂ i) n = (m₁.store.find i n).map (s.matching s₂) ∧
      ∀ j, m₁.store.find i n = some j → s.InView R j := by
  obtain ⟨hc, hv⟩ := h.chain i hi
  refine ⟨?_, fun j hj => hv j (List.mem_of_find?_eq_some hj)⟩
  simp only [Store.find, hc, List.find?_map]
  congr 1
  refine List.find?_congr fun j hj => ?_
  simp only [Function.comp_apply, h.copies j (hv j hj)]
  cases m₁.store.frame? j <;> simp

/-- Reading a name from the copy of a frame gives the renamed value. -/
theorem Mirror.lookup (h : Mirror s s₂ R m₁ m₂) {i : FrameId} (hi : s.InView R i) (n : String) :
    m₂.store.lookup (s.matching s₂ i) n = (m₁.store.lookup i n).map (Value.rename (s.matching s₂)) ∧
      ∀ v, m₁.store.lookup i n = .ok v → ∀ c, v.scope? = some c → s.InView R c := by
  obtain ⟨hfind, hv⟩ := h.find hi n
  simp only [Store.lookup, hfind]
  cases hj : m₁.store.find i n with
  | none => simp [Except.map]
  | some j =>
    have hjv := hv j hj
    simp only [Option.map_some, h.copies j hjv]
    cases hf : m₁.store.frame? j with
    | none => simp [Except.map]
    | some f =>
      simp only [Option.map_some, Option.bind_some, Frame.get?_rename]
      cases hb : f.get? n with
      | none => simp [Except.map]
      | some b =>
        refine ⟨rfl, ?_⟩
        rintro v ⟨⟩ c hc
        exact (h.closed j f hjv hf).2 b (List.mem_of_find?_eq_some hb) c hc

theorem Mirror.has (h : Mirror s s₂ R m₁ m₂) {i : FrameId} (hi : s.InView R i) (n : String) :
    m₂.store.has (s.matching s₂ i) n = m₁.store.has i n := by
  simp only [Store.has, h.copies i hi]
  cases m₁.store.frame? i <;> simp

/-- The constant marks along the chain are those along the copy of the chain. -/
theorem Mirror.constantAlong (h : Mirror s s₂ R m₁ m₂) {i : FrameId} (hi : s.InView R i)
    (n : String) : m₂.store.constantAlong (s.matching s₂ i) n = m₁.store.constantAlong i n := by
  obtain ⟨hc, hv⟩ := h.chain i hi
  have hsame : ∀ j ∈ m₁.store.chain i,
      (m₂.store.frame? (s.matching s₂ j)).any (·.bindsConstant n) =
        (m₁.store.frame? j).any (·.bindsConstant n) := by
    intro j hj
    rw [h.copies j (hv j hj)]
    cases m₁.store.frame? j <;> simp
  simp only [Store.constantAlong, hc, List.any_map, Function.comp_def]
  rw [Bool.eq_iff_iff, List.any_eq_true, List.any_eq_true]
  constructor
  · rintro ⟨j, hj, hk⟩
    exact ⟨j, hj, hsame j hj ▸ hk⟩
  · rintro ⟨j, hj, hk⟩
    exact ⟨j, hj, (hsame j hj).symm ▸ hk⟩

/-- Assignment from the copy of a frame changes the copy of the frame the first run changes, or
fails alike. -/
theorem Mirror.assignTarget (h : Mirror s s₂ R m₁ m₂) {i : FrameId} (hi : s.InView R i)
    (n : String) :
    m₂.store.assignTarget (s.matching s₂ i) n = (m₁.store.assignTarget i n).map (s.matching s₂) ∧
      ∀ j, m₁.store.assignTarget i n = .ok j → s.InView R j := by
  obtain ⟨hfind, hv⟩ := h.find hi n
  simp only [Store.assignTarget, hfind, h.constantAlong hi n]
  cases hj : m₁.store.find i n with
  | none => simp [Except.map]
  | some j =>
    by_cases hk : m₁.store.constantAlong i n = true
    · simp [hk, Except.map]
    · simp only [Option.map_some, hk]
      exact ⟨rfl, fun j' hj' => by cases hj'; exact hv j hj⟩

theorem Mirror.matching_inj (h : Mirror s s₂ R m₁ m₂) {i j : FrameId} (hi : s.InView R i)
    (hj : s.InView R j) : s.matching s₂ i = s.matching s₂ j ↔ i = j := by
  have h₁ := h.matching_lt_iff hi hj
  have h₂ := h.matching_lt_iff hj hi
  constructor
  · intro he
    rw [he] at h₁ h₂
    dsimp only [FrameId] at *
    omega
  · rintro rfl
    rfl

/-- The next frame of the second run is the copy of the next frame of the first. -/
theorem Mirror.matching_size (h : Mirror s s₂ R m₁ m₂) :
    s.matching s₂ m₁.store.frames.size = m₂.store.frames.size := by
  rw [matching, freshRenaming_of_le h.grown]
  have := h.sizes
  have := h.grown
  dsimp only [FrameId]
  omega

/-- Binding a name in a frame in view, to values that correspond, keeps the runs in step. -/
theorem Mirror.bind (h : Mirror s s₂ R m₁ m₂) {i : FrameId} (hi : s.InView R i) {v₁ v₂ : Value}
    (hv : Mirrored s s₂ R v₁ v₂) (n : String) (c : Bool) :
    Mirror s s₂ R ⟨m₁.store.bind i n v₁ c, m₁.printed⟩ ⟨m₂.store.bind (s.matching s₂ i) n v₂ c,
      m₂.printed⟩ where
  old := h.old
  grown := by simpa using h.grown
  sizes := by simpa using h.sizes
  copies k hk := by
    simp only [frame?_bind, h.matching_inj hi hk, h.copies k hk]
    split
    · cases m₁.store.frame? k <;> simp [Frame.push_rename, hv.1]
    · rfl
  closed k f hk hf := by
    simp only [frame?_bind] at hf
    split at hf
    · subst k
      cases hf₀ : m₁.store.frame? i with
      | none => simp [hf₀] at hf
      | some f₀ =>
        simp only [hf₀, Option.map_some, Option.some.injEq] at hf
        subst hf
        have hcl := h.closed i f₀ hi hf₀
        refine ⟨hcl.1, fun b hb c hc => ?_⟩
        rcases List.mem_append.1 hb with hb | hb
        · exact hcl.2 b hb c hc
        · simp only [List.mem_singleton] at hb
          subst hb
          exact hv.2 c hc
    · exact h.closed k f hk hf
  untouched k hk hR := by
    have hik : i ≠ k := by
      rintro rfl
      rcases hi with hi | hi
      · exact hR hi
      · omega
    simp only [frame?_bind, if_neg hik]
    exact h.untouched k hk hR
  printed := h.printed

/-- Setting a name in a frame in view, to values that correspond, keeps the runs in step. -/
theorem Mirror.update (h : Mirror s s₂ R m₁ m₂) {j : FrameId} (hj : s.InView R j)
    {v₁ v₂ : Value} (hv : Mirrored s s₂ R v₁ v₂) (n : String) :
    Mirror s s₂ R ⟨m₁.store.update j n v₁, m₁.printed⟩
      ⟨m₂.store.update (s.matching s₂ j) n v₂, m₂.printed⟩ where
  old := h.old
  grown := by simpa using h.grown
  sizes := by simpa using h.sizes
  copies k hk := by
    simp only [frame?_update, h.matching_inj hj hk, h.copies k hk]
    split
    · cases m₁.store.frame? k <;> simp [Frame.set_rename, hv.1]
    · rfl
  closed k f hk hf := by
    simp only [frame?_update] at hf
    split at hf
    · subst k
      cases hf₀ : m₁.store.frame? j with
      | none => simp [hf₀] at hf
      | some f₀ =>
        simp only [hf₀, Option.map_some, Option.some.injEq] at hf
        subst hf
        have hcl := h.closed j f₀ hj hf₀
        refine ⟨hcl.1, fun b hb c hc => ?_⟩
        simp only [Frame.set, List.mem_map] at hb
        obtain ⟨b₀, hb₀, rfl⟩ := hb
        split at hc
        · exact hv.2 c hc
        · exact hcl.2 b₀ hb₀ c hc
    · exact h.closed k f hk hf
  untouched k hk hR := by
    have hjk : j ≠ k := by
      rintro rfl
      rcases hj with hj | hj
      · exact hR hj
      · omega
    simp only [frame?_update, if_neg hjk]
    exact h.untouched k hk hR
  printed := h.printed

/-- Making a frame under a frame in view, in both runs, keeps them in step; the new frame is in
view and the second run's is its copy. -/
theorem Mirror.alloc (h : Mirror s s₂ R m₁ m₂) {p : FrameId} (hp : s.InView R p) :
    Mirror s s₂ R ⟨(m₁.store.alloc p).1, m₁.printed⟩
      ⟨(m₂.store.alloc (s.matching s₂ p)).1, m₂.printed⟩ where
  old := h.old
  grown := by simp only [size_alloc]; have := h.grown; omega
  sizes := by simp only [size_alloc]; have := h.sizes; omega
  copies k hk := by
    have hsize := h.matching_size
    have hnew : s.InView R m₁.store.frames.size := Or.inr h.grown
    simp only [frame?_alloc]
    by_cases hk₁ : k = m₁.store.frames.size
    · subst hk₁
      simp [hsize, Frame.rename]
    · have hk₂ : s.matching s₂ k ≠ m₂.store.frames.size := by
        rw [← hsize]; exact mt (h.matching_inj hk hnew).1 hk₁
      rw [if_neg hk₁, if_neg hk₂, h.copies k hk]
  closed k f hk hf := by
    simp only [frame?_alloc] at hf
    split at hf
    · cases hf
      exact ⟨fun q hq => by cases hq; exact hp, by simp⟩
    · exact h.closed k f hk hf
  untouched k hk hR := by
    have : k ≠ m₁.store.frames.size := by have := h.grown; omega
    simp only [frame?_alloc, if_neg this]
    exact h.untouched k hk hR
  printed := h.printed

theorem Mirror.emit (h : Mirror s s₂ R m₁ m₂) (text : String) :
    Mirror s s₂ R ⟨m₁.store, m₁.printed ++ text⟩ ⟨m₂.store, m₂.printed ++ text⟩ :=
  { h with printed := by simp [h.printed] }

/-- Corresponding lists of values are the renamed list. -/
theorem mirrored_list {vs₁ vs₂ : List Value} (h : List.Forall₂ (Mirrored s s₂ R) vs₁ vs₂) :
    vs₂ = vs₁.map (Value.rename (s.matching s₂)) := by
  induction h with
  | nil => rfl
  | cons hv _ ih => simp [hv.1, ih]

theorem mirrored_self_of_scope {v : Value} (hv : v.scope? = none) : Mirrored s s₂ R v v :=
  ⟨(Value.rename_of_fixed _ v fun c hc => by simp [hv] at hc).symm, fun c hc => by simp [hv] at hc⟩

theorem mirrored_null : Mirrored s s₂ R .null .null := mirrored_self_of_scope rfl

end Mirror

end Store

/-! ## Operators ignore the frames values keep -/

theorem binaryValue_rename (ρ : FrameId → FrameId) (op : Syntax.BinOp) (a b : Value) :
    binaryValue op (a.rename ρ) (b.rename ρ) = binaryValue op a b := by
  simp only [binaryValue, Value.type_rename]
  cases a <;> cases b <;> rfl

theorem binaryValue_scope {op : Syntax.BinOp} {a b v : Value} (h : binaryValue op a b = .ok v) :
    v.scope? = none := by
  unfold binaryValue at h
  split at h
  case h_6 =>
    -- only two numbers give a value, a number or a boolean
    split at h
    · split at h <;> cases h <;> rfl
    · cases h
  all_goals cases h

theorem unaryValue_rename (ρ : FrameId → FrameId) (sg : Syntax.Sign) (a : Value) :
    unaryValue sg (a.rename ρ) = unaryValue sg a := by
  cases a <;> rfl

theorem unaryValue_scope {sg : Syntax.Sign} {a v : Value} (h : unaryValue sg a = .ok v) :
    v.scope? = none := by
  cases a <;> simp [unaryValue] at h
  subst h
  rfl

/-! ## The steps of evaluation, in step -/

namespace Eval

open Store Syntax

variable {s s₂ : Store} {R : FrameId → Prop}

/-- Both runs make their next frame, the second run's the copy of the first's. -/
theorem lockstep_newFrame {p : FrameId} (hp : s.InView R p) :
    Lockstep (Mirror s s₂ R) (fun i j => j = s.matching s₂ i ∧ s.InView R i) (newFrame p)
      (newFrame (s.matching s₂ p)) := by
  refine Lockstep.update fun ⟨st₁, out₁⟩ ⟨st₂, out₂⟩ h => ?_
  exact ⟨⟨h.matching_size.symm, Or.inr h.grown⟩, h.alloc hp⟩

theorem lockstep_emit (text : String) :
    Lockstep (Mirror s s₂ R) (fun _ _ => True) (emit text) (emit text) :=
  Lockstep.write fun ⟨_, _⟩ ⟨_, _⟩ h => h.emit text

variable [NestingLimit]

/-- A condition is tested alike on corresponding values. -/
theorem lockstep_truth (d : Nat) {v₁ v₂ : Value} (hv : Mirrored s s₂ R v₁ v₂) :
    Lockstep (Mirror s s₂ R) (· = ·) (truth d v₁) (truth d v₂) := by
  obtain ⟨rfl, -⟩ := hv
  refine Lockstep.bind Lockstep.reached fun _ _ _ => ?_
  cases v₁ with
  | bool b => exact Lockstep.ret rfl
  | _ =>
    exact Lockstep.bind Lockstep.reached fun _ _ _ => by
      simpa only [Value.type_rename] using Lockstep.fault

/-- Parameters are bound alike in a frame in view and in its copy. -/
theorem lockstep_bindParams (d : Nat) {i : FrameId} (hi : s.InView R i) :
    ∀ (ps : List String) {vs₁ vs₂ : List Value}, List.Forall₂ (Mirrored s s₂ R) vs₁ vs₂ →
      Lockstep (Mirror s s₂ R) (fun _ _ => True) (bindParams d i ps vs₁)
        (bindParams d (s.matching s₂ i) ps vs₂)
  | [], _, _, _ => Lockstep.ret trivial
  | p :: ps, vs₁, vs₂, hvs => by
    simp only [bindParams]
    refine Lockstep.bind Lockstep.reached fun _ _ _ => Lockstep.read fun m₁ m₂ h => ?_
    -- the argument bound and the rest of the arguments, on both sides
    have hhead : Mirrored s s₂ R (vs₁.headD .null) (vs₂.headD .null) := by
      cases hvs with
      | nil => exact ⟨rfl, by simp [Value.scope?]⟩
      | cons hv _ => exact hv
    have htail : List.Forall₂ (Mirrored s s₂ R) vs₁.tail vs₂.tail := by
      cases hvs with
      | nil => exact .nil
      | cons _ hr => exact hr
    have hrest : Lockstep (Mirror s s₂ R) (fun _ _ => True)
        (modify (fun x => ⟨x.store.bind i p (vs₁.headD .null) false, x.printed⟩) >>= fun _ =>
          bindParams d i ps vs₁.tail)
        (modify (fun x => ⟨x.store.bind (s.matching s₂ i) p (vs₂.headD .null) false, x.printed⟩)
          >>= fun _ => bindParams d (s.matching s₂ i) ps vs₂.tail) :=
      Lockstep.bind (Lockstep.write fun ⟨_, _⟩ ⟨_, _⟩ h => h.bind hi hhead p false)
        fun _ _ _ => lockstep_bindParams d hi ps htail
    refine Lockstep.cond (by rw [h.has hi]) (fun _ => ?_) fun _ => hrest
    exact Lockstep.bind Lockstep.reached fun _ _ _ =>
      Lockstep.bind (Lockstep.fault : Lockstep _ (fun _ _ => True) _ _) fun _ _ _ => hrest

/-- A host function gives corresponding results on corresponding arguments, and prints the
same. -/
theorem lockstep_native (d : Nat) (action : NativeAction) {vs₁ vs₂ : List Value}
    (hvs : List.Forall₂ (Mirrored s s₂ R) vs₁ vs₂) :
    Lockstep (Mirror s s₂ R) (Mirrored s s₂ R) (native d action vs₁) (native d action vs₂) := by
  have hmap := mirrored_list hvs
  subst hmap
  simp only [native]
  refine Lockstep.bind Lockstep.reached fun _ _ _ => ?_
  cases action with
  | print =>
    simp only [List.map_map, Function.comp_def, Value.display_rename, Value.displayDepth_rename,
      List.isEmpty_map]
    have hprint : Lockstep (Mirror s s₂ R) (Mirrored s s₂ R)
        (emit (" ".intercalate (vs₁.map Value.display) ++ "\n") >>= fun _ => pure .null)
        (emit (" ".intercalate (vs₁.map Value.display) ++ "\n") >>= fun _ => pure .null) :=
      Lockstep.bind (lockstep_emit _) fun _ _ _ => Lockstep.ret (mirrored_self_of_scope rfl)
    refine Lockstep.bind Lockstep.reached fun _ _ _ =>
      Lockstep.cond Iff.rfl (fun _ => ?_) fun _ => hprint
    exact Lockstep.bind Lockstep.reached fun _ _ _ => hprint
  | returnNothing =>
    exact Lockstep.bind Lockstep.reached fun _ _ _ => Lockstep.ret (mirrored_self_of_scope rfl)
  | countArgs =>
    simp only [List.length_map]
    exact Lockstep.bind Lockstep.reached fun _ _ _ => Lockstep.ret (mirrored_self_of_scope rfl)
  | firstArg =>
    refine Lockstep.bind Lockstep.reached fun _ _ _ => Lockstep.ret ?_
    cases hvs with
    | nil => exact mirrored_self_of_scope rfl
    | cons hv _ => simpa [hv.1] using hv
  | lastArg =>
    refine Lockstep.bind Lockstep.reached fun _ _ _ => Lockstep.ret ?_
    have hall := List.forall₂_same.1 (List.forall₂_map_right_iff.1 hvs)
    simp only [List.getLastD_eq_getLast?, List.getLast?_map]
    cases hl : vs₁.getLast? with
    | none => exact mirrored_self_of_scope rfl
    | some v => exact hall v (List.mem_of_getLast? hl)

/-! ## Every evaluation function, in step -/

/-- With `fuel` steps left, every evaluation function runs in step from a frame in view and its
copy, and from corresponding values. -/
structure InStep (s s₂ : Store) (R : FrameId → Prop) (fuel : Nat) : Prop where
  expr : ∀ d sc e, s.InView R sc → Lockstep (Mirror s s₂ R) (Mirrored s s₂ R)
    (Eval.expr fuel d sc e) (Eval.expr fuel d (s.matching s₂ sc) e)
  exprs : ∀ d sc es, s.InView R sc → Lockstep (Mirror s s₂ R) (List.Forall₂ (Mirrored s s₂ R))
    (Eval.exprs fuel d sc es) (Eval.exprs fuel d (s.matching s₂ sc) es)
  apply : ∀ d f₁ f₂ vs₁ vs₂, Mirrored s s₂ R f₁ f₂ → List.Forall₂ (Mirrored s s₂ R) vs₁ vs₂ →
    Lockstep (Mirror s s₂ R) (Mirrored s s₂ R) (Eval.apply fuel d f₁ vs₁) (Eval.apply fuel d f₂ vs₂)
  stmt : ∀ d sc st, s.InView R sc → Lockstep (Mirror s s₂ R) (Mirrored s s₂ R)
    (Eval.stmt fuel d sc st) (Eval.stmt fuel d (s.matching s₂ sc) st)
  branch : ∀ d sc st, s.InView R sc → Lockstep (Mirror s s₂ R) (Mirrored s s₂ R)
    (Eval.branch fuel d sc st) (Eval.branch fuel d (s.matching s₂ sc) st)
  loop : ∀ d sc c b l₁ l₂, s.InView R sc → Mirrored s s₂ R l₁ l₂ →
    Lockstep (Mirror s s₂ R) (Mirrored s s₂ R)
      (Eval.loop fuel d sc c b l₁) (Eval.loop fuel d (s.matching s₂ sc) c b l₂)
  body : ∀ d sc sts l₁ l₂, s.InView R sc → Mirrored s s₂ R l₁ l₂ →
    Lockstep (Mirror s s₂ R) (Mirrored s s₂ R)
      (Eval.body fuel d sc sts l₁) (Eval.body fuel d (s.matching s₂ sc) sts l₂)

theorem inStep_zero : InStep s s₂ R 0 where
  expr _ _ _ _ := by simp only [Eval.expr]; exact Lockstep.raise
  exprs _ _ _ _ := by simp only [Eval.exprs]; exact Lockstep.raise
  apply _ _ _ _ _ _ _ := by simp only [Eval.apply]; exact Lockstep.raise
  stmt _ _ _ _ := by simp only [Eval.stmt]; exact Lockstep.raise
  branch _ _ _ _ := by simp only [Eval.branch]; exact Lockstep.raise
  loop _ _ _ _ _ _ _ _ := by simp only [Eval.loop]; exact Lockstep.raise
  body _ _ _ _ _ _ _ := by simp only [Eval.body]; exact Lockstep.raise

/-- A declaration binds alike in a frame in view and in its copy. -/
theorem lockstep_declare (d : Nat) {sc : FrameId} (hsc : s.InView R sc) (x : String)
    {v₁ v₂ : Value} (hv : Mirrored s s₂ R v₁ v₂) :
    Lockstep (Mirror s s₂ R) (Mirrored s s₂ R)
      (do
        reach (d + 2)
        if (← get).store.has sc x then
          reach (d + 5)
          fail (.alreadyDefined x)
        modify fun m => ⟨m.store.bind sc x v₁ false, m.printed⟩
        return v₁)
      (do
        reach (d + 2)
        if (← get).store.has (s.matching s₂ sc) x then
          reach (d + 5)
          fail (.alreadyDefined x)
        modify fun m => ⟨m.store.bind (s.matching s₂ sc) x v₂ false, m.printed⟩
        return v₂) := by
  have hrest : Lockstep (Mirror s s₂ R) (Mirrored s s₂ R)
      (modify (fun m => ⟨m.store.bind sc x v₁ false, m.printed⟩) >>= fun _ => pure v₁)
      (modify (fun m => ⟨m.store.bind (s.matching s₂ sc) x v₂ false, m.printed⟩) >>= fun _ =>
        pure v₂) :=
    Lockstep.bind (Lockstep.write fun ⟨_, _⟩ ⟨_, _⟩ h => h.bind hsc hv x false)
      fun _ _ _ => Lockstep.ret hv
  refine Lockstep.bind Lockstep.reached fun _ _ _ => Lockstep.read fun m₁ m₂ h => ?_
  exact Lockstep.cond (by rw [h.has hsc]) (fun _ => Lockstep.bind Lockstep.reached
    fun _ _ _ => Lockstep.bind (Lockstep.fault : Lockstep _ (fun _ _ => True) _ _)
      fun _ _ _ => hrest) fun _ => hrest

section Succ

variable {n : Nat} (ih : InStep s s₂ R n)
include ih

theorem lockstep_expr_succ (d : Nat) {sc : FrameId} (hsc : s.InView R sc) (e : Expr) :
    Lockstep (Mirror s s₂ R) (Mirrored s s₂ R) (Eval.expr (n + 1) d sc e)
      (Eval.expr (n + 1) d (s.matching s₂ sc) e) := by
  cases e with
  | ident x =>
    simp only [Eval.expr]
    refine Lockstep.bind Lockstep.reached fun _ _ _ => Lockstep.bind Lockstep.reached
      fun _ _ _ => Lockstep.read fun m₁ m₂ h => ?_
    obtain ⟨hl, hv⟩ := h.lookup hsc x
    rw [hl]
    cases hx : m₁.store.lookup sc x with
    | ok v => exact Lockstep.ret ⟨rfl, hv v hx⟩
    | error f => exact Lockstep.bind Lockstep.reached fun _ _ _ => Lockstep.fault
  | num text form pos =>
    simp only [Eval.expr]
    exact Lockstep.bind Lockstep.reached fun _ _ _ => Lockstep.bind Lockstep.reached
      fun _ _ _ => Lockstep.ret (mirrored_self_of_scope rfl)
  | str t =>
    simp only [Eval.expr]
    exact Lockstep.bind Lockstep.reached fun _ _ _ => Lockstep.bind Lockstep.reached
      fun _ _ _ => Lockstep.ret (mirrored_self_of_scope rfl)
  | binary op pos l r =>
    simp only [Eval.expr]
    refine Lockstep.bind Lockstep.reached fun _ _ _ => Lockstep.bind Lockstep.reached
      fun _ _ _ => Lockstep.bind (ih.expr _ _ l hsc) fun a₁ a₂ ha =>
        Lockstep.bind (ih.expr _ _ r hsc) fun b₁ b₂ hb => Lockstep.bind Lockstep.reached
          fun _ _ _ => ?_
    obtain ⟨rfl, -⟩ := ha
    obtain ⟨rfl, -⟩ := hb
    rw [binaryValue_rename]
    have hval : Lockstep (Mirror s s₂ R) (Mirrored s s₂ R) (ofExcept (binaryValue op a₁ b₁))
        (ofExcept (binaryValue op a₁ b₁)) :=
      Lockstep.ofExcept_self fun v hv => mirrored_self_of_scope (binaryValue_scope hv)
    refine Lockstep.bind hval fun v₁ v₂ hv => ?_
    -- a number result is checked once more, on both sides
    refine Lockstep.cond ?_ (fun _ => Lockstep.bind Lockstep.reached fun _ _ _ => Lockstep.ret hv)
      fun _ => Lockstep.ret hv
    rw [hv.1]
    cases v₁ <;> exact Iff.rfl
  | unary sg pos x =>
    simp only [Eval.expr]
    refine Lockstep.bind Lockstep.reached fun _ _ _ => Lockstep.bind Lockstep.reached
      fun _ _ _ => Lockstep.bind (ih.expr _ _ x hsc) fun a₁ a₂ ha =>
        Lockstep.bind Lockstep.reached fun _ _ _ => ?_
    obtain ⟨rfl, -⟩ := ha
    rw [unaryValue_rename]
    have hval : Lockstep (Mirror s s₂ R) (Mirrored s s₂ R) (ofExcept (unaryValue sg a₁))
        (ofExcept (unaryValue sg a₁)) :=
      Lockstep.ofExcept_self fun v hv => mirrored_self_of_scope (unaryValue_scope hv)
    exact Lockstep.bind hval fun v₁ v₂ hv =>
      Lockstep.bind Lockstep.reached fun _ _ _ => Lockstep.ret hv
  | assign t v =>
    cases t
    case ident x =>
      simp only [Eval.expr]
      refine Lockstep.bind Lockstep.reached fun _ _ _ => Lockstep.bind Lockstep.reached
        fun _ _ _ => Lockstep.bind (ih.expr _ _ v hsc) fun v₁ v₂ hv =>
          Lockstep.bind Lockstep.reached fun _ _ _ => Lockstep.read fun m₁ m₂ h => ?_
      obtain ⟨ha, hj⟩ := h.assignTarget hsc x
      rw [ha]
      cases hx : m₁.store.assignTarget sc x with
      | ok j =>
        refine Lockstep.bind (Lockstep.write ?_) fun _ _ _ => Lockstep.ret hv
        rintro ⟨_, _⟩ ⟨_, _⟩ h'
        exact h'.update (hj j hx) hv x
      | error f => exact Lockstep.bind Lockstep.reached fun _ _ _ => Lockstep.fault
    all_goals
      simp only [Eval.expr]
      exact Lockstep.bind Lockstep.reached fun _ _ _ => Lockstep.bind Lockstep.reached
        fun _ _ _ => Lockstep.bind Lockstep.reached fun _ _ _ => Lockstep.fault
  | call callee args =>
    simp only [Eval.expr]
    refine Lockstep.bind Lockstep.reached fun _ _ _ => Lockstep.bind Lockstep.reached
      fun _ _ _ => Lockstep.bind (ih.expr _ _ callee hsc) fun f₁ f₂ hf =>
        Lockstep.bind Lockstep.reached fun _ _ _ => ?_
    refine Lockstep.cond (by rw [hf.1, Value.isCallable_rename])
      (fun _ => Lockstep.bind (ih.exprs _ _ args hsc) fun vs₁ vs₂ hvs => ih.apply _ _ _ _ _ hf hvs)
      fun _ => ?_
    rw [hf.1, Value.type_rename]
    exact Lockstep.fault
  | func ps body =>
    simp only [Eval.expr]
    exact Lockstep.bind Lockstep.reached fun _ _ _ => Lockstep.bind Lockstep.reached
      fun _ _ _ => Lockstep.ret ⟨rfl, fun c hc => by cases hc; exact hsc⟩

theorem lockstep_exprs_succ (d : Nat) {sc : FrameId} (hsc : s.InView R sc) (es : List Expr) :
    Lockstep (Mirror s s₂ R) (List.Forall₂ (Mirrored s s₂ R)) (Eval.exprs (n + 1) d sc es)
      (Eval.exprs (n + 1) d (s.matching s₂ sc) es) := by
  cases es with
  | nil =>
    simp only [Eval.exprs]
    exact Lockstep.ret .nil
  | cons e rest =>
    simp only [Eval.exprs]
    exact Lockstep.bind (ih.expr _ _ e hsc) fun v₁ v₂ hv =>
      Lockstep.bind (ih.exprs _ _ rest hsc) fun vs₁ vs₂ hvs => Lockstep.ret (.cons hv hvs)

/-- A call runs the body of a function in a new frame under the frame it keeps, in view, and
under its copy. -/
theorem lockstep_apply_succ (d : Nat) {f₁ f₂ : Value} (hf : Mirrored s s₂ R f₁ f₂)
    {vs₁ vs₂ : List Value} (hvs : List.Forall₂ (Mirrored s s₂ R) vs₁ vs₂) :
    Lockstep (Mirror s s₂ R) (Mirrored s s₂ R) (Eval.apply (n + 1) d f₁ vs₁)
      (Eval.apply (n + 1) d f₂ vs₂) := by
  obtain ⟨rfl, hkept⟩ := hf
  cases f₁ with
  | closure ps stmts c =>
    have hc : s.InView R c := hkept c rfl
    simp only [Eval.apply, Value.rename]
    refine Lockstep.bind Lockstep.reached fun _ _ _ => Lockstep.bind Lockstep.reached
      fun _ _ _ => Lockstep.bind (lockstep_newFrame hc) fun fr₁ fr₂ hfr => ?_
    obtain ⟨rfl, hfr⟩ := hfr
    have hbody := ih.body (d + 3) _ stmts _ _ hfr mirrored_null
    -- extra arguments are noticed alike, since both lists have the same length
    exact Lockstep.bind (lockstep_bindParams _ hfr ps hvs) fun _ _ _ =>
      Lockstep.cond (by rw [hvs.length_eq]) (fun _ => Lockstep.bind Lockstep.reached
        fun _ _ _ => hbody) fun _ => hbody
  | native name action =>
    simp only [Eval.apply, Value.rename]
    exact Lockstep.bind Lockstep.reached fun _ _ _ => lockstep_native _ action hvs
  | _ =>
    simp only [Eval.apply, Value.rename]
    exact Lockstep.bind Lockstep.reached fun _ _ _ => Lockstep.fault

theorem lockstep_stmt_succ (d : Nat) {sc : FrameId} (hsc : s.InView R sc) (st : Stmt) :
    Lockstep (Mirror s s₂ R) (Mirrored s s₂ R) (Eval.stmt (n + 1) d sc st)
      (Eval.stmt (n + 1) d (s.matching s₂ sc) st) := by
  cases st with
  | expr e =>
    simp only [Eval.stmt]
    exact ih.expr _ _ e hsc
  | block stmts =>
    simp only [Eval.stmt]
    refine Lockstep.bind Lockstep.reached fun _ _ _ =>
      Lockstep.bind (lockstep_newFrame hsc) fun fr₁ fr₂ hfr => ?_
    obtain ⟨rfl, hfr⟩ := hfr
    exact ih.body _ _ stmts _ _ hfr mirrored_null
  | letDecl x init =>
    cases init with
    | some e =>
      simp only [Eval.stmt]
      exact Lockstep.bind Lockstep.reached fun _ _ _ => Lockstep.bind (ih.expr _ _ e hsc)
        fun v₁ v₂ hv => lockstep_declare d hsc x hv
    | none =>
      simp only [Eval.stmt]
      exact Lockstep.bind Lockstep.reached fun _ _ _ => Lockstep.bind (Lockstep.ret mirrored_null)
        fun v₁ v₂ hv => lockstep_declare d hsc x hv
  | ite c th el =>
    cases el with
    | some st =>
      simp only [Eval.stmt]
      refine Lockstep.bind Lockstep.reached fun _ _ _ => Lockstep.bind (ih.expr _ _ c hsc)
        fun cv₁ cv₂ hcv => Lockstep.bind (lockstep_truth _ hcv) fun t₁ t₂ ht => ?_
      subst ht
      exact Lockstep.cond Iff.rfl (fun _ => ih.branch _ _ th hsc) fun _ => ih.branch _ _ st hsc
    | none =>
      simp only [Eval.stmt]
      refine Lockstep.bind Lockstep.reached fun _ _ _ => Lockstep.bind (ih.expr _ _ c hsc)
        fun cv₁ cv₂ hcv => Lockstep.bind (lockstep_truth _ hcv) fun t₁ t₂ ht => ?_
      subst ht
      exact Lockstep.cond Iff.rfl (fun _ => ih.branch _ _ th hsc) fun _ => Lockstep.ret mirrored_null
  | loop c b =>
    simp only [Eval.stmt]
    exact Lockstep.bind Lockstep.reached fun _ _ _ => ih.loop _ _ c b _ _ hsc mirrored_null

/-- A branch runs in a new frame under a frame in view, and under its copy. -/
theorem lockstep_branch_succ (d : Nat) {sc : FrameId} (hsc : s.InView R sc) (st : Stmt) :
    Lockstep (Mirror s s₂ R) (Mirrored s s₂ R) (Eval.branch (n + 1) d sc st)
      (Eval.branch (n + 1) d (s.matching s₂ sc) st) := by
  cases st
  case block stmts =>
    simp only [Eval.branch]
    refine Lockstep.bind Lockstep.reached fun _ _ _ =>
      Lockstep.bind (lockstep_newFrame hsc) fun fr₁ fr₂ hfr => ?_
    obtain ⟨rfl, hfr⟩ := hfr
    exact ih.body _ _ stmts _ _ hfr mirrored_null
  all_goals
    simp only [Eval.branch]
    refine Lockstep.bind Lockstep.reached fun _ _ _ =>
      Lockstep.bind (lockstep_newFrame hsc) fun fr₁ fr₂ hfr => ?_
    obtain ⟨rfl, hfr⟩ := hfr
    exact ih.stmt _ _ _ hfr

/-- Each round of a loop tests its condition in a new frame and runs its body as a branch. -/
theorem lockstep_loop_succ (d : Nat) {sc : FrameId} (hsc : s.InView R sc) (c : Expr) (b : Stmt)
    {l₁ l₂ : Value} (hl : Mirrored s s₂ R l₁ l₂) :
    Lockstep (Mirror s s₂ R) (Mirrored s s₂ R) (Eval.loop (n + 1) d sc c b l₁)
      (Eval.loop (n + 1) d (s.matching s₂ sc) c b l₂) := by
  simp only [Eval.loop]
  refine Lockstep.bind Lockstep.reached fun _ _ _ =>
    Lockstep.bind (lockstep_newFrame hsc) fun fr₁ fr₂ hfr => ?_
  obtain ⟨rfl, hfr⟩ := hfr
  refine Lockstep.bind (ih.expr _ _ c hfr) fun cv₁ cv₂ hcv =>
    Lockstep.bind (lockstep_truth _ hcv) fun t₁ t₂ ht => ?_
  subst ht
  exact Lockstep.cond Iff.rfl (fun _ => Lockstep.bind (ih.branch _ _ b hsc)
    fun v₁ v₂ hv => ih.loop _ _ c b _ _ hsc hv) fun _ => Lockstep.ret hl

theorem lockstep_body_succ (d : Nat) {sc : FrameId} (hsc : s.InView R sc) (sts : List Stmt)
    {l₁ l₂ : Value} (hl : Mirrored s s₂ R l₁ l₂) :
    Lockstep (Mirror s s₂ R) (Mirrored s s₂ R) (Eval.body (n + 1) d sc sts l₁)
      (Eval.body (n + 1) d (s.matching s₂ sc) sts l₂) := by
  -- every statement of the list runs with the same fuel, so the induction is on the list
  induction sts generalizing l₁ l₂ with
  | nil =>
    simp only [Eval.body_succ_nil]
    exact Lockstep.ret hl
  | cons st rest ihr =>
    simp only [Eval.body_succ_cons]
    exact Lockstep.bind (ih.stmt _ _ st hsc) fun v₁ v₂ hv => ihr hv

end Succ

theorem inStep_succ {n : Nat} (ih : InStep s s₂ R n) : InStep s s₂ R (n + 1) where
  expr d _ e hsc := lockstep_expr_succ ih d hsc e
  exprs d _ es hsc := lockstep_exprs_succ ih d hsc es
  apply d _ _ _ _ hf hvs := lockstep_apply_succ ih d hf hvs
  stmt d _ st hsc := lockstep_stmt_succ ih d hsc st
  branch d _ st hsc := lockstep_branch_succ ih d hsc st
  loop d _ c b _ _ hsc hl := lockstep_loop_succ ih d hsc c b hl
  body d _ sts _ _ hsc hl := lockstep_body_succ ih d hsc sts hl

/-- Every evaluation function, with any fuel, runs in step from a frame in view and its copy. -/
theorem inStep (fuel : Nat) : InStep s s₂ R fuel := by
  induction fuel with
  | zero => exact inStep_zero
  | succ n ih => exact inStep_succ ih

end Eval

/-! ## Evaluation is local -/

namespace Eval

open Store Syntax

/-- Two runs of an evaluation in frame `E`, one from `s` ending in `o₁`, one from `s₂` ending in
`o₂`, are local: the first leaves every frame of `s` that `E` does not reach as it was, and the
second ends as the first, once the frames made are matched: the same value (renamed) or the same
interruption, the same printed text, and the same frames wherever `E` reaches. -/
def LocalRuns (s s₂ : Store) (E : FrameId) (o₁ o₂ : Except Interrupt Value × Machine) : Prop :=
  (∀ i, i < s.frames.size → ¬ s.Reaches E i → o₁.2.store.frame? i = s.frame? i) ∧
    o₂.1 = o₁.1.map (Value.rename (s.matching s₂)) ∧ o₂.2.printed = o₁.2.printed ∧
    ∀ i, s.Reaches E i →
      o₂.2.store.frame? i = (o₁.2.store.frame? i).map (Frame.rename (s.matching s₂))

variable {s s₂ : Store} {E : FrameId}

/-- At the start, the frames `E` reaches are in view and copied unchanged. -/
theorem mirror_start (hs : s.WellFormed) (hE : E < s.frames.size)
    (hagree : ∀ i, s.Reaches E i → s₂.frame? i = s.frame? i) (out : String) :
    Mirror s s₂ (s.Reaches E) ⟨s, out⟩ ⟨s₂, out⟩ := by
  have hlt : ∀ i, s.Reaches E i → i < s.frames.size := fun i hi => hi.lt_size hs hE
  have hfix : ∀ i, s.Reaches E i → s.matching s₂ i = i := fun i hi =>
    freshRenaming_of_lt (hlt i hi)
  refine ⟨fun i hi => ⟨hlt i hi, ?_⟩, le_rfl, Nat.add_comm _ _, ?_, ?_, fun _ _ _ => rfl, rfl⟩
  · have hsome := (frame?_isSome_iff s i).2 (hlt i hi)
    rw [← hagree i hi] at hsome
    exact (frame?_isSome_iff s₂ i).1 hsome
  · -- a reachable frame is its own copy; a frame not yet made is missing on both sides
    rintro i (hi | hi)
    · simp only [hfix i hi, hagree i hi]
      cases hf : s.frame? i with
      | none => rfl
      | some f =>
        simp only [Option.map_some, Option.some.injEq]
        exact (Frame.rename_of_fixed _ f (fun p hp => hfix p (.parent hi hf hp))
          fun b hb c hc => hfix c (.kept hi hf hb hc)).symm
    · rw [(frame?_eq_none_iff s i).2 hi, Option.map_none]
      apply (frame?_eq_none_iff s₂ _).2
      rw [matching, freshRenaming_of_le hi]
      omega
  · rintro i f (hi | hi) hf
    · exact ⟨fun p hp => .inl (.parent hi hf hp), fun b hb c hc => .inl (.kept hi hf hb hc)⟩
    · simp [(frame?_eq_none_iff s i).2 hi] at hf

/-- Runs that end alike from the invariant end locally. -/
theorem localRuns_of_matches (hs : s.WellFormed) (hE : E < s.frames.size)
    {o₁ o₂ : Except Interrupt Value × Machine}
    (h : Matches (Mirror s s₂ (s.Reaches E)) (Mirrored s s₂ (s.Reaches E)) o₁ o₂) :
    LocalRuns s s₂ E o₁ o₂ := by
  obtain ⟨r₁, m₁⟩ := o₁
  obtain ⟨r₂, m₂⟩ := o₂
  have hfix : ∀ i, s.Reaches E i → s.matching s₂ i = i := fun i hi =>
    freshRenaming_of_lt (hi.lt_size hs hE)
  -- both outcomes carry the invariant; the values are renamed copies, the faults equal
  have key : Mirror s s₂ (s.Reaches E) m₁ m₂ ∧ r₂ = r₁.map (Value.rename (s.matching s₂)) := by
    cases r₁ <;> cases r₂ <;> simp only [Matches] at h
    · exact ⟨h.2, by rw [h.1]; rfl⟩
    · exact ⟨h.2, by rw [h.1.1]; rfl⟩
  obtain ⟨hm, hr⟩ := key
  refine ⟨hm.untouched, hr, hm.printed, fun i hi => ?_⟩
  have := hm.copies i (.inl hi)
  rwa [hfix i hi] at this

variable [NestingLimit] in
/-- **Evaluation is local to the frames it can reach.** Evaluating any expression or statement
in frame `E` of a well-formed store `s` leaves every frame that `E` does not reach as it was; and
run from any store `s₂` that holds the same frames wherever `E` reaches, it gives the same value
or fault, prints the same text and leaves the same bindings in every frame `E` reaches, once the
frames made by the two runs are matched in the order they are made. -/
theorem evaluation_is_local (hs : s.WellFormed) (hE : E < s.frames.size)
    (hagree : ∀ i, s.Reaches E i → s₂.frame? i = s.frame? i) (fuel d : Nat) (out : String) :
    (∀ e : Expr, LocalRuns s s₂ E (exec (expr fuel d E e) ⟨s, out⟩)
      (exec (expr fuel d E e) ⟨s₂, out⟩)) ∧
    ∀ st : Stmt, LocalRuns s s₂ E (exec (stmt fuel d E st) ⟨s, out⟩)
      (exec (stmt fuel d E st) ⟨s₂, out⟩) := by
  have hstart := mirror_start hs hE hagree out
  have hview : s.InView (s.Reaches E) E := .inl .refl
  have hfix : s.matching s₂ E = E := freshRenaming_of_lt hE
  have hrun : InStep s s₂ (s.Reaches E) fuel := inStep fuel
  constructor
  · intro e
    have h := hrun.expr d E e hview _ _ hstart
    rw [hfix] at h
    exact localRuns_of_matches hs hE h
  · intro st
    have h := hrun.stmt d E st hview _ _ hstart
    rw [hfix] at h
    exact localRuns_of_matches hs hE h

/-- From the root of a fresh store, the only reachable frame is the root. -/
theorem reaches_withRoot {i : FrameId} (h : Store.withRoot.Reaches 0 i) : i = 0 := by
  induction h with
  | refl => rfl
  | parent _ hf hp ih =>
    subst ih
    simp [Store.withRoot, frame?] at hf
    simp [← hf] at hp
  | kept _ hf hb _ ih =>
    subst ih
    simp [Store.withRoot, frame?] at hf
    simp [← hf] at hb

end Eval
end Scriptlet

namespace Scriptlet

namespace Eval

open Store Syntax

/-- Evaluation in the root of a fresh store is local, compared with a run from a store that has
one more frame. -/
theorem evaluation_is_local_from_root :
    Store.withRoot.WellFormed ∧ 0 < Store.withRoot.frames.size ∧
      (∀ i, Store.withRoot.Reaches 0 i →
        (⟨#[⟨[], none⟩, ⟨[⟨"x", .null, false⟩], some 0⟩]⟩ : Store).frame? i =
          Store.withRoot.frame? i) ∧
      ((∀ e : Expr, LocalRuns Store.withRoot ⟨#[⟨[], none⟩, ⟨[⟨"x", .null, false⟩], some 0⟩]⟩ 0
        (exec (expr 10 0 0 e) ⟨Store.withRoot, ""⟩)
        (exec (expr 10 0 0 e) ⟨⟨#[⟨[], none⟩, ⟨[⟨"x", .null, false⟩], some 0⟩]⟩, ""⟩)) ∧
      ∀ st : Stmt, LocalRuns Store.withRoot ⟨#[⟨[], none⟩, ⟨[⟨"x", .null, false⟩], some 0⟩]⟩ 0
        (exec (stmt 10 0 0 st) ⟨Store.withRoot, ""⟩)
        (exec (stmt 10 0 0 st) ⟨⟨#[⟨[], none⟩, ⟨[⟨"x", .null, false⟩], some 0⟩]⟩, ""⟩)) := by
  have hwf : Store.withRoot.WellFormed := by
    intro i f hf
    simp only [Store.withRoot, frame?, List.getElem?_toArray] at hf
    cases i with
    | zero =>
      simp only [List.getElem?_cons_zero, Option.some.injEq] at hf
      subst hf
      simp
    | succ i => simp at hf
  have hagree : ∀ i, Store.withRoot.Reaches 0 i →
      (⟨#[⟨[], none⟩, ⟨[⟨"x", .null, false⟩], some 0⟩]⟩ : Store).frame? i =
        Store.withRoot.frame? i := by
    intro i hi
    rw [reaches_withRoot hi]
    rfl
  exact ⟨hwf, Nat.one_pos, hagree, evaluation_is_local hwf Nat.one_pos hagree 10 0 ""⟩

end Eval

end Scriptlet
