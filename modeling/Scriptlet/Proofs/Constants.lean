import Scriptlet.Proofs.Declarations
import Scriptlet.Proofs.Locality

/-!
# Constants stay constant

Assignment scans the constant marks of the whole chain from the frame it is evaluated in, and
refuses a name that any frame of the chain binds as a constant, even one a nearer binding shadows.
A constant of the global frame is therefore safe from every frame whose chain reaches the global
frame. That is every frame, as long as the store is rooted (`Store.Rooted`): well formed, with its
global frame, and with a parent for every other frame. Then the chain from every frame ends at
the global frame (`Store.Rooted.global_mem_chain`).

Evaluation keeps a store rooted: it makes frames only under frames that exist, and binds only
values that keep frames that exist (`Eval.rooting`). Neither a run nor a host function added to a
session breaks it, so every store a session reaches is rooted (`Session.rooted_replay`).

## Main statements

* `Store.Rooted.global_mem_chain`: in a rooted store the chain from every frame ends at the global
  frame.
* `Eval.rooting`: every evaluation function keeps the store rooted and gives values that keep
  frames that exist.
* `Eval.exec_assign_constant`: assigning a name that the global frame binds as a constant, from
  any frame of a rooted store and at any level, fails with the machine as the value left it:
  refused once the value is evaluated, unless the nesting limit stops it first.
* `Eval.assign_constant_at_limit`: at the nesting limit, the assignment fails for the depth
  after its value was evaluated.
* `Session.constants_stay`: every store a session reaches is rooted, a constant binding of the
  global frame keeps its place, mark and value through any steps, assigning it changes nothing,
  and declarations and calls only add bindings of their own.
-/

set_option autoImplicit false

namespace Scriptlet

/-- A value that keeps no frame at or above `n`. -/
def Value.Below (n : Nat) (v : Value) : Prop := ∀ c, v.scope? = some c → c < n

theorem Value.Below.mono {n n' : Nat} {v : Value} (h : v.Below n) (hn : n ≤ n') : v.Below n' :=
  fun c hc => Nat.lt_of_lt_of_le (h c hc) hn

theorem Value.below_of_scope {v : Value} (h : v.scope? = none) (n : Nat) : v.Below n :=
  fun c hc => by simp [h] at hc

/-- A frame that binds a name as a constant binds it so after it grew. -/
theorem Frame.Extends.bindsConstant {f f' : Frame} {A : List (String × Bool)} (h : f.Extends f' A)
    {n : String} (hc : f.bindsConstant n = true) : f'.bindsConstant n = true := by
  simp only [Frame.bindsConstant, List.any_eq_true] at hc ⊢
  obtain ⟨b, hb, hbn⟩ := hc
  obtain ⟨p, hp⟩ := List.mem_iff_getElem?.1 hb
  have hconst : b.constant = true := by simp_all
  exact ⟨b, List.mem_of_getElem? (h.constants p b hp hconst), hbn⟩

theorem Frame.binds_of_bindsConstant {f : Frame} {n : String} (hc : f.bindsConstant n = true) :
    f.binds n = true := by
  simp only [Frame.bindsConstant, Frame.binds, List.any_eq_true, Bool.and_eq_true] at hc ⊢
  obtain ⟨b, hb, hbn, _⟩ := hc
  exact ⟨b, hb, hbn⟩

namespace Store

open Syntax

variable {s s' : Store}

/-- A frame of a grown store binds as constants the names it bound so. -/
theorem Grows.bindsConstant {a : FrameId → List (String × Bool)} (h : s.Grows s' a)
    {i : FrameId} {n : String} (hc : (s.frame? i).any (·.bindsConstant n) = true) :
    (s'.frame? i).any (·.bindsConstant n) = true := by
  cases hf : s.frame? i with
  | none => simp [hf] at hc
  | some f =>
    obtain ⟨f', hf', he⟩ := h.frame i f hf
    simp only [hf, Option.any_some] at hc
    simp [hf', he.bindsConstant hc]

/-- A rooted store: well formed, with its global frame, and with a parent for every other
frame. The first store of a session is rooted, and every step keeps it so. -/
structure Rooted (s : Store) : Prop where
  wellFormed : s.WellFormed
  global : globalFrame < s.frames.size
  parent : ∀ i f, s.frame? i = some f → i ≠ globalFrame → f.parent.isSome

/-- In a rooted store the chain from every frame ends at the global frame. -/
theorem Rooted.global_mem_chain (h : s.Rooted) (i : FrameId) (hi : i < s.frames.size) :
    globalFrame ∈ s.chain i := by
  -- the parent of a frame other than the global one is an older frame
  induction i using Nat.strong_induction_on with
  | _ i ih =>
    obtain ⟨f, hf⟩ := Option.isSome_iff_exists.1 ((frame?_isSome_iff s i).2 hi)
    rw [chain_eq, hf]
    by_cases h0 : i = globalFrame
    · subst h0
      exact List.mem_cons_self
    · obtain ⟨p, hp⟩ := Option.isSome_iff_exists.1 (h.parent i f hf h0)
      have hpi : p < i := (h.wellFormed i f hf).1 p hp
      simp only [hp, if_pos hpi]
      exact List.mem_cons_of_mem _ (ih p hpi (Nat.lt_trans hpi hi))

/-- A new frame under a frame that exists keeps the store rooted. -/
theorem Rooted.alloc (h : s.Rooted) {p : FrameId} (hp : p < s.frames.size) :
    (s.alloc p).1.Rooted where
  wellFormed i f hf := by
    rw [frame?_alloc] at hf
    split at hf
    · -- the new frame comes after its parent and binds nothing
      rename_i hi
      cases hf
      exact ⟨fun q hq => by cases hq; rw [hi]; exact hp, fun b hb => by simp at hb⟩
    · obtain ⟨hpar, hsc⟩ := h.wellFormed i f hf
      exact ⟨hpar, fun b hb c hc => by simpa using Nat.lt_succ_of_lt (hsc b hb c hc)⟩
  global := by simpa using Nat.lt_succ_of_lt h.global
  parent i f hf hi := by
    rw [frame?_alloc] at hf
    split at hf
    · cases hf
      rfl
    · exact h.parent i f hf hi

/-- Binding a value that keeps a frame that exists keeps the store rooted. -/
theorem Rooted.bind (h : s.Rooted) (i : FrameId) (n : String) {v : Value}
    (hv : v.Below s.frames.size) (c : Bool) : (s.bind i n v c).Rooted where
  wellFormed j f hf := by
    rw [frame?_bind] at hf
    split at hf
    · obtain ⟨g, hg, rfl⟩ := Option.map_eq_some_iff.1 hf
      obtain ⟨hpar, hsc⟩ := h.wellFormed j g hg
      refine ⟨hpar, fun b hb c hc => ?_⟩
      simp only [List.mem_append, List.mem_singleton] at hb
      rcases hb with hb | rfl
      · simpa using hsc b hb c hc
      · simpa using hv c hc
    · obtain ⟨hpar, hsc⟩ := h.wellFormed j f hf
      exact ⟨hpar, fun b hb c hc => by simpa using hsc b hb c hc⟩
  global := by simpa using h.global
  parent j f hf hj := by
    rw [frame?_bind] at hf
    split at hf
    · obtain ⟨g, hg, rfl⟩ := Option.map_eq_some_iff.1 hf
      exact h.parent j g hg hj
    · exact h.parent j f hf hj

/-- Assigning a value that keeps a frame that exists keeps the store rooted. -/
theorem Rooted.update (h : s.Rooted) (j : FrameId) (n : String) {v : Value}
    (hv : v.Below s.frames.size) : (s.update j n v).Rooted where
  wellFormed i f hf := by
    rw [frame?_update] at hf
    split at hf
    · obtain ⟨g, hg, rfl⟩ := Option.map_eq_some_iff.1 hf
      obtain ⟨hpar, hsc⟩ := h.wellFormed i g hg
      refine ⟨hpar, fun b hb c hc => ?_⟩
      obtain ⟨b₀, hb₀, rfl⟩ := List.mem_map.1 hb
      by_cases hn : b₀.name = n
      · simpa [hn] using hv c (by simpa [hn] using hc)
      · simpa [hn] using hsc b₀ hb₀ c (by simpa [hn] using hc)
    · obtain ⟨hpar, hsc⟩ := h.wellFormed i f hf
      exact ⟨hpar, fun b hb c hc => by simpa using hsc b hb c hc⟩
  global := by simpa using h.global
  parent i f hf hi := by
    rw [frame?_update] at hf
    split at hf
    · obtain ⟨g, hg, rfl⟩ := Option.map_eq_some_iff.1 hf
      exact h.parent i g hg hi
    · exact h.parent i f hf hi

/-- A value read from a rooted store keeps a frame that exists. -/
theorem Rooted.lookup (h : s.Rooted) {i : FrameId} {n : String} {v : Value}
    (hl : s.lookup i n = .ok v) : v.Below s.frames.size := by
  unfold Store.lookup at hl
  cases hfind : s.find i n with
  | none => simp [hfind] at hl
  | some j =>
    cases hb : (s.frame? j).bind (·.get? n) with
    | none => simp [hfind, hb] at hl
    | some b =>
      simp only [hfind, hb, Except.ok.injEq] at hl
      subst hl
      obtain ⟨f, hf, hget⟩ := Option.bind_eq_some_iff.1 hb
      exact (h.wellFormed j f hf).2 b (List.mem_of_find?_eq_some hget)

/-- From every frame of a rooted store, assigning a name that the global frame binds as a constant
is refused: the chain reaches the global frame. -/
theorem Rooted.assignTarget_constant (h : s.Rooted) {i : FrameId} (hi : i < s.frames.size)
    {n : String} (hc : (s.frame? globalFrame).any (·.bindsConstant n) = true) :
    s.assignTarget i n = .error (.constantViolation n) := by
  have hmem := h.global_mem_chain i hi
  have hconst : s.constantAlong i n = true := List.any_eq_true.2 ⟨globalFrame, hmem, hc⟩
  -- the global frame binds the name, so some frame of the chain does
  have hbinds : (s.frame? globalFrame).any (·.binds n) = true := by
    cases hf : s.frame? globalFrame with
    | none => simp [hf] at hc
    | some f =>
      simp only [hf, Option.any_some] at hc ⊢
      exact Frame.binds_of_bindsConstant hc
  cases hfind : s.find i n with
  | none =>
    have := List.find?_eq_none.1 hfind globalFrame hmem
    simp_all
  | some j => simp [assignTarget, hfind, hconst]

end Store

/-! ## Evaluation keeps the store rooted -/

namespace Eval

open Store Syntax

/-- A machine whose store is rooted and has at least `k` frames: the frames below `k` are those an
evaluation may be given. -/
def Sound (k : Nat) (m : Machine) : Prop := m.store.Rooted ∧ k ≤ m.store.frames.size

/-- A sound machine, and a value that keeps a frame of its store. -/
abbrev SoundWith (k : Nat) (v : Value) (m : Machine) : Prop :=
  Sound k m ∧ v.Below m.store.frames.size

theorem Sound.mono {k k' : Nat} {m : Machine} (h : Sound k' m) (hk : k ≤ k') : Sound k m :=
  ⟨h.1, Nat.le_trans hk h.2⟩

theorem Sound.self {k : Nat} {m : Machine} (h : Sound k m) : Sound m.store.frames.size m :=
  ⟨h.1, Nat.le_refl _⟩

/-- An evaluation that keeps every bound from `k` up keeps a value below the size of the store:
it can start from that size, and the store only grows. -/
theorem Sound.carry {α : Type} {x : Eval α} {Q : α → Machine → Prop} {k : Nat} {v : Value}
    (hx : ∀ k', k ≤ k' → Triple (Sound k') x (fun a m => Sound k' m ∧ Q a m) (fun _ => Sound k')) :
    Triple (SoundWith k v) x (fun a m => SoundWith k v m ∧ Q a m) (fun _ => Sound k) := by
  rintro m ⟨hm, hv⟩
  refine (hx _ hm.2).conseq (fun m' (h : m' = m) => by subst h; exact hm.self)
    (fun a m' ⟨hs, hq⟩ => ⟨⟨hs.mono hm.2, hv.mono hs.2⟩, hq⟩) (fun _ m' hs => hs.mono hm.2) m rfl

/-- An evaluation whose conditions hold at the size of the store it starts from may take that
size for its bound. -/
theorem Sound.start {α : Type} {x : Eval α} {P : Machine → Prop} {Q : α → Machine → Prop}
    {k : Nat} (hP : ∀ m, P m → Sound k m)
    (hx : ∀ m, P m → Triple (Sound m.store.frames.size) x
      (fun a m' => Sound m.store.frames.size m' ∧ Q a m') (fun _ => Sound m.store.frames.size)) :
    Triple P x (fun a m' => Sound k m' ∧ Q a m') (fun _ => Sound k) := by
  intro m hm
  have hs := hP m hm
  exact (hx m hm).conseq (fun m' (h : m' = m) => by subst h; exact hs.self)
    (fun _ _ ⟨h, hq⟩ => ⟨h.mono hs.2, hq⟩) (fun _ _ h => h.mono hs.2) m rfl

/-- A new frame under a frame below the bound keeps the store rooted; the new frame is at or
above the bound. -/
theorem triple_newFrame_sound {E : Interrupt → Machine → Prop} {k : Nat} {p : FrameId}
    (hp : p < k) : Triple (Sound k) (newFrame p) (fun fr m => Sound (fr + 1) m ∧ k ≤ fr) E := by
  rintro ⟨st, out⟩ ⟨hr, hk⟩
  exact ⟨⟨hr.alloc (Nat.lt_of_lt_of_le hp hk), by simp⟩, hk⟩

theorem below_headD {k : Nat} {vs : List Value} (hvs : ∀ v ∈ vs, v.Below k) :
    (vs.headD .null).Below k := by
  cases vs with
  | nil => exact Value.below_of_scope rfl k
  | cons v _ => exact hvs v List.mem_cons_self

theorem below_getLastD {k : Nat} {vs : List Value} (hvs : ∀ v ∈ vs, v.Below k) :
    (vs.getLastD .null).Below k := by
  rw [List.getLastD_eq_getLast?]
  cases h : vs.getLast? with
  | none => exact Value.below_of_scope rfl k
  | some v => exact hvs v (List.mem_of_getLast? h)

variable [NestingLimit]

/-- Parameters bound to arguments that keep frames below the bound keep the store rooted. -/
theorem keeps_bindParams_sound (d : Nat) {k : Nat} (i : FrameId) :
    ∀ (ps : List String) (vs : List Value), (∀ v ∈ vs, v.Below k) →
      Keeps (Sound k) (bindParams d i ps vs)
  | [], _, _ => Keeps.ret
  | p :: ps, vs, hvs => by
    simp only [bindParams]
    have hrest : Keeps (Sound k) (modify (fun m => ⟨m.store.bind i p (vs.headD .null) false,
        m.printed⟩) >>= fun _ => bindParams d i ps vs.tail) :=
      Keeps.bind (Keeps.write fun _ h =>
          ⟨h.1.bind i p ((below_headD hvs).mono h.2) false, by simpa using h.2⟩) fun _ =>
        keeps_bindParams_sound d i ps vs.tail fun v hv => hvs v (List.mem_of_mem_tail hv)
    exact Keeps.bind Keeps.reached fun _ => Keeps.read fun _ _ =>
      Keeps.cond (Keeps.bind Keeps.reached fun _ => Keeps.bind Keeps.fault fun _ => hrest) hrest

/-- A host function gives null, a number or one of its arguments. -/
theorem triple_native_sound (d : Nat) (action : NativeAction) {k : Nat} {vs : List Value}
    (hvs : ∀ v ∈ vs, v.Below k) :
    Triple (Sound k) (native d action vs) (SoundWith k) (fun _ => Sound k) := by
  have hret : ∀ v : Value, v.Below k → Triple (Sound k) (pure v) (SoundWith k) (fun _ => Sound k) :=
    fun _ hv => Triple.ret fun _ h => ⟨h, hv.mono h.2⟩
  have hemit : ∀ t, Triple (Sound k) (emit t >>= fun _ => pure Value.null) (SoundWith k)
      (fun _ => Sound k) :=
    fun _ => Triple.bind (Keeps.write fun ⟨_, _⟩ h => h) fun _ =>
      hret _ (Value.below_of_scope rfl k)
  simp only [native]
  refine Triple.bind Keeps.reached fun _ => ?_
  cases action with
  | print =>
    exact Triple.bind Keeps.reached fun _ =>
      Triple.cond (fun _ => Triple.bind Keeps.reached fun _ => hemit _) fun _ => hemit _
  | returnNothing => exact Triple.bind Keeps.reached fun _ => hret _ (Value.below_of_scope rfl k)
  | countArgs => exact Triple.bind Keeps.reached fun _ => hret _ (Value.below_of_scope rfl k)
  | firstArg => exact Triple.bind Keeps.reached fun _ => hret _ (below_headD hvs)
  | lastArg => exact Triple.bind Keeps.reached fun _ => hret _ (below_getLastD hvs)

/-- The end of a declaration binds a value below the size of the store in its frame. -/
theorem triple_declare_sound (d : Nat) (sc : FrameId) (x : String) {k : Nat} (v : Value) :
    Triple (SoundWith k v)
      (do
        reach (d + 2)
        if (← get).store.has sc x then
          reach (d + 5)
          fail (.alreadyDefined x)
        modify fun m => ⟨m.store.bind sc x v false, m.printed⟩
        return v)
      (SoundWith k) (fun _ => Sound k) := by
  have hrest : Triple (SoundWith k v)
      (modify (fun m => ⟨m.store.bind sc x v false, m.printed⟩) >>= fun _ => pure v)
      (SoundWith k) (fun _ => Sound k) :=
    Triple.write_ret fun _ h => ⟨⟨h.1.1.bind sc x h.2 false, by simpa using h.1.2⟩, by simpa using h.2⟩
  refine Triple.bind (Triple.reach_stays fun _ h => h.1) fun _ => Triple.peek fun _ _ => ?_
  exact Triple.cond (fun _ => Triple.bind (Triple.reach_stays fun _ h => h.1) fun _ =>
    Triple.fault_bind fun _ h => h.1) fun _ => hrest

/-- With `fuel` steps left, every evaluation function, given frames below the bound `k` and
values that keep frames below it, keeps the store rooted with at least `k` frames, and gives a
value that keeps a frame of the store. -/
structure Rooting (fuel : Nat) : Prop where
  expr : ∀ d sc e k, sc < k →
    Triple (Sound k) (Eval.expr fuel d sc e) (SoundWith k) (fun _ => Sound k)
  exprs : ∀ d sc es k, sc < k → Triple (Sound k) (Eval.exprs fuel d sc es)
    (fun vs m => Sound k m ∧ ∀ v ∈ vs, v.Below m.store.frames.size) (fun _ => Sound k)
  apply : ∀ d f vs k, f.Below k → (∀ v ∈ vs, v.Below k) →
    Triple (Sound k) (Eval.apply fuel d f vs) (SoundWith k) (fun _ => Sound k)
  stmt : ∀ d sc st k, sc < k →
    Triple (Sound k) (Eval.stmt fuel d sc st) (SoundWith k) (fun _ => Sound k)
  branch : ∀ d sc st k, sc < k →
    Triple (Sound k) (Eval.branch fuel d sc st) (SoundWith k) (fun _ => Sound k)
  loop : ∀ d sc c b l k, sc < k → l.Below k →
    Triple (Sound k) (Eval.loop fuel d sc c b l) (SoundWith k) (fun _ => Sound k)
  body : ∀ d sc sts l k, sc < k → l.Below k →
    Triple (Sound k) (Eval.body fuel d sc sts l) (SoundWith k) (fun _ => Sound k)

theorem rooting_zero : Rooting 0 where
  expr _ _ _ _ _ := by simp only [Eval.expr]; exact Triple.raise fun _ h => h
  exprs _ _ _ _ _ := by simp only [Eval.exprs]; exact Triple.raise fun _ h => h
  apply _ _ _ _ _ _ := by simp only [Eval.apply]; exact Triple.raise fun _ h => h
  stmt _ _ _ _ _ := by simp only [Eval.stmt]; exact Triple.raise fun _ h => h
  branch _ _ _ _ _ := by simp only [Eval.branch]; exact Triple.raise fun _ h => h
  loop _ _ _ _ _ _ _ _ := by simp only [Eval.loop]; exact Triple.raise fun _ h => h
  body _ _ _ _ _ _ _ := by simp only [Eval.body]; exact Triple.raise fun _ h => h

/-- An expression keeps the store rooted, whatever its value. -/
theorem Rooting.keeps_expr {n : Nat} (ih : Rooting n) (d : Nat) {sc : FrameId} (e : Expr)
    {k : Nat} (hsc : sc < k) : Keeps (Sound k) (Eval.expr n d sc e) :=
  (ih.expr d sc e k hsc).conseq (fun _ h => h) (fun _ _ h => h.1) fun _ _ h => h

/-- Statements run in a new frame at or above the bound keep it. -/
theorem Rooting.body_fresh {n : Nat} (ih : Rooting n) (d : Nat) {k : Nat} {fr : FrameId}
    (hfr : k ≤ fr) (sts : List Stmt) :
    Triple (Sound (fr + 1)) (Eval.body n d fr sts .null) (SoundWith k) (fun _ => Sound k) :=
  (ih.body d fr sts .null (fr + 1) (Nat.lt_succ_self fr) (Value.below_of_scope rfl _)).conseq
    (fun _ h => h) (fun _ _ h => ⟨h.1.mono (Nat.le_succ_of_le hfr), h.2⟩)
    fun _ _ h => h.mono (Nat.le_succ_of_le hfr)

section Succ

variable {n : Nat} (ih : Rooting n)
include ih

theorem rooting_expr_succ (d : Nat) (sc : FrameId) (e : Expr) (k : Nat) (hsc : sc < k) :
    Triple (Sound k) (Eval.expr (n + 1) d sc e) (SoundWith k) (fun _ => Sound k) := by
  cases e with
  | ident x =>
    simp only [Eval.expr]
    refine Triple.bind Keeps.reached fun _ => Triple.bind Keeps.reached fun _ =>
      Triple.read fun m hm => ?_
    -- a value read from the store keeps a frame of it
    cases hl : m.store.lookup sc x with
    | ok v => exact Triple.ret fun _ h => by subst h; exact ⟨hm, hm.1.lookup hl⟩
    | error f => exact Triple.bind (Keeps.on Keeps.reached hm) fun _ => Triple.fault fun _ h => h
  | num text form pos =>
    simp only [Eval.expr]
    exact Triple.bind Keeps.reached fun _ => Triple.bind Keeps.reached fun _ =>
      Triple.ret fun _ h => ⟨h, Value.below_of_scope rfl _⟩
  | str t =>
    simp only [Eval.expr]
    exact Triple.bind Keeps.reached fun _ => Triple.bind Keeps.reached fun _ =>
      Triple.ret fun _ h => ⟨h, Value.below_of_scope rfl _⟩
  | binary op pos l r =>
    simp only [Eval.expr]
    -- an operator gives a number or a boolean
    have hv : ∀ a b, Triple (Sound k) (ofExcept (binaryValue op a b)) (SoundWith k)
        (fun _ => Sound k) := fun a b =>
      Triple.ofExcept (fun v hv _ hm => ⟨hm, Value.below_of_scope (binaryValue_scope hv) _⟩)
        fun _ _ _ h => h
    exact Triple.bind Keeps.reached fun _ => Triple.bind Keeps.reached fun _ =>
      Triple.bind (ih.keeps_expr _ l hsc) fun a => Triple.bind (ih.keeps_expr _ r hsc) fun b =>
        Triple.bind Keeps.reached fun _ => Triple.bind (hv a b) fun v =>
          Triple.cond (fun _ => Triple.bind (Triple.reach_stays fun _ h => h.1) fun _ =>
            Triple.ret fun _ h => h) fun _ => Triple.ret fun _ h => h
  | unary sg pos x =>
    simp only [Eval.expr]
    have hv : ∀ a, Triple (Sound k) (ofExcept (unaryValue sg a)) (SoundWith k)
        (fun _ => Sound k) := fun a =>
      Triple.ofExcept (fun v hv _ hm => ⟨hm, Value.below_of_scope (unaryValue_scope hv) _⟩)
        fun _ _ _ h => h
    exact Triple.bind Keeps.reached fun _ => Triple.bind Keeps.reached fun _ =>
      Triple.bind (ih.keeps_expr _ x hsc) fun a => Triple.bind Keeps.reached fun _ =>
        Triple.bind (hv a) fun v => Triple.bind (Triple.reach_stays fun _ h => h.1) fun _ =>
          Triple.ret fun _ h => h
  | assign t v =>
    cases t
    case ident x =>
      simp only [Eval.expr]
      refine Triple.bind Keeps.reached fun _ => Triple.bind Keeps.reached fun _ =>
        Triple.bind (ih.expr _ sc v k hsc) fun w =>
          Triple.bind (Triple.reach_stays fun _ h => h.1) fun _ => Triple.read fun m hm => ?_
      -- the value assigned keeps a frame of the store
      cases hx : m.store.assignTarget sc x with
      | ok j =>
        exact Triple.write_ret fun _ h => by
          subst h
          exact ⟨⟨hm.1.1.update j x hm.2, by simpa using hm.1.2⟩, by simpa using hm.2⟩
      | error f =>
        exact Triple.bind (Keeps.on Keeps.reached hm.1) fun _ => Triple.fault fun _ h => h
    all_goals
      simp only [Eval.expr]
      exact Triple.bind Keeps.reached fun _ => Triple.bind Keeps.reached fun _ =>
        Triple.bind Keeps.reached fun _ => Triple.fault fun _ h => h
  | call callee args =>
    simp only [Eval.expr]
    refine Triple.bind Keeps.reached fun _ => Triple.bind Keeps.reached fun _ =>
      Triple.bind (ih.expr _ sc callee k hsc) fun f =>
        Triple.bind (Triple.reach_stays fun _ h => h.1) fun _ =>
          Triple.cond (fun _ => ?_) fun _ => Triple.fault fun _ h => h.1
    -- the function is kept across its arguments, and both go to the call
    refine Triple.bind (Sound.carry fun k' hk' => ih.exprs _ sc args k' (Nat.lt_of_lt_of_le hsc hk'))
      fun vs => ?_
    exact Sound.start (fun _ h => h.1.1) fun _ h => ih.apply _ _ vs _ h.1.2 h.2
  | func ps body =>
    simp only [Eval.expr]
    exact Triple.bind Keeps.reached fun _ => Triple.bind Keeps.reached fun _ =>
      Triple.ret fun _ h => ⟨h, fun c hc => by cases hc; exact Nat.lt_of_lt_of_le hsc h.2⟩

theorem rooting_exprs_succ (d : Nat) (sc : FrameId) (es : List Expr) (k : Nat) (hsc : sc < k) :
    Triple (Sound k) (Eval.exprs (n + 1) d sc es)
      (fun vs m => Sound k m ∧ ∀ v ∈ vs, v.Below m.store.frames.size) (fun _ => Sound k) := by
  cases es with
  | nil =>
    simp only [Eval.exprs]
    exact Triple.ret fun _ h => ⟨h, by simp⟩
  | cons e rest =>
    simp only [Eval.exprs]
    exact Triple.bind (ih.expr _ sc e k hsc) fun v =>
      Triple.bind (Sound.carry fun k' hk' => ih.exprs _ sc rest k' (Nat.lt_of_lt_of_le hsc hk'))
        fun vs => Triple.ret fun _ h => ⟨h.1.1, List.forall_mem_cons.2 ⟨h.1.2, h.2⟩⟩

/-- A function runs in a new frame under the frame it keeps. -/
theorem rooting_apply_succ (d : Nat) (f : Value) (vs : List Value) (k : Nat) (hf : f.Below k)
    (hvs : ∀ v ∈ vs, v.Below k) :
    Triple (Sound k) (Eval.apply (n + 1) d f vs) (SoundWith k) (fun _ => Sound k) := by
  cases f with
  | closure ps stmts c =>
    simp only [Eval.apply]
    refine Triple.bind Keeps.reached fun _ => Triple.bind Keeps.reached fun _ =>
      Triple.bind (triple_newFrame_sound (hf c rfl)) fun fr => Triple.frame fun hfr => ?_
    have hlow : ∀ m, Sound (fr + 1) m → Sound k m := fun _ h => h.mono (Nat.le_succ_of_le hfr)
    exact Triple.bind ((keeps_bindParams_sound (d + 2) fr ps vs fun v hv =>
        (hvs v hv).mono (Nat.le_succ_of_le hfr)).widen hlow) fun _ =>
      Triple.cond (fun _ => Triple.bind (Keeps.reached.widen hlow) fun _ =>
        ih.body_fresh _ hfr stmts) fun _ => ih.body_fresh _ hfr stmts
  | native name action =>
    simp only [Eval.apply]
    exact Triple.bind Keeps.reached fun _ => triple_native_sound _ action hvs
  | _ =>
    simp only [Eval.apply]
    exact Triple.bind Keeps.reached fun _ => Triple.fault fun _ h => h

theorem rooting_stmt_succ (d : Nat) (sc : FrameId) (st : Stmt) (k : Nat) (hsc : sc < k) :
    Triple (Sound k) (Eval.stmt (n + 1) d sc st) (SoundWith k) (fun _ => Sound k) := by
  cases st with
  | expr e =>
    simp only [Eval.stmt]
    exact ih.expr _ sc e k hsc
  | block stmts =>
    simp only [Eval.stmt]
    exact Triple.bind Keeps.reached fun _ => Triple.bind (triple_newFrame_sound hsc) fun fr =>
      Triple.frame fun hfr => ih.body_fresh _ hfr stmts
  | letDecl x init =>
    cases init with
    | some e =>
      simp only [Eval.stmt]
      exact Triple.bind Keeps.reached fun _ => Triple.bind (ih.expr _ sc e k hsc) fun v =>
        triple_declare_sound d sc x v
    | none =>
      simp only [Eval.stmt]
      exact Triple.bind Keeps.reached fun _ =>
        Triple.bind (Triple.ret fun _ h => ⟨h, Value.below_of_scope rfl _⟩) fun v =>
          triple_declare_sound d sc x v
  | ite c th el =>
    cases el with
    | some st =>
      simp only [Eval.stmt]
      exact Triple.bind Keeps.reached fun _ => Triple.bind (ih.keeps_expr _ c hsc) fun _ =>
        Triple.bind (keeps_truth _ _) fun _ =>
          Triple.cond (fun _ => ih.branch _ sc th k hsc) fun _ => ih.branch _ sc st k hsc
    | none =>
      simp only [Eval.stmt]
      exact Triple.bind Keeps.reached fun _ => Triple.bind (ih.keeps_expr _ c hsc) fun _ =>
        Triple.bind (keeps_truth _ _) fun _ => Triple.cond (fun _ => ih.branch _ sc th k hsc)
          fun _ => Triple.ret fun _ h => ⟨h, Value.below_of_scope rfl _⟩
  | loop c b =>
    simp only [Eval.stmt]
    exact Triple.bind Keeps.reached fun _ =>
      ih.loop _ sc c b .null k hsc (Value.below_of_scope rfl _)

/-- A branch runs in a new frame under its own. -/
theorem rooting_branch_succ (d : Nat) (sc : FrameId) (st : Stmt) (k : Nat) (hsc : sc < k) :
    Triple (Sound k) (Eval.branch (n + 1) d sc st) (SoundWith k) (fun _ => Sound k) := by
  cases st
  case block stmts =>
    simp only [Eval.branch]
    exact Triple.bind Keeps.reached fun _ => Triple.bind (triple_newFrame_sound hsc) fun fr =>
      Triple.frame fun hfr => ih.body_fresh _ hfr stmts
  all_goals
    simp only [Eval.branch]
    exact Triple.bind Keeps.reached fun _ => Triple.bind (triple_newFrame_sound hsc) fun fr =>
      Triple.frame fun hfr => (ih.stmt _ fr _ (fr + 1) (Nat.lt_succ_self fr)).conseq
        (fun _ h => h) (fun _ _ h => ⟨h.1.mono (Nat.le_succ_of_le hfr), h.2⟩)
        fun _ _ h => h.mono (Nat.le_succ_of_le hfr)

/-- Each round tests the condition in a new frame; the value of the last round is kept. -/
theorem rooting_loop_succ (d : Nat) (sc : FrameId) (c : Expr) (b : Stmt) (l : Value) (k : Nat)
    (hsc : sc < k) (hl : l.Below k) :
    Triple (Sound k) (Eval.loop (n + 1) d sc c b l) (SoundWith k) (fun _ => Sound k) := by
  simp only [Eval.loop]
  refine Triple.bind Keeps.reached fun _ => Triple.bind (triple_newFrame_sound hsc) fun fr =>
    Triple.frame fun hfr => ?_
  have hk : k ≤ fr + 1 := Nat.le_succ_of_le hfr
  have hlow : ∀ m, Sound (fr + 1) m → Sound k m := fun _ h => h.mono hk
  exact Triple.bind ((ih.keeps_expr (d + 1) c (Nat.lt_succ_self fr)).widen hlow) fun _ =>
    Triple.bind ((keeps_truth _ _).widen hlow) fun _ =>
      Triple.cond (fun _ => Triple.bind ((ih.branch _ sc b k hsc).conseq (fun _ h => h.mono hk)
          (fun _ _ h => h) fun _ _ h => h) fun v =>
        Sound.start (fun _ h => h.1) fun _ h =>
          ih.loop _ sc c b v _ (Nat.lt_of_lt_of_le hsc h.1.2) h.2)
        fun _ => Triple.ret fun _ h => ⟨h.mono hk, hl.mono (Nat.le_trans hk h.2)⟩

theorem rooting_body_succ (d : Nat) (sc : FrameId) (sts : List Stmt) :
    ∀ (l : Value) (k : Nat), sc < k → l.Below k →
      Triple (Sound k) (Eval.body (n + 1) d sc sts l) (SoundWith k) (fun _ => Sound k) := by
  -- every statement of the list runs with the same fuel, so the induction is on the list
  induction sts with
  | nil =>
    intro l k _ hl
    simp only [Eval.body_succ_nil]
    exact Triple.ret fun _ h => ⟨h, hl.mono h.2⟩
  | cons st rest ihr =>
    intro l k hsc _
    simp only [Eval.body_succ_cons]
    exact Triple.bind (ih.stmt d sc st k hsc) fun v =>
      Sound.start (fun _ h => h.1) fun _ h => ihr v _ (Nat.lt_of_lt_of_le hsc h.1.2) h.2

end Succ

theorem rooting_succ {n : Nat} (ih : Rooting n) : Rooting (n + 1) where
  expr d sc e k hsc := rooting_expr_succ ih d sc e k hsc
  exprs d sc es k hsc := rooting_exprs_succ ih d sc es k hsc
  apply d f vs k hf hvs := rooting_apply_succ ih d f vs k hf hvs
  stmt d sc st k hsc := rooting_stmt_succ ih d sc st k hsc
  branch d sc st k hsc := rooting_branch_succ ih d sc st k hsc
  loop d sc c b l k hsc hl := rooting_loop_succ ih d sc c b l k hsc hl
  body d sc sts l k hsc hl := rooting_body_succ ih d sc sts l k hsc hl

/-- Every evaluation function, with any fuel, keeps the store rooted. -/
theorem rooting (fuel : Nat) : Rooting fuel := by
  induction fuel with
  | zero => exact rooting_zero
  | succ n ih => exact rooting_succ ih

/-! ## Assigning a constant -/

/-- Assigning a name that the global frame binds as a constant, from any frame of a rooted store
and at any level, changes no binding: it fails, with the machine as the value left it. It
evaluates the value and, if that succeeds, is refused; unless the nesting limit stops it, before
the value when the level of the assignment passes the limit, and after the value when the level
of the refusal does. -/
theorem exec_assign_constant (fuel d : Nat) (sc : FrameId) (x : String) (e : Expr) (m : Machine)
    (hroot : m.store.Rooted) (hsc : sc < m.store.frames.size)
    (hx : (m.store.frame? globalFrame).any (·.bindsConstant x) = true) :
    exec (expr (fuel + 1) d sc (.assign (.ident x) e)) m =
      if nestingLimit < d + 1 then (.error (.fault .nestingLimit), m)
      else match exec (expr fuel (d + 2) sc e) m with
        | (.ok _, m') =>
          (.error (.fault (if nestingLimit < d + 5 then .nestingLimit else .constantViolation x)), m')
        | (.error i, m') => (.error i, m') := by
  by_cases h1 : nestingLimit < d + 1
  · -- the assignment's own tests of the level come before the value
    rw [if_pos h1]
    by_cases h0 : nestingLimit < d
    · simp [Eval.expr, exec_bind, exec_reach, h0]
    · simp [Eval.expr, exec_bind, exec_reach, h0, h1]
  rw [if_neg h1]
  have h0 : ¬ nestingLimit < d := by omega
  have hgrow := grows_expr fuel (d + 2) sc e m
  have hsound := (rooting fuel).expr (d + 2) sc e _ hsc m ⟨hroot, Nat.le_refl _⟩
  rcases he : exec (expr fuel (d + 2) sc e) m with ⟨r, m'⟩
  rw [he] at hgrow hsound
  cases r with
  | error i => simp [Eval.expr, exec_bind, exec_reach, h0, h1, he]
  | ok v =>
    -- the value leaves the store rooted, with the frame and the constant where they were
    have hsc' : sc < m'.store.frames.size := Nat.lt_of_lt_of_le hsc hsound.1.2
    have htarget := hsound.1.1.assignTarget_constant hsc' (hgrow.bindsConstant hx)
    have hget : exec (get : Eval Machine) m' = (.ok m', m') := rfl
    by_cases h3 : nestingLimit < d + 3
    · have h5 : nestingLimit < d + 5 := by omega
      simp [Eval.expr, exec_bind, exec_reach, h0, h1, h3, h5, he]
    · by_cases h5 : nestingLimit < d + 5 <;>
        simp [Eval.expr, exec_bind, exec_reach, h0, h1, h3, h5, he, hget, htarget, exec_fail]

end Eval

/-! ## Sessions -/

namespace Session

open Store

/-- The first store of a session is rooted: one frame, whose constants keep no frame. -/
theorem rooted_start (natives : Bool) : (start natives).store.Rooted where
  wellFormed i f hf := by
    cases i with
    | zero =>
      cases natives <;>
        simp only [start, frame?, List.getElem?_toArray, List.getElem?_cons_zero,
          Option.some.injEq] at hf <;> subst hf <;> simp [Value.scope?]
    | succ i => cases natives <;> simp [start, frame?] at hf
  global := by cases natives <;> decide
  parent i f hf hi := by
    cases i with
    | zero => exact absurd rfl hi
    | succ i => cases natives <;> simp [start, frame?] at hf

variable [NestingLimit]

/-- A step keeps the store of a session rooted. -/
theorem rooted_step {s : Session} (hs : s.store.Rooted) (st : Step) : (s.step st).2.store.Rooted := by
  cases st with
  | run src =>
    simp only [step, store_run]
    cases Syntax.Program.parseAt (runLevel + 1) src with
    | error e => exact hs
    | ok prog =>
      dsimp only
      -- the program runs in the global frame, below a bound of one frame
      have h := (Eval.rooting evalFuel).body (runLevel + 3) globalFrame prog .null
        (globalFrame + 1) (Nat.lt_succ_self _) (Value.below_of_scope rfl _) ⟨s.store, ""⟩
        ⟨hs, hs.global⟩
      rcases hx : Eval.exec (Eval.body evalFuel (runLevel + 3) globalFrame prog .null)
        ⟨s.store, ""⟩ with ⟨r, m⟩
      rw [hx] at h
      cases r with
      | ok v => exact h.1.1
      | error i => exact h.1
  | addNative name action =>
    simp only [step, addNative, define]
    by_cases hn : s.store.has globalFrame name = true
    · simpa [hn] using hs
    · simpa [hn] using hs.bind globalFrame name (Value.below_of_scope rfl _) true

/-- Every store a session reaches is rooted. -/
theorem rooted_replay {s : Session} (hs : s.store.Rooted) (steps : List Step) :
    (s.replay steps).store.Rooted := by
  induction steps generalizing s with
  | nil => exact hs
  | cons st rest ih => exact ih (rooted_step hs st)

/-- A constant binding of the global frame keeps its place, mark and value through any steps. -/
theorem constant_binding_kept (s : Session) (steps : List Step) {f : Frame}
    (hf : s.store.frame? globalFrame = some f) {p : Nat} {b : Binding}
    (hb : f.bindings[p]? = some b) (hc : b.constant = true) :
    ∃ f', (s.replay steps).store.frame? globalFrame = some f' ∧ f'.bindings[p]? = some b := by
  obtain ⟨f', hf', he⟩ := (s.grows_replay steps).frame globalFrame f hf
  exact ⟨f', hf', he.constants p b hb hc⟩

/-- Constants stay constant. Every store a session reaches is rooted. Through any steps, a
constant binding of the global frame keeps its place, its mark and its value. From any frame of a
rooted store and at any level, assigning a name that the global frame binds as a constant fails
with the machine as the value left it, so that no binding of the name changes in any frame: it is
refused once the value is evaluated, unless the nesting limit stops it first. A declaration only
adds its own binding, not constant, to the frame it runs in, and a call adds no binding to a frame
that existed, its parameters being bound in a frame made for it. -/
theorem constants_stay :
    (∀ natives steps, ((start natives).replay steps).store.Rooted) ∧
    (∀ (s : Session) steps (f : Frame) (p : Nat) (b : Binding), s.store.frame? globalFrame = some f →
      f.bindings[p]? = some b → b.constant = true →
      ∃ f', (s.replay steps).store.frame? globalFrame = some f' ∧ f'.bindings[p]? = some b) ∧
    (∀ fuel d sc x e (m : Machine), m.store.Rooted → sc < m.store.frames.size →
      (m.store.frame? globalFrame).any (·.bindsConstant x) = true →
      Eval.exec (Eval.expr (fuel + 1) d sc (.assign (.ident x) e)) m =
        if nestingLimit < d + 1 then (.error (.fault .nestingLimit), m)
        else match Eval.exec (Eval.expr fuel (d + 2) sc e) m with
          | (.ok _, m') =>
            (.error (.fault (if nestingLimit < d + 5 then .nestingLimit else .constantViolation x)),
              m')
          | (.error i, m') => (.error i, m')) ∧
    (∀ fuel d sc x init (m : Machine),
      m.store.Grows (Eval.exec (Eval.stmt fuel d sc (.letDecl x init)) m).2.store
        (addTo noneAdded sc (match (Eval.exec (Eval.stmt fuel d sc (.letDecl x init)) m).1 with
          | .ok _ => [(x, false)]
          | .error _ => []))) ∧
    (∀ fuel d f vs (m : Machine),
      m.store.Grows (Eval.exec (Eval.apply fuel d f vs) m).2.store noneAdded) :=
  ⟨fun natives steps => rooted_replay (rooted_start natives) steps,
    fun s steps _ _ _ hf hb hc => constant_binding_kept s steps hf hb hc,
    fun fuel d sc x e m hroot hsc hx => Eval.exec_assign_constant fuel d sc x e m hroot hsc hx,
    fun fuel d sc x init m => Eval.grows_stmt fuel d sc (.letDecl x init) m,
    fun fuel d f vs m => Eval.grows_apply fuel d f vs m⟩

end Session

end Scriptlet

namespace Scriptlet.Session

open Syntax

/-- In a new session `null` is a constant of the global frame: it keeps its place and value
through a run that declares a name, and assigning it in the global frame is refused, the store
left as it was. -/
theorem constants_stay_null :
    (start true).store.frame? globalFrame = some ⟨[⟨"null", .null, true⟩, ⟨"true", .bool true, true⟩,
      ⟨"false", .bool false, true⟩, ⟨"print", .native "print" .print, true⟩], none⟩ ∧
      (∃ f', ((start true).replay [.run "let x = 1"]).store.frame? globalFrame = some f' ∧
        f'.bindings[0]? = some ⟨"null", .null, true⟩) ∧
      (start true).store.Rooted ∧ globalFrame < (start true).store.frames.size ∧
      ((start true).store.frame? globalFrame).any (·.bindsConstant "null") = true ∧
      Eval.exec (Eval.expr 3 10 globalFrame (.assign (.ident "null") (.ident "true")))
        ⟨(start true).store, ""⟩ =
          (.error (.fault (.constantViolation "null")), ⟨(start true).store, ""⟩) := by
  have hframe : (start true).store.frame? globalFrame = some ⟨[⟨"null", .null, true⟩,
      ⟨"true", .bool true, true⟩, ⟨"false", .bool false, true⟩,
      ⟨"print", .native "print" .print, true⟩], none⟩ := rfl
  have hroot := rooted_start true
  have hsize : globalFrame < (start true).store.frames.size := by decide
  have hconst : ((start true).store.frame? globalFrame).any (·.bindsConstant "null") = true := by
    decide
  have htrue : Eval.exec (Eval.expr 2 12 globalFrame (.ident "true")) ⟨(start true).store, ""⟩ =
      (.ok (.bool true), ⟨(start true).store, ""⟩) := by
    have hget : ∀ m, Eval.exec (get : Eval Machine) m = (.ok m, m) := fun _ => rfl
    simp [Eval.expr, Eval.exec_bind, Eval.exec_reach, hget, nestingLimit, Store.lookup, Store.find,
      Store.chain_eq, Store.frame?, start, globalFrame, Frame.binds, Frame.get?]
  have h := constants_stay
  refine ⟨hframe, h.2.1 _ _ _ 0 _ hframe rfl rfl, hroot, hsize, hconst, ?_⟩
  rw [h.2.2.1 2 10 globalFrame "null" _ _ hroot hsize hconst, htrue]
  simp [nestingLimit]

end Scriptlet.Session

namespace Scriptlet

namespace Eval

open Syntax

/-- `null` is read from the global frame of a new session. -/
theorem lookup_null_start (natives : Bool) :
    (Session.start natives).store.lookup globalFrame "null" = .ok .null := by
  cases natives <;> simp [Store.lookup, Store.find, Store.chain_eq, Store.frame?, Session.start,
    globalFrame, Frame.binds, Frame.get?]

/-- At the nesting limit the refusal comes too late: the value `null` is read at level 9998, but
the assignment `null = null` at level 9996 then fails for the depth, not as a constant
violation. -/
theorem assign_constant_at_limit :
    (exec (expr 1 9998 globalFrame (.ident "null")) ⟨(Session.start true).store, ""⟩).1 =
      .ok .null ∧
    (exec (expr 2 9996 globalFrame (.assign (.ident "null") (.ident "null")))
      ⟨(Session.start true).store, ""⟩).1 = .error (.fault .nestingLimit) := by
  have hget : ∀ m, exec (get : Eval Machine) m = (.ok m, m) := fun _ => rfl
  have htarget : (Session.start true).store.assignTarget globalFrame "null" =
      .error (.constantViolation "null") :=
    (Session.rooted_start true).assignTarget_constant (by decide)
      (by simp [Session.start, Store.frame?, globalFrame, Frame.bindsConstant])
  constructor
  · simp [Eval.expr, exec_bind, exec_reach, hget, lookup_null_start, nestingLimit]
  · simp [Eval.expr, exec_bind, exec_reach, hget, lookup_null_start, nestingLimit, htarget]

end Eval

end Scriptlet
