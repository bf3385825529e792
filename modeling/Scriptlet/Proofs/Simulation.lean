import Scriptlet.Proofs.Locality

/-!
# Two runs coupled by a renaming of frames

Evaluation reads the store only through `lookup`, `has` and `assignTarget`, and changes it only
through `bind`, `update`, `alloc` and the printed text. A relation between the machines of two
runs that these operations keep, once the frames of the first run are renamed into those of the
second, is a coupling (`Eval.Coupling`).

Every evaluation function keeps a coupling (`Eval.Coupling.steps`), also when the first run is
nested deeper or has less fuel than the second: then the two end alike, or the first stops early
at the nesting limit or out of fuel (`Eval.Tracks`). With both at the same level and with the same
fuel they end alike (`Eval.Coupling.lockstep_expr`, `Eval.Coupling.lockstep_stmt`).

The first run may evaluate in the open frames of the coupling; a statement binds a name in its own
frame, so it needs that frame owned: both runs bind there alike. Branches, loops and function
bodies run in frames made for them, which are owned; so a statement other than a declaration may
run in any open frame.

## Main definitions

* `Eval.Tracks`: a run that ends as another does, or stops early in an allowed way.
* `Eval.Coupling`: a relation between the machines of two runs that the store operations keep.

## Main statements

* `Eval.Coupling.steps`: every evaluation function, with any fuel, keeps a coupling.
* `Eval.Coupling.lockstep_expr`, `Eval.Coupling.lockstep_stmt`: at the same level and with the
  same fuel, coupled runs of an expression, and of a statement other than a declaration, end
  alike.
-/

set_option autoImplicit false

namespace Scriptlet.Value

variable (ρ ρ' : FrameId → FrameId) (v : Value)

/-- Renaming twice is renaming by the two renamings one after the other. -/
theorem rename_rename : (v.rename ρ).rename ρ' = v.rename fun c => ρ' (ρ c) := by
  cases v <;> rfl

theorem rename_self : v.rename (fun c => c) = v :=
  rename_of_fixed _ v fun _ _ => rfl

variable {ρ v} in
theorem scope?_of_rename {k : FrameId} (h : (v.rename ρ).scope? = some k) :
    ∃ c, v.scope? = some c ∧ ρ c = k := by
  rw [scope?_rename] at h
  exact Option.map_eq_some_iff.1 h

end Scriptlet.Value

namespace Scriptlet.Eval

open Store Syntax

/-! ## A run that tracks another -/

/-- Two evaluations where the first tracks the second: from machines related by `R` both end
alike, or the first stops early with an interruption that `Esc` allows. With no interruption
allowed this is `Lockstep`. -/
def Tracks {α β : Type} (Esc : Interrupt → Prop) (R : Machine → Machine → Prop)
    (V : α → β → Prop) (x : Eval α) (y : Eval β) : Prop :=
  ∀ m₁ m₂, R m₁ m₂ → Matches R V (exec x m₁) (exec y m₂) ∨ ∃ i, Esc i ∧ (exec x m₁).1 = .error i

/-- The levels of two runs: the first at least as deep, and deeper only where it may stop at the
nesting limit while the second goes on. -/
def Deeper (Esc : Interrupt → Prop) (d₁ d₂ : Nat) : Prop :=
  d₂ ≤ d₁ ∧ (d₂ < d₁ → Esc (.fault .nestingLimit))

/-- The fuel of two runs: the first has no more, and less only where it may stop out of fuel. -/
def Shorter (Esc : Interrupt → Prop) (f₁ f₂ : Nat) : Prop :=
  f₁ ≤ f₂ ∧ (f₁ < f₂ → Esc .outOfFuel)

/-- The interruptions a run nested deeper, or with less fuel, may meet where another goes on. -/
def Lagging (i : Interrupt) : Prop := i = .fault .nestingLimit ∨ i = .outOfFuel

section Lags

variable {Esc : Interrupt → Prop}

theorem Deeper.refl (d : Nat) : Deeper Esc d d :=
  ⟨Nat.le_refl d, fun h => absurd h (Nat.lt_irrefl d)⟩

theorem Deeper.add {d₁ d₂ : Nat} (h : Deeper Esc d₁ d₂) (j : Nat) :
    Deeper Esc (d₁ + j) (d₂ + j) :=
  ⟨Nat.add_le_add_right h.1 j, fun hlt => h.2 (by omega)⟩

theorem Shorter.refl (f : Nat) : Shorter Esc f f :=
  ⟨Nat.le_refl f, fun h => absurd h (Nat.lt_irrefl f)⟩

/-- A first run with fuel left is tracked by a second with fuel left, one step later. -/
theorem Shorter.succ {n f : Nat} (h : Shorter Esc (n + 1) f) :
    ∃ n', f = n' + 1 ∧ Shorter Esc n n' := by
  obtain ⟨hle, hlt⟩ := h
  exact ⟨f - 1, by omega, by omega, fun _ => hlt (by omega)⟩

theorem deeper_lagging {d₁ d₂ : Nat} (h : d₂ ≤ d₁) : Deeper Lagging d₁ d₂ :=
  ⟨h, fun _ => .inl rfl⟩

theorem shorter_lagging {f₁ f₂ : Nat} (h : f₁ ≤ f₂) : Shorter Lagging f₁ f₂ :=
  ⟨h, fun _ => .inr rfl⟩

end Lags

namespace Tracks

variable {α β γ δ : Type} {Esc : Interrupt → Prop} {R : Machine → Machine → Prop}
  {V : α → β → Prop} {W : γ → δ → Prop}

theorem of_lockstep {x : Eval α} {y : Eval β} (h : Lockstep R V x y) : Tracks Esc R V x y :=
  fun m₁ m₂ hR => .inl (h m₁ m₂ hR)

/-- With no early stop allowed, a run that tracks another is in lockstep with it. -/
theorem lockstep {x : Eval α} {y : Eval β} (h : Tracks (fun _ => False) R V x y) :
    Lockstep R V x y := by
  intro m₁ m₂ hR
  rcases h m₁ m₂ hR with h | ⟨_, hf, _⟩
  · exact h
  · exact hf.elim

theorem ret {a : α} {b : β} (h : V a b) : Tracks Esc R V (pure a) (pure b) :=
  of_lockstep (Lockstep.ret h)

theorem raise {e : Interrupt} : Tracks Esc R V (throw e : Eval α) (throw e : Eval β) :=
  of_lockstep Lockstep.raise

theorem fault {f : Fault} : Tracks Esc R V (fail f : Eval α) (fail f : Eval β) :=
  of_lockstep Lockstep.fault

theorem write {f g : Machine → Machine} (h : ∀ m₁ m₂, R m₁ m₂ → R (f m₁) (g m₂)) :
    Tracks Esc R (fun _ _ => True) (modify f) (modify g) :=
  of_lockstep (Lockstep.write h)

theorem update {f : Machine → α × Machine} {g : Machine → β × Machine}
    (h : ∀ m₁ m₂, R m₁ m₂ → V (f m₁).1 (g m₂).1 ∧ R (f m₁).2 (g m₂).2) :
    Tracks Esc R V (modifyGet f) (modifyGet g) :=
  of_lockstep (Lockstep.update h)

theorem ofExcept_self {e : Except Fault α} {V : α → α → Prop} (hV : ∀ a, e = .ok a → V a a) :
    Tracks Esc R V (Eval.ofExcept e) (Eval.ofExcept e) :=
  of_lockstep (Lockstep.ofExcept_self hV)

/-- A first run that stops with an allowed interruption tracks any second run. -/
theorem stop {i : Interrupt} {y : Eval β} (h : Esc i) : Tracks Esc R V (throw i : Eval α) y :=
  fun _ _ _ => .inr ⟨i, h, rfl⟩

variable [NestingLimit] in
/-- A test of the nesting level: the deeper first run passes only if the second does. -/
theorem reached {d₁ d₂ : Nat} (hd : Deeper Esc d₁ d₂) :
    Tracks Esc R (fun _ _ => True) (reach d₁) (reach d₂) := by
  intro m₁ m₂ hR
  simp only [exec_reach]
  by_cases h₁ : nestingLimit < d₁
  · by_cases h₂ : nestingLimit < d₂
    · simp only [if_pos h₁, if_pos h₂]
      exact .inl ⟨rfl, hR⟩
    · simp only [if_pos h₁]
      exact .inr ⟨_, hd.2 (by omega), rfl⟩
  · have h₂ : ¬ nestingLimit < d₂ := fun h => h₁ (Nat.lt_of_lt_of_le h hd.1)
    simp only [if_neg h₁, if_neg h₂]
    exact .inl ⟨trivial, hR⟩

/-- Tracking runs compose: the second parts start from related machines with related values,
and a first part that stopped early stops the whole. -/
theorem bind {x : Eval α} {y : Eval β} {f : α → Eval γ} {g : β → Eval δ}
    (hx : Tracks Esc R V x y) (hf : ∀ a b, V a b → Tracks Esc R W (f a) (g b)) :
    Tracks Esc R W (x >>= f) (y >>= g) := by
  intro m₁ m₂ hR
  have h := hx m₁ m₂ hR
  rw [exec_bind, exec_bind]
  rcases hx₁ : exec x m₁ with ⟨r₁, m₁'⟩
  rcases hy₂ : exec y m₂ with ⟨r₂, m₂'⟩
  rw [hx₁, hy₂] at h
  rcases h with h | ⟨i, hi, hr⟩
  · cases r₁ <;> cases r₂ <;> simp only [Matches] at h
    · exact .inl h
    · exact hf _ _ h.1 m₁' m₂' h.2
  · cases r₁ with
    | error e =>
      obtain rfl : e = i := by simpa using hr
      exact .inr ⟨e, hi, rfl⟩
    | ok a => cases hr

/-- A step that reads the machine: the rest tracks from any two related machines. -/
theorem read {f : Machine → Eval α} {g : Machine → Eval β}
    (h : ∀ m₁ m₂, R m₁ m₂ → Tracks Esc R V (f m₁) (g m₂)) :
    Tracks Esc R V (get >>= f) (get >>= g) :=
  fun m₁ m₂ hR => h m₁ m₂ hR m₁ m₂ hR

/-- Both runs take the same branch of a choice. -/
theorem cond {c c' : Prop} [Decidable c] [Decidable c'] {x x' : Eval α} {y y' : Eval β}
    (hc : c ↔ c') (ht : c → Tracks Esc R V x y) (he : ¬c → Tracks Esc R V x' y') :
    Tracks Esc R V (if c then x else x') (if c' then y else y') := by
  by_cases h : c
  · rw [if_pos h, if_pos (hc.1 h)]; exact ht h
  · rw [if_neg h, if_neg (mt hc.2 h)]; exact he h

end Tracks

/-! ## Couplings -/

/-- A relation `R` between the machines of two runs that the operations of the store keep, once
the frames of the first run are renamed by `rename`. The first run evaluates in `Open` frames and
binds in `Owned` ones; values keep only open frames. -/
structure Coupling where
  /-- The frame of the second run that stands for a frame of the first. -/
  rename : FrameId → FrameId
  /-- The frames the first run may evaluate in. -/
  Open : FrameId → Prop
  /-- The frames in which both runs bind alike. -/
  Owned : FrameId → Prop
  /-- The machines of the two runs that correspond. -/
  R : Machine → Machine → Prop
  open_of_owned : ∀ i, Owned i → Open i
  lookup : ∀ m₁ m₂ i n, R m₁ m₂ → Open i →
    m₂.store.lookup (rename i) n = (m₁.store.lookup i n).map (Value.rename rename) ∧
      ∀ v, m₁.store.lookup i n = .ok v → ∀ c, v.scope? = some c → Open c
  assignTarget : ∀ m₁ m₂ i n, R m₁ m₂ → Open i →
    m₂.store.assignTarget (rename i) n = (m₁.store.assignTarget i n).map rename ∧
      ∀ j, m₁.store.assignTarget i n = .ok j → Owned j
  has : ∀ m₁ m₂ i n, R m₁ m₂ → Owned i → m₂.store.has (rename i) n = m₁.store.has i n
  bind : ∀ m₁ m₂ i n (v : Value) c, R m₁ m₂ → Owned i → (∀ k, v.scope? = some k → Open k) →
    R ⟨m₁.store.bind i n v c, m₁.printed⟩
      ⟨m₂.store.bind (rename i) n (v.rename rename) c, m₂.printed⟩
  update : ∀ m₁ m₂ j n (v : Value), R m₁ m₂ → Owned j → (∀ k, v.scope? = some k → Open k) →
    R ⟨m₁.store.update j n v, m₁.printed⟩
      ⟨m₂.store.update (rename j) n (v.rename rename), m₂.printed⟩
  alloc : ∀ m₁ m₂ p, R m₁ m₂ → Open p →
    rename m₁.store.frames.size = m₂.store.frames.size ∧ Owned m₁.store.frames.size ∧
      R ⟨(m₁.store.alloc p).1, m₁.printed⟩ ⟨(m₂.store.alloc (rename p)).1, m₂.printed⟩
  emit : ∀ m₁ m₂ t, R m₁ m₂ → R ⟨m₁.store, m₁.printed ++ t⟩ ⟨m₂.store, m₂.printed ++ t⟩

namespace Coupling

variable (K : Coupling)

/-- Values of the two runs that correspond: the second is the first renamed, and the first keeps
only an open frame. -/
def V (v₁ v₂ : Value) : Prop :=
  v₂ = v₁.rename K.rename ∧ ∀ c, v₁.scope? = some c → K.Open c

variable {K} {Esc : Interrupt → Prop}

theorem v_of_scope {v : Value} (hv : v.scope? = none) : K.V v v :=
  ⟨(Value.rename_of_fixed _ v fun c hc => by simp [hv] at hc).symm, fun c hc => by simp [hv] at hc⟩

theorem v_null : K.V .null .null := v_of_scope rfl

/-- Corresponding lists of values are the renamed list. -/
theorem v_list {vs₁ vs₂ : List Value} (h : List.Forall₂ K.V vs₁ vs₂) :
    vs₂ = vs₁.map (Value.rename K.rename) := by
  induction h with
  | nil => rfl
  | cons hv _ ih => simp [hv.1, ih]

/-! ## The steps of evaluation, coupled -/

/-- Both runs make their next frame, the second run's standing for the first's. -/
theorem tracks_newFrame {p : FrameId} (hp : K.Open p) :
    Tracks Esc K.R (fun i j => j = K.rename i ∧ K.Owned i) (newFrame p)
      (newFrame (K.rename p)) := by
  refine Tracks.update fun ⟨st₁, out₁⟩ ⟨st₂, out₂⟩ h => ?_
  obtain ⟨hsize, hown, hR⟩ := K.alloc _ _ p h hp
  exact ⟨⟨hsize.symm, hown⟩, hR⟩

theorem tracks_emit (text : String) :
    Tracks Esc K.R (fun _ _ => True) (Eval.emit text) (Eval.emit text) :=
  Tracks.write fun ⟨_, _⟩ ⟨_, _⟩ h => K.emit _ _ text h

variable [NestingLimit]

/-- A condition is tested alike on corresponding values. -/
theorem tracks_truth {d₁ d₂ : Nat} (hd : Deeper Esc d₁ d₂) {v₁ v₂ : Value} (hv : K.V v₁ v₂) :
    Tracks Esc K.R (· = ·) (truth d₁ v₁) (truth d₂ v₂) := by
  obtain ⟨rfl, -⟩ := hv
  refine Tracks.bind (Tracks.reached hd) fun _ _ _ => ?_
  cases v₁ with
  | bool b => exact Tracks.ret rfl
  | _ =>
    exact Tracks.bind (Tracks.reached (hd.add 1)) fun _ _ _ => by
      simpa only [Value.type_rename] using Tracks.fault

/-- Parameters are bound alike in an owned frame and in the frame standing for it. -/
theorem tracks_bindParams {d₁ d₂ : Nat} (hd : Deeper Esc d₁ d₂) {i : FrameId} (hi : K.Owned i) :
    ∀ (ps : List String) {vs₁ vs₂ : List Value}, List.Forall₂ K.V vs₁ vs₂ →
      Tracks Esc K.R (fun _ _ => True) (bindParams d₁ i ps vs₁)
        (bindParams d₂ (K.rename i) ps vs₂)
  | [], _, _, _ => Tracks.ret trivial
  | p :: ps, vs₁, vs₂, hvs => by
    simp only [bindParams]
    refine Tracks.bind (Tracks.reached hd) fun _ _ _ => Tracks.read fun m₁ m₂ h => ?_
    -- the argument bound and the rest of the arguments, on both sides
    have hhead : K.V (vs₁.headD .null) (vs₂.headD .null) := by
      cases hvs with
      | nil => exact v_null
      | cons hv _ => exact hv
    have htail : List.Forall₂ K.V vs₁.tail vs₂.tail := by
      cases hvs with
      | nil => exact .nil
      | cons _ hr => exact hr
    have hrest : Tracks Esc K.R (fun _ _ => True)
        (modify (fun x => ⟨x.store.bind i p (vs₁.headD .null) false, x.printed⟩) >>= fun _ =>
          bindParams d₁ i ps vs₁.tail)
        (modify (fun x => ⟨x.store.bind (K.rename i) p (vs₂.headD .null) false, x.printed⟩)
          >>= fun _ => bindParams d₂ (K.rename i) ps vs₂.tail) := by
      refine Tracks.bind (Tracks.write ?_) fun _ _ _ => tracks_bindParams hd hi ps htail
      rintro ⟨_, _⟩ ⟨_, _⟩ h
      rw [hhead.1]
      exact K.bind _ _ i p _ false h hi hhead.2
    refine Tracks.cond (by rw [K.has _ _ i p h hi]) (fun _ => ?_) fun _ => hrest
    exact Tracks.bind (Tracks.reached (hd.add 3)) fun _ _ _ =>
      Tracks.bind (Tracks.fault : Tracks _ _ (fun _ _ => True) _ _) fun _ _ _ => hrest

/-- A host function gives corresponding results on corresponding arguments, and prints the
same. -/
theorem tracks_native {d₁ d₂ : Nat} (hd : Deeper Esc d₁ d₂) (action : NativeAction)
    {vs₁ vs₂ : List Value} (hvs : List.Forall₂ K.V vs₁ vs₂) :
    Tracks Esc K.R K.V (native d₁ action vs₁) (native d₂ action vs₂) := by
  have hmap := v_list hvs
  subst hmap
  simp only [native]
  refine Tracks.bind (Tracks.reached (hd.add 2)) fun _ _ _ => ?_
  cases action with
  | print =>
    simp only [List.map_map, Function.comp_def, Value.display_rename, Value.displayDepth_rename,
      List.isEmpty_map]
    have hprint : Tracks Esc K.R K.V
        (Eval.emit (" ".intercalate (vs₁.map Value.display) ++ "\n") >>= fun _ => pure .null)
        (Eval.emit (" ".intercalate (vs₁.map Value.display) ++ "\n") >>= fun _ => pure .null) :=
      Tracks.bind (tracks_emit _) fun _ _ _ => Tracks.ret v_null
    refine Tracks.bind (Tracks.reached (hd.add 3)) fun _ _ _ =>
      Tracks.cond Iff.rfl (fun _ => ?_) fun _ => hprint
    exact Tracks.bind (Tracks.reached ((hd.add 6).add _)) fun _ _ _ => hprint
  | returnNothing =>
    exact Tracks.bind (Tracks.reached (hd.add 1)) fun _ _ _ => Tracks.ret v_null
  | countArgs =>
    simp only [List.length_map]
    exact Tracks.bind (Tracks.reached (hd.add 4)) fun _ _ _ => Tracks.ret (v_of_scope rfl)
  | firstArg =>
    refine Tracks.bind (Tracks.reached (hd.add 1)) fun _ _ _ => Tracks.ret ?_
    cases hvs with
    | nil => exact v_null
    | cons hv _ => simpa [hv.1] using hv
  | lastArg =>
    refine Tracks.bind (Tracks.reached (hd.add 1)) fun _ _ _ => Tracks.ret ?_
    have hall := List.forall₂_same.1 (List.forall₂_map_right_iff.1 hvs)
    simp only [List.getLastD_eq_getLast?, List.getLast?_map]
    cases hl : vs₁.getLast? with
    | none => exact v_null
    | some v => exact hall v (List.mem_of_getLast? hl)

/-- A declaration binds alike in an owned frame and in the frame standing for it. -/
theorem tracks_declare {d₁ d₂ : Nat} (hd : Deeper Esc d₁ d₂) {sc : FrameId} (hsc : K.Owned sc)
    (x : String) {v₁ v₂ : Value} (hv : K.V v₁ v₂) :
    Tracks Esc K.R K.V
      (do
        reach (d₁ + 2)
        if (← get).store.has sc x then
          reach (d₁ + 5)
          fail (.alreadyDefined x)
        modify fun m => ⟨m.store.bind sc x v₁ false, m.printed⟩
        return v₁)
      (do
        reach (d₂ + 2)
        if (← get).store.has (K.rename sc) x then
          reach (d₂ + 5)
          fail (.alreadyDefined x)
        modify fun m => ⟨m.store.bind (K.rename sc) x v₂ false, m.printed⟩
        return v₂) := by
  have hrest : Tracks Esc K.R K.V
      (modify (fun m => ⟨m.store.bind sc x v₁ false, m.printed⟩) >>= fun _ => pure v₁)
      (modify (fun m => ⟨m.store.bind (K.rename sc) x v₂ false, m.printed⟩) >>= fun _ =>
        pure v₂) := by
    refine Tracks.bind (Tracks.write fun ⟨_, _⟩ ⟨_, _⟩ h => ?_) fun _ _ _ => Tracks.ret hv
    rw [hv.1]
    exact K.bind _ _ sc x _ false h hsc hv.2
  refine Tracks.bind (Tracks.reached (hd.add 2)) fun _ _ _ => Tracks.read fun m₁ m₂ h => ?_
  exact Tracks.cond (by rw [K.has _ _ sc x h hsc]) (fun _ => Tracks.bind (Tracks.reached (hd.add 5))
    fun _ _ _ => Tracks.bind (Tracks.fault : Tracks _ _ (fun _ _ => True) _ _)
      fun _ _ _ => hrest) fun _ => hrest

/-! ## Every evaluation function, coupled -/

variable (K Esc) in
/-- The first run with `fuel` steps left tracks the second with `fuel'`, at a level at least as
deep: expressions, branches and loops from an open frame, statements and statements in a row from
an owned one, each with the frame standing for it in the second run, and from corresponding
values. -/
structure Steps (fuel fuel' : Nat) : Prop where
  expr : ∀ d d' sc e, Deeper Esc d d' → K.Open sc →
    Tracks Esc K.R K.V (Eval.expr fuel d sc e) (Eval.expr fuel' d' (K.rename sc) e)
  exprs : ∀ d d' sc es, Deeper Esc d d' → K.Open sc → Tracks Esc K.R (List.Forall₂ K.V)
    (Eval.exprs fuel d sc es) (Eval.exprs fuel' d' (K.rename sc) es)
  apply : ∀ d d' f₁ f₂ vs₁ vs₂, Deeper Esc d d' → K.V f₁ f₂ → List.Forall₂ K.V vs₁ vs₂ →
    Tracks Esc K.R K.V (Eval.apply fuel d f₁ vs₁) (Eval.apply fuel' d' f₂ vs₂)
  stmt : ∀ d d' sc st, Deeper Esc d d' → K.Owned sc →
    Tracks Esc K.R K.V (Eval.stmt fuel d sc st) (Eval.stmt fuel' d' (K.rename sc) st)
  branch : ∀ d d' sc st, Deeper Esc d d' → K.Open sc →
    Tracks Esc K.R K.V (Eval.branch fuel d sc st) (Eval.branch fuel' d' (K.rename sc) st)
  loop : ∀ d d' sc c b l₁ l₂, Deeper Esc d d' → K.Open sc → K.V l₁ l₂ →
    Tracks Esc K.R K.V (Eval.loop fuel d sc c b l₁) (Eval.loop fuel' d' (K.rename sc) c b l₂)
  body : ∀ d d' sc sts l₁ l₂, Deeper Esc d d' → K.Owned sc → K.V l₁ l₂ →
    Tracks Esc K.R K.V (Eval.body fuel d sc sts l₁) (Eval.body fuel' d' (K.rename sc) sts l₂)

/-- Out of fuel, the first run stops at once: so does the second if it is out of fuel too, and
otherwise the first may stop early. -/
theorem steps_zero {fuel' : Nat} (hf : Shorter Esc 0 fuel') : K.Steps Esc 0 fuel' := by
  cases fuel' with
  | zero =>
    exact ⟨fun _ _ _ _ _ _ => by simp only [Eval.expr]; exact Tracks.raise,
      fun _ _ _ _ _ _ => by simp only [Eval.exprs]; exact Tracks.raise,
      fun _ _ _ _ _ _ _ _ _ => by simp only [Eval.apply]; exact Tracks.raise,
      fun _ _ _ _ _ _ => by simp only [Eval.stmt]; exact Tracks.raise,
      fun _ _ _ _ _ _ => by simp only [Eval.branch]; exact Tracks.raise,
      fun _ _ _ _ _ _ _ _ _ _ => by simp only [Eval.loop]; exact Tracks.raise,
      fun _ _ _ _ _ _ _ _ _ => by simp only [Eval.body]; exact Tracks.raise⟩
  | succ n =>
    have hstop : Esc .outOfFuel := hf.2 (Nat.succ_pos n)
    exact ⟨fun _ _ _ _ _ _ => by simp only [Eval.expr]; exact Tracks.stop hstop,
      fun _ _ _ _ _ _ => by simp only [Eval.exprs]; exact Tracks.stop hstop,
      fun _ _ _ _ _ _ _ _ _ => by simp only [Eval.apply]; exact Tracks.stop hstop,
      fun _ _ _ _ _ _ => by simp only [Eval.stmt]; exact Tracks.stop hstop,
      fun _ _ _ _ _ _ => by simp only [Eval.branch]; exact Tracks.stop hstop,
      fun _ _ _ _ _ _ _ _ _ _ => by simp only [Eval.loop]; exact Tracks.stop hstop,
      fun _ _ _ _ _ _ _ _ _ => by simp only [Eval.body]; exact Tracks.stop hstop⟩

section Succ

variable {n n' : Nat} (ih : K.Steps Esc n n')
include ih

theorem tracks_expr_succ {d d' : Nat} (hd : Deeper Esc d d') {sc : FrameId} (hsc : K.Open sc)
    (e : Expr) :
    Tracks Esc K.R K.V (Eval.expr (n + 1) d sc e) (Eval.expr (n' + 1) d' (K.rename sc) e) := by
  cases e with
  | ident x =>
    simp only [Eval.expr]
    refine Tracks.bind (Tracks.reached hd) fun _ _ _ => Tracks.bind (Tracks.reached (hd.add 2))
      fun _ _ _ => Tracks.read fun m₁ m₂ h => ?_
    obtain ⟨hl, hv⟩ := K.lookup _ _ sc x h hsc
    rw [hl]
    cases hx : m₁.store.lookup sc x with
    | ok v => exact Tracks.ret ⟨rfl, hv v hx⟩
    | error f => exact Tracks.bind (Tracks.reached (hd.add 4)) fun _ _ _ => Tracks.fault
  | num text form pos =>
    simp only [Eval.expr]
    exact Tracks.bind (Tracks.reached hd) fun _ _ _ => Tracks.bind (Tracks.reached (hd.add 4))
      fun _ _ _ => Tracks.ret (v_of_scope rfl)
  | str t =>
    simp only [Eval.expr]
    exact Tracks.bind (Tracks.reached hd) fun _ _ _ => Tracks.bind (Tracks.reached (hd.add 3))
      fun _ _ _ => Tracks.ret (v_of_scope rfl)
  | binary op pos l r =>
    simp only [Eval.expr]
    refine Tracks.bind (Tracks.reached hd) fun _ _ _ => Tracks.bind (Tracks.reached (hd.add 1))
      fun _ _ _ => Tracks.bind (ih.expr _ _ _ l (hd.add 2) hsc) fun a₁ a₂ ha =>
        Tracks.bind (ih.expr _ _ _ r (hd.add 2) hsc) fun b₁ b₂ hb =>
          Tracks.bind (Tracks.reached (hd.add 3)) fun _ _ _ => ?_
    obtain ⟨rfl, -⟩ := ha
    obtain ⟨rfl, -⟩ := hb
    rw [binaryValue_rename]
    have hval : Tracks Esc K.R K.V (ofExcept (binaryValue op a₁ b₁))
        (ofExcept (binaryValue op a₁ b₁)) :=
      Tracks.ofExcept_self fun v hv => v_of_scope (binaryValue_scope hv)
    refine Tracks.bind hval fun v₁ v₂ hv => ?_
    -- a number result is checked once more, on both sides
    refine Tracks.cond ?_ (fun _ => Tracks.bind (Tracks.reached (hd.add 4)) fun _ _ _ =>
      Tracks.ret hv) fun _ => Tracks.ret hv
    rw [hv.1]
    cases v₁ <;> exact Iff.rfl
  | unary sg pos x =>
    simp only [Eval.expr]
    refine Tracks.bind (Tracks.reached hd) fun _ _ _ => Tracks.bind (Tracks.reached (hd.add 1))
      fun _ _ _ => Tracks.bind (ih.expr _ _ _ x (hd.add 2) hsc) fun a₁ a₂ ha =>
        Tracks.bind (Tracks.reached (hd.add 3)) fun _ _ _ => ?_
    obtain ⟨rfl, -⟩ := ha
    rw [unaryValue_rename]
    have hval : Tracks Esc K.R K.V (ofExcept (unaryValue sg a₁)) (ofExcept (unaryValue sg a₁)) :=
      Tracks.ofExcept_self fun v hv => v_of_scope (unaryValue_scope hv)
    exact Tracks.bind hval fun v₁ v₂ hv =>
      Tracks.bind (Tracks.reached (hd.add 4)) fun _ _ _ => Tracks.ret hv
  | assign t v =>
    cases t
    case ident x =>
      simp only [Eval.expr]
      refine Tracks.bind (Tracks.reached hd) fun _ _ _ => Tracks.bind (Tracks.reached (hd.add 1))
        fun _ _ _ => Tracks.bind (ih.expr _ _ _ v (hd.add 2) hsc) fun v₁ v₂ hv =>
          Tracks.bind (Tracks.reached (hd.add 3)) fun _ _ _ => Tracks.read fun m₁ m₂ h => ?_
      obtain ⟨ha, hj⟩ := K.assignTarget _ _ sc x h hsc
      rw [ha]
      cases hx : m₁.store.assignTarget sc x with
      | ok j =>
        refine Tracks.bind (Tracks.write ?_) fun _ _ _ => Tracks.ret hv
        rintro ⟨_, _⟩ ⟨_, _⟩ h'
        rw [hv.1]
        exact K.update _ _ j x _ h' (hj j hx) hv.2
      | error f => exact Tracks.bind (Tracks.reached (hd.add 5)) fun _ _ _ => Tracks.fault
    all_goals
      simp only [Eval.expr]
      exact Tracks.bind (Tracks.reached hd) fun _ _ _ => Tracks.bind (Tracks.reached (hd.add 1))
        fun _ _ _ => Tracks.bind (Tracks.reached (hd.add 3)) fun _ _ _ => Tracks.fault
  | call callee args =>
    simp only [Eval.expr]
    refine Tracks.bind (Tracks.reached hd) fun _ _ _ => Tracks.bind (Tracks.reached (hd.add 1))
      fun _ _ _ => Tracks.bind (ih.expr _ _ _ callee (hd.add 2) hsc) fun f₁ f₂ hf =>
        Tracks.bind (Tracks.reached (hd.add 2)) fun _ _ _ => ?_
    refine Tracks.cond (by rw [hf.1, Value.isCallable_rename]) (fun _ =>
      Tracks.bind (ih.exprs _ _ _ args (hd.add 3) hsc) fun vs₁ vs₂ hvs =>
        ih.apply _ _ _ _ _ _ (hd.add 2) hf hvs) fun _ => ?_
    rw [hf.1, Value.type_rename]
    exact Tracks.fault
  | func ps body =>
    simp only [Eval.expr]
    exact Tracks.bind (Tracks.reached hd) fun _ _ _ => Tracks.bind (Tracks.reached (hd.add 4))
      fun _ _ _ => Tracks.ret ⟨rfl, fun c hc => by cases hc; exact hsc⟩

theorem tracks_exprs_succ {d d' : Nat} (hd : Deeper Esc d d') {sc : FrameId} (hsc : K.Open sc)
    (es : List Expr) :
    Tracks Esc K.R (List.Forall₂ K.V) (Eval.exprs (n + 1) d sc es)
      (Eval.exprs (n' + 1) d' (K.rename sc) es) := by
  cases es with
  | nil =>
    simp only [Eval.exprs]
    exact Tracks.ret .nil
  | cons e rest =>
    simp only [Eval.exprs]
    exact Tracks.bind (ih.expr _ _ _ e hd hsc) fun v₁ v₂ hv =>
      Tracks.bind (ih.exprs _ _ _ rest hd hsc) fun vs₁ vs₂ hvs => Tracks.ret (.cons hv hvs)

/-- A call runs the body of a function in a new frame under the frame it keeps, open, and under
the frame standing for it. -/
theorem tracks_apply_succ {d d' : Nat} (hd : Deeper Esc d d') {f₁ f₂ : Value} (hf : K.V f₁ f₂)
    {vs₁ vs₂ : List Value} (hvs : List.Forall₂ K.V vs₁ vs₂) :
    Tracks Esc K.R K.V (Eval.apply (n + 1) d f₁ vs₁) (Eval.apply (n' + 1) d' f₂ vs₂) := by
  obtain ⟨rfl, hkept⟩ := hf
  cases f₁ with
  | closure ps stmts c =>
    have hc : K.Open c := hkept c rfl
    simp only [Eval.apply, Value.rename]
    refine Tracks.bind (Tracks.reached (hd.add 1)) fun _ _ _ =>
      Tracks.bind (Tracks.reached (hd.add 3)) fun _ _ _ =>
        Tracks.bind (tracks_newFrame hc) fun fr₁ fr₂ hfr => ?_
    obtain ⟨rfl, hfr⟩ := hfr
    have hbody := ih.body _ _ _ stmts _ _ (hd.add 3) hfr v_null
    -- extra arguments are noticed alike, since both lists have the same length
    exact Tracks.bind (tracks_bindParams (hd.add 2) hfr ps hvs) fun _ _ _ =>
      Tracks.cond (by rw [hvs.length_eq]) (fun _ => Tracks.bind (Tracks.reached (hd.add 3))
        fun _ _ _ => hbody) fun _ => hbody
  | native name action =>
    simp only [Eval.apply, Value.rename]
    exact Tracks.bind (Tracks.reached (hd.add 1)) fun _ _ _ => tracks_native (hd.add 1) action hvs
  | _ =>
    simp only [Eval.apply, Value.rename]
    exact Tracks.bind (Tracks.reached (hd.add 1)) fun _ _ _ => Tracks.fault

/-- A branch runs in a new frame under an open frame, and under the frame standing for it. -/
theorem tracks_branch_succ {d d' : Nat} (hd : Deeper Esc d d') {sc : FrameId} (hsc : K.Open sc)
    (st : Stmt) :
    Tracks Esc K.R K.V (Eval.branch (n + 1) d sc st)
      (Eval.branch (n' + 1) d' (K.rename sc) st) := by
  cases st
  case block stmts =>
    simp only [Eval.branch]
    refine Tracks.bind (Tracks.reached (hd.add 2)) fun _ _ _ =>
      Tracks.bind (tracks_newFrame hsc) fun fr₁ fr₂ hfr => ?_
    obtain ⟨rfl, hfr⟩ := hfr
    exact ih.body _ _ _ stmts _ _ (hd.add 2) hfr v_null
  all_goals
    simp only [Eval.branch]
    refine Tracks.bind (Tracks.reached (hd.add 2)) fun _ _ _ =>
      Tracks.bind (tracks_newFrame hsc) fun fr₁ fr₂ hfr => ?_
    obtain ⟨rfl, hfr⟩ := hfr
    exact ih.stmt _ _ _ _ (hd.add 1) hfr

/-- A statement other than a declaration binds nothing in its own frame, which need only be
open. -/
theorem tracks_stmt_open_succ {d d' : Nat} (hd : Deeper Esc d d') {sc : FrameId}
    (hsc : K.Open sc) (st : Stmt) (hst : ∀ x init, st ≠ .letDecl x init) :
    Tracks Esc K.R K.V (Eval.stmt (n + 1) d sc st) (Eval.stmt (n' + 1) d' (K.rename sc) st) := by
  cases st with
  | expr e =>
    simp only [Eval.stmt]
    exact ih.expr _ _ _ e hd hsc
  | block stmts =>
    simp only [Eval.stmt]
    refine Tracks.bind (Tracks.reached (hd.add 3)) fun _ _ _ =>
      Tracks.bind (tracks_newFrame hsc) fun fr₁ fr₂ hfr => ?_
    obtain ⟨rfl, hfr⟩ := hfr
    exact ih.body _ _ _ stmts _ _ (hd.add 3) hfr v_null
  | letDecl x init => exact absurd rfl (hst x init)
  | ite c th el =>
    have hcond := ih.expr _ _ _ c (hd.add 2) hsc
    cases el with
    | some st =>
      simp only [Eval.stmt]
      refine Tracks.bind (Tracks.reached (hd.add 1)) fun _ _ _ => Tracks.bind hcond
        fun cv₁ cv₂ hcv => Tracks.bind (tracks_truth (hd.add 2) hcv) fun t₁ t₂ ht => ?_
      subst ht
      exact Tracks.cond Iff.rfl (fun _ => ih.branch _ _ _ th (hd.add 2) hsc)
        fun _ => ih.branch _ _ _ st (hd.add 2) hsc
    | none =>
      simp only [Eval.stmt]
      refine Tracks.bind (Tracks.reached (hd.add 1)) fun _ _ _ => Tracks.bind hcond
        fun cv₁ cv₂ hcv => Tracks.bind (tracks_truth (hd.add 2) hcv) fun t₁ t₂ ht => ?_
      subst ht
      exact Tracks.cond Iff.rfl (fun _ => ih.branch _ _ _ th (hd.add 2) hsc)
        fun _ => Tracks.ret v_null
  | loop c b =>
    simp only [Eval.stmt]
    exact Tracks.bind (Tracks.reached (hd.add 1)) fun _ _ _ =>
      ih.loop _ _ _ c b _ _ (hd.add 1) hsc v_null

/-- A statement in an owned frame: a declaration binds alike on both sides. -/
theorem tracks_stmt_succ {d d' : Nat} (hd : Deeper Esc d d') {sc : FrameId} (hsc : K.Owned sc)
    (st : Stmt) :
    Tracks Esc K.R K.V (Eval.stmt (n + 1) d sc st) (Eval.stmt (n' + 1) d' (K.rename sc) st) := by
  cases st with
  | letDecl x init =>
    cases init with
    | some e =>
      simp only [Eval.stmt]
      exact Tracks.bind (Tracks.reached (hd.add 1)) fun _ _ _ =>
        Tracks.bind (ih.expr _ _ _ e (hd.add 2) (K.open_of_owned sc hsc)) fun v₁ v₂ hv =>
          tracks_declare hd hsc x hv
    | none =>
      simp only [Eval.stmt]
      exact Tracks.bind (Tracks.reached (hd.add 1)) fun _ _ _ =>
        Tracks.bind (Tracks.ret v_null) fun v₁ v₂ hv => tracks_declare hd hsc x hv
  | _ => exact tracks_stmt_open_succ ih hd (K.open_of_owned sc hsc) _ fun _ _ h => by cases h

/-- Each round of a loop tests its condition in a new frame and runs its body as a branch. -/
theorem tracks_loop_succ {d d' : Nat} (hd : Deeper Esc d d') {sc : FrameId} (hsc : K.Open sc)
    (c : Expr) (b : Stmt) {l₁ l₂ : Value} (hl : K.V l₁ l₂) :
    Tracks Esc K.R K.V (Eval.loop (n + 1) d sc c b l₁)
      (Eval.loop (n' + 1) d' (K.rename sc) c b l₂) := by
  simp only [Eval.loop]
  refine Tracks.bind (Tracks.reached (hd.add 2)) fun _ _ _ =>
    Tracks.bind (tracks_newFrame hsc) fun fr₁ fr₂ hfr => ?_
  obtain ⟨rfl, hfr⟩ := hfr
  refine Tracks.bind (ih.expr _ _ _ c (hd.add 1) (K.open_of_owned _ hfr)) fun cv₁ cv₂ hcv =>
    Tracks.bind (tracks_truth (hd.add 1) hcv) fun t₁ t₂ ht => ?_
  subst ht
  exact Tracks.cond Iff.rfl (fun _ => Tracks.bind (ih.branch _ _ _ b (hd.add 1) hsc)
    fun v₁ v₂ hv => ih.loop _ _ _ c b _ _ hd hsc hv) fun _ => Tracks.ret hl

theorem tracks_body_succ {d d' : Nat} (hd : Deeper Esc d d') {sc : FrameId} (hsc : K.Owned sc)
    (sts : List Stmt) {l₁ l₂ : Value} (hl : K.V l₁ l₂) :
    Tracks Esc K.R K.V (Eval.body (n + 1) d sc sts l₁)
      (Eval.body (n' + 1) d' (K.rename sc) sts l₂) := by
  -- every statement of the list runs with the same fuel, so the induction is on the list
  induction sts generalizing l₁ l₂ with
  | nil =>
    simp only [Eval.body_succ_nil]
    exact Tracks.ret hl
  | cons st rest ihr =>
    simp only [Eval.body_succ_cons]
    exact Tracks.bind (ih.stmt _ _ _ st hd hsc) fun v₁ v₂ hv => ihr hv

end Succ

theorem steps_succ {n n' : Nat} (ih : K.Steps Esc n n') : K.Steps Esc (n + 1) (n' + 1) where
  expr _ _ _ e hd hsc := tracks_expr_succ ih hd hsc e
  exprs _ _ _ es hd hsc := tracks_exprs_succ ih hd hsc es
  apply _ _ _ _ _ _ hd hf hvs := tracks_apply_succ ih hd hf hvs
  stmt _ _ _ st hd hsc := tracks_stmt_succ ih hd hsc st
  branch _ _ _ st hd hsc := tracks_branch_succ ih hd hsc st
  loop _ _ _ c b _ _ hd hsc hl := tracks_loop_succ ih hd hsc c b hl
  body _ _ _ sts _ _ hd hsc hl := tracks_body_succ ih hd hsc sts hl

variable (K) in
/-- Every evaluation function keeps a coupling, the first run tracking the second when it has no
more fuel. -/
theorem steps {fuel fuel' : Nat} (hf : Shorter Esc fuel fuel') : K.Steps Esc fuel fuel' := by
  induction fuel generalizing fuel' with
  | zero => exact steps_zero hf
  | succ n ih =>
    obtain ⟨n', rfl, hn⟩ := hf.succ
    exact steps_succ (ih hn)

variable (K) in
/-- A statement other than a declaration keeps a coupling from any open frame. -/
theorem tracks_stmt_open {fuel fuel' d d' : Nat} (hf : Shorter Esc fuel fuel')
    (hd : Deeper Esc d d') {sc : FrameId} (hsc : K.Open sc) (st : Stmt)
    (hst : ∀ x init, st ≠ .letDecl x init) :
    Tracks Esc K.R K.V (Eval.stmt fuel d sc st) (Eval.stmt fuel' d' (K.rename sc) st) := by
  cases fuel with
  | zero =>
    -- out of fuel the statement is not looked at
    cases fuel' with
    | zero => simp only [Eval.stmt]; exact Tracks.raise
    | succ n => simp only [Eval.stmt]; exact Tracks.stop (hf.2 (Nat.succ_pos n))
  | succ n =>
    obtain ⟨n', rfl, hn⟩ := hf.succ
    exact tracks_stmt_open_succ (K.steps hn) hd hsc st hst

variable (K) in
/-- At the same level and with the same fuel, coupled runs of an expression end alike. -/
theorem lockstep_expr (fuel d : Nat) {sc : FrameId} (hsc : K.Open sc) (e : Expr) :
    Lockstep K.R K.V (Eval.expr fuel d sc e) (Eval.expr fuel d (K.rename sc) e) :=
  Tracks.lockstep ((K.steps (Shorter.refl fuel)).expr d d sc e (Deeper.refl d) hsc)

variable (K) in
/-- At the same level and with the same fuel, coupled runs of a statement other than a
declaration end alike, from any open frame. -/
theorem lockstep_stmt (fuel d : Nat) {sc : FrameId} (hsc : K.Open sc) (st : Stmt)
    (hst : ∀ x init, st ≠ .letDecl x init) :
    Lockstep K.R K.V (Eval.stmt fuel d sc st) (Eval.stmt fuel d (K.rename sc) st) :=
  Tracks.lockstep (K.tracks_stmt_open (Shorter.refl fuel) (Deeper.refl d) hsc st hst)

variable (K) in
/-- At the same level and with the same fuel, coupled runs of any statement end alike from an
owned frame. -/
theorem lockstep_stmt_owned (fuel d : Nat) {sc : FrameId} (hsc : K.Owned sc) (st : Stmt) :
    Lockstep K.R K.V (Eval.stmt fuel d sc st) (Eval.stmt fuel d (K.rename sc) st) :=
  Tracks.lockstep ((K.steps (Shorter.refl fuel)).stmt d d sc st (Deeper.refl d) hsc)

/-! ## Building couplings -/

/-- A run coupled with itself. -/
def refl : Coupling where
  rename c := c
  Open _ := True
  Owned _ := True
  R := (· = ·)
  open_of_owned _ _ := trivial
  lookup m₁ m₂ i n h _ := by
    subst h
    refine ⟨?_, fun _ _ _ _ => trivial⟩
    cases m₁.store.lookup i n <;> simp [Except.map, Value.rename_self]
  assignTarget m₁ m₂ i n h _ := by
    subst h
    exact ⟨by cases m₁.store.assignTarget i n <;> rfl, fun _ _ => trivial⟩
  has m₁ m₂ i n h _ := by subst h; rfl
  bind m₁ m₂ i n v c h _ _ := by subst h; rw [Value.rename_self]
  update m₁ m₂ j n v h _ _ := by subst h; rw [Value.rename_self]
  alloc m₁ m₂ p h _ := by subst h; exact ⟨rfl, trivial, rfl⟩
  emit m₁ m₂ t h := by subst h; rfl

/-- The first run coupled with a middle one by `K₁`, and the middle one with the second by
`K₂`. -/
def comp (K₁ K₂ : Coupling) : Coupling where
  rename i := K₂.rename (K₁.rename i)
  Open i := K₁.Open i ∧ K₂.Open (K₁.rename i)
  Owned i := K₁.Owned i ∧ K₂.Owned (K₁.rename i)
  R m₁ m₂ := ∃ m, K₁.R m₁ m ∧ K₂.R m m₂
  open_of_owned i h := ⟨K₁.open_of_owned i h.1, K₂.open_of_owned _ h.2⟩
  lookup m₁ m₂ i n := by
    rintro ⟨m, h₁, h₂⟩ ⟨ho₁, ho₂⟩
    obtain ⟨hl₁, hv₁⟩ := K₁.lookup _ _ i n h₁ ho₁
    obtain ⟨hl₂, hv₂⟩ := K₂.lookup _ _ _ n h₂ ho₂
    refine ⟨?_, fun v hv c hc => ⟨hv₁ v hv c hc, hv₂ (v.rename K₁.rename) ?_ _ ?_⟩⟩
    · rw [hl₂, hl₁]
      cases m₁.store.lookup i n <;> simp [Except.map, Value.rename_rename]
    · rw [hl₁, hv]
      rfl
    · rw [Value.scope?_rename, hc]
      rfl
  assignTarget m₁ m₂ i n := by
    rintro ⟨m, h₁, h₂⟩ ⟨ho₁, ho₂⟩
    obtain ⟨ha₁, hj₁⟩ := K₁.assignTarget _ _ i n h₁ ho₁
    obtain ⟨ha₂, hj₂⟩ := K₂.assignTarget _ _ _ n h₂ ho₂
    refine ⟨?_, fun j hj => ⟨hj₁ j hj, hj₂ _ (by rw [ha₁, hj]; rfl)⟩⟩
    rw [ha₂, ha₁]
    cases m₁.store.assignTarget i n <;> rfl
  has m₁ m₂ i n := by
    rintro ⟨m, h₁, h₂⟩ ⟨ho₁, ho₂⟩
    rw [K₂.has _ _ _ n h₂ ho₂, K₁.has _ _ i n h₁ ho₁]
  bind m₁ m₂ i n v c := by
    rintro ⟨m, h₁, h₂⟩ ⟨ho₁, ho₂⟩ hv
    refine ⟨_, K₁.bind _ _ i n v c h₁ ho₁ fun k hk => (hv k hk).1, ?_⟩
    rw [← Value.rename_rename K₁.rename K₂.rename v]
    refine K₂.bind _ _ _ n _ c h₂ ho₂ fun k hk => ?_
    obtain ⟨c', hc', rfl⟩ := Value.scope?_of_rename hk
    exact (hv c' hc').2
  update m₁ m₂ j n v := by
    rintro ⟨m, h₁, h₂⟩ ⟨ho₁, ho₂⟩ hv
    refine ⟨_, K₁.update _ _ j n v h₁ ho₁ fun k hk => (hv k hk).1, ?_⟩
    rw [← Value.rename_rename K₁.rename K₂.rename v]
    refine K₂.update _ _ _ n _ h₂ ho₂ fun k hk => ?_
    obtain ⟨c', hc', rfl⟩ := Value.scope?_of_rename hk
    exact (hv c' hc').2
  alloc m₁ m₂ p := by
    rintro ⟨m, h₁, h₂⟩ ⟨ho₁, ho₂⟩
    obtain ⟨hs₁, hn₁, hR₁⟩ := K₁.alloc _ _ p h₁ ho₁
    obtain ⟨hs₂, hn₂, hR₂⟩ := K₂.alloc _ _ _ h₂ ho₂
    refine ⟨by rw [hs₁, hs₂], ⟨hn₁, by rw [hs₁]; exact hn₂⟩, _, hR₁, hR₂⟩
  emit m₁ m₂ t := by
    rintro ⟨m, h₁, h₂⟩
    exact ⟨_, K₁.emit _ _ t h₁, K₂.emit _ _ t h₂⟩

end Coupling

end Scriptlet.Eval
