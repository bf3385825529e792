import Scriptlet.Proofs.EmptyFrames
import Scriptlet.Proofs.Constants

/-!
# Braces around a branch or a loop body

A branch and a loop body run in a frame of their own. Braced, `if (c) { s }` runs `s` in that
frame as the only statement of a block; unbraced, `if (c) s` runs `s` in it directly. When `s` is
itself a block, the braced form makes one frame more: an empty frame under the branch's own, which
no statement of `s` binds in. Taken out, it leaves the unbraced run (`Store.Absorbed`).

The braced form nests one level deeper and takes one step of fuel more for the block. So the two
forms end alike, up to the empty frames the braced one made, unless the braced one reaches the
nesting limit (or runs out of fuel) where the unbraced one does not (`Eval.Settled`). Near the
limit that happens: `Eval.braced_branch_at_limit`.

## Main definitions

* `Eval.Settled K`: outcomes that end alike under `K` once empty frames are taken out, or where
  the first stopped early.
* `Eval.BracedOnce K sc`: the same, with at most one empty frame, made under `sc`.

## Main statements

* `Eval.bracedOnce_branch`: a braced branch against the unbraced one.
* `Eval.bracedOnce_ite_then`, `Eval.bracedOnce_ite_else`: braces around either branch of `if`.
* `Eval.settled_loop_stmt`: braces around a loop body, through every round.
* `Eval.empty_scope_unobservable`: an empty scope is unobservable.
-/

set_option autoImplicit false

namespace Scriptlet.Eval

open Store Syntax Coupling

/-! ## Outcomes up to empty frames -/

/-- Outcomes of two runs: alike under `K` once the empty frames `zs` that the first run made more
are taken out, or the first stopped early at the nesting limit or out of fuel. -/
def Settled (K : Coupling) (o₁ o₂ : Except Interrupt Value × Machine) : Prop :=
  (∃ zs, Matches (K.stack zs).R (K.stack zs).V o₁ o₂) ∨ ∃ i, Lagging i ∧ o₁.1 = .error i

/-- Outcomes of two runs: alike under `K`, or alike once one empty frame `z` under `sc` that the
first run made more is taken out, or the first stopped early at the nesting limit or out of
fuel. -/
def BracedOnce (K : Coupling) (sc : FrameId) (o₁ o₂ : Except Interrupt Value × Machine) : Prop :=
  Matches K.R K.V o₁ o₂ ∨
    (∃ z, sc < z ∧ Matches ((absorbing z sc).comp K).R ((absorbing z sc).comp K).V o₁ o₂) ∨
      ∃ i, Lagging i ∧ o₁.1 = .error i

section Outcomes

variable {K : Coupling} {sc : FrameId} {o₁ o₂ : Except Interrupt Value × Machine}

/-- Outcomes settled once more empty frames are taken out are settled. -/
theorem Settled.unstack {zs : List (FrameId × FrameId)} (h : Settled (K.stack zs) o₁ o₂) :
    Settled K o₁ o₂ := by
  rcases h with ⟨zs', h⟩ | h
  · exact .inl ⟨zs' ++ zs, by rwa [← stack_append]⟩
  · exact .inr h

/-- What a triple promises of a run that gave a value. -/
theorem triple_ok {α : Type} {P : Machine → Prop} {Q : α → Machine → Prop}
    {E : Interrupt → Machine → Prop} {x : Eval α} {m m' : Machine} {a : α} (hP : Triple P x Q E)
    (hm : P m) (he : exec x m = (.ok a, m')) : Q a m' := by
  have hq := hP m hm
  rw [he] at hq
  exact hq

theorem exec_bind_error {α β : Type} {x : Eval α} {f : α → Eval β} {m m' : Machine}
    {i : Interrupt} (h : exec x m = (.error i, m')) : exec (x >>= f) m = (.error i, m') := by
  rw [exec_bind, h]

/-- Sequences whose first parts ended alike, then second parts whose outcomes are related by
`O`: the whole is related by `O`, as long as `O` relates the same interruption from machines `R`
relates. -/
theorem outcome_bind_matches {α β : Type} {R : Machine → Machine → Prop} {V : α → β → Prop}
    {O : Except Interrupt Value × Machine → Except Interrupt Value × Machine → Prop}
    (herr : ∀ e m₁ m₂, R m₁ m₂ → O (.error e, m₁) (.error e, m₂))
    {x : Eval α} {y : Eval β} {f : α → Eval Value} {g : β → Eval Value} {m₁ m₂ : Machine}
    (hxy : Matches R V (exec x m₁) (exec y m₂))
    (hf : ∀ a b m₁' m₂', V a b → R m₁' m₂' → exec x m₁ = (.ok a, m₁') →
      O (exec (f a) m₁') (exec (g b) m₂')) :
    O (exec (x >>= f) m₁) (exec (y >>= g) m₂) := by
  rw [exec_bind, exec_bind]
  rcases hx₁ : exec x m₁ with ⟨r₁, m₁'⟩
  rcases hy₂ : exec y m₂ with ⟨r₂, m₂'⟩
  rw [hx₁, hy₂] at hxy
  cases r₁ <;> cases r₂ <;> simp only [Matches] at hxy ⊢
  · obtain ⟨rfl, hR⟩ := hxy
    exact herr _ _ _ hR
  · exact hf _ _ _ _ hxy.1 hxy.2 hx₁

/-- A first part that tracks the second under `K`, keeping `P` of the first run's machine as
`Q`, then second parts whose outcomes are related by `O`: the whole is related by `O`, as long as
`O` relates the same interruption from machines `K` relates, and any early stop of the first run. -/
theorem outcome_bind {α β : Type} {O : Except Interrupt Value × Machine →
      Except Interrupt Value × Machine → Prop}
    (herr : ∀ e m₁ m₂, K.R m₁ m₂ → O (.error e, m₁) (.error e, m₂))
    (hlag : ∀ i m₁ o₂, Lagging i → O (.error i, m₁) o₂)
    {V : α → β → Prop} {P : Machine → Prop} {Q : α → Machine → Prop} {x : Eval α} {y : Eval β}
    {f : α → Eval Value} {g : β → Eval Value} {m₁ m₂ : Machine}
    (hx : Tracks Lagging K.R V x y) (hP : Triple P x Q fun _ _ => True) (h : K.R m₁ m₂)
    (hm : P m₁)
    (hf : ∀ a b m₁' m₂', V a b → K.R m₁' m₂' → Q a m₁' → O (exec (f a) m₁') (exec (g b) m₂')) :
    O (exec (x >>= f) m₁) (exec (y >>= g) m₂) := by
  rcases hx m₁ m₂ h with hxy | ⟨i, hi, hr⟩
  · exact outcome_bind_matches herr hxy fun a b m₁' m₂' hv hR he =>
      hf a b m₁' m₂' hv hR (triple_ok hP hm he)
  · rcases hx₁ : exec x m₁ with ⟨r₁, m₁'⟩
    rw [hx₁] at hr
    obtain rfl : r₁ = .error i := hr
    rw [exec_bind_error hx₁]
    exact hlag _ _ _ hi

theorem settled_bind {α β : Type} {V : α → β → Prop} {P : Machine → Prop}
    {Q : α → Machine → Prop} {x : Eval α} {y : Eval β} {f : α → Eval Value}
    {g : β → Eval Value} {m₁ m₂ : Machine} (hx : Tracks Lagging K.R V x y)
    (hP : Triple P x Q fun _ _ => True) (h : K.R m₁ m₂) (hm : P m₁)
    (hf : ∀ a b m₁' m₂', V a b → K.R m₁' m₂' → Q a m₁' →
      Settled K (exec (f a) m₁') (exec (g b) m₂')) :
    Settled K (exec (x >>= f) m₁) (exec (y >>= g) m₂) :=
  outcome_bind (fun _ _ _ hR => .inl ⟨[], rfl, hR⟩) (fun _ _ _ hi => .inr ⟨_, hi, rfl⟩) hx hP h
    hm hf

theorem bracedOnce_bind {α β : Type} {V : α → β → Prop} {P : Machine → Prop}
    {Q : α → Machine → Prop} {x : Eval α} {y : Eval β} {f : α → Eval Value}
    {g : β → Eval Value} {m₁ m₂ : Machine} (hx : Tracks Lagging K.R V x y)
    (hP : Triple P x Q fun _ _ => True) (h : K.R m₁ m₂) (hm : P m₁)
    (hf : ∀ a b m₁' m₂', V a b → K.R m₁' m₂' → Q a m₁' →
      BracedOnce K sc (exec (f a) m₁') (exec (g b) m₂')) :
    BracedOnce K sc (exec (x >>= f) m₁) (exec (y >>= g) m₂) :=
  outcome_bind (fun _ _ _ hR => .inl ⟨rfl, hR⟩) (fun _ _ _ hi => .inr (.inr ⟨_, hi, rfl⟩)) hx hP
    h hm hf

/-- A braced part, then second parts that settle under whichever coupling the first part ended
in. -/
theorem settled_bind_braced {P : Machine → Prop} {Q : Value → Machine → Prop}
    {x y : Eval Value} {f g : Value → Eval Value} {m₁ m₂ : Machine}
    (hx : BracedOnce K sc (exec x m₁) (exec y m₂)) (hP : Triple P x Q fun _ _ => True)
    (hm : P m₁)
    (hf : ∀ K', (K' = K ∨ ∃ z, sc < z ∧ K' = (absorbing z sc).comp K) →
      ∀ a b m₁' m₂', K'.V a b → K'.R m₁' m₂' → Q a m₁' →
        Settled K' (exec (f a) m₁') (exec (g b) m₂')) :
    Settled K (exec (x >>= f) m₁) (exec (y >>= g) m₂) := by
  rcases hx with hxy | ⟨z, hz, hxy⟩ | ⟨i, hi, hr⟩
  · exact outcome_bind_matches (fun _ _ _ hR => .inl ⟨[], rfl, hR⟩) hxy
      fun a b m₁' m₂' hv hR he => hf K (.inl rfl) a b m₁' m₂' hv hR (triple_ok hP hm he)
  · -- under the coupling with the one empty frame taken out
    have hK : ∀ {o₁ o₂}, Settled ((absorbing z sc).comp K) o₁ o₂ → Settled K o₁ o₂ :=
      fun ho => Settled.unstack (show Settled (K.stack [(z, sc)]) _ _ from ho)
    exact outcome_bind_matches (fun _ _ _ hR => hK (.inl ⟨[], rfl, hR⟩)) hxy
      fun a b m₁' m₂' hv hR he =>
        hK (hf _ (.inr ⟨z, hz, rfl⟩) a b m₁' m₂' hv hR (triple_ok hP hm he))
  · rcases hx₁ : exec x m₁ with ⟨r₁, m₁'⟩
    rw [hx₁] at hr
    obtain rfl : r₁ = .error i := hr
    rw [exec_bind_error hx₁]
    exact .inr ⟨i, hi, rfl⟩

end Outcomes

/-! ## Steps that change nothing or make a frame -/

theorem exec_newFrame (p : FrameId) (m : Machine) :
    exec (newFrame p) m = (.ok m.store.frames.size, ⟨(m.store.alloc p).1, m.printed⟩) := by
  cases m
  rfl

/-- A run coupled with itself tracks itself. -/
theorem tracks_self {α : Type} {Esc : Interrupt → Prop} (x : Eval α) :
    Tracks Esc Coupling.refl.R (· = ·) x x := by
  rintro m₁ m₂ (rfl : m₁ = m₂)
  left
  rcases exec x m₁ with ⟨r, m'⟩
  cases r <;> exact ⟨rfl, rfl⟩

/-- A run coupled with itself ends alike. -/
theorem matches_refl_self (x : Eval Value) (m : Machine) :
    Matches Coupling.refl.R Coupling.refl.V (exec x m) (exec x m) := by
  rcases exec x m with ⟨r, m'⟩
  cases r with
  | ok v => exact ⟨⟨(Value.rename_self v).symm, fun _ _ => trivial⟩, rfl⟩
  | error e => exact ⟨rfl, rfl⟩

variable [NestingLimit]

theorem branch_succ_block (k d : Nat) (sc : FrameId) (ss : List Stmt) :
    branch (k + 1) d sc (.block ss) =
      (reach (d + 2) >>= fun _ => newFrame sc >>= fun fr => body k (d + 2) fr ss .null) := by
  simp only [Eval.branch]

/-- A branch that is not a block runs as a statement in the branch's frame, one level down. -/
theorem branch_succ_of_not_block (k d : Nat) (sc : FrameId) {s : Stmt}
    (hs : ∀ ss, s ≠ .block ss) :
    branch (k + 1) d sc s =
      (reach (d + 2) >>= fun _ => newFrame sc >>= fun fr => stmt k (d + 1) fr s) := by
  cases s with
  | block ss => exact absurd rfl (hs ss)
  | _ => simp only [Eval.branch]

/-! ## A braced branch -/

/-- The run after the frames of a braced block branch are made, in a well-formed store: the
branch's frame is absorbed into the frame `sc` it is made under, and the block's frame stands for
the unbraced branch's frame. -/
theorem braced_block_body (K : Coupling) (i d : Nat) {sc : FrameId} (ss : List Stmt)
    {m₀ m₂ : Machine} (hwf : m₀.store.WellFormed) (hlt : sc < m₀.store.frames.size)
    (h : K.R ⟨(m₀.store.alloc sc).1, m₀.printed⟩ m₂) (hown : K.Owned m₀.store.frames.size) :
    BracedOnce K sc
      (exec (body i (d + 2 + 3) (m₀.store.frames.size + 1) ss .null)
        ⟨((m₀.store.alloc sc).1.alloc m₀.store.frames.size).1, m₀.printed⟩)
      (exec (body (i + 1 + 1) (d + 2) (K.rename m₀.store.frames.size) ss .null) m₂) := by
  let K' := (absorbing m₀.store.frames.size sc).comp K
  have hR : K'.R ⟨((m₀.store.alloc sc).1.alloc m₀.store.frames.size).1, m₀.printed⟩ m₂ :=
    ⟨⟨(m₀.store.alloc sc).1, m₀.printed⟩, ⟨Absorbed.of_alloc_alloc hwf hlt, rfl⟩, h⟩
  have habsorb : absorb m₀.store.frames.size sc (m₀.store.frames.size + 1) =
      m₀.store.frames.size := by
    rw [absorb_of_gt (Nat.lt_add_one _), Nat.add_sub_cancel]
  have hown' : K'.Owned (m₀.store.frames.size + 1) := by
    refine ⟨Nat.succ_ne_self _, ?_⟩
    show K.Owned (absorb m₀.store.frames.size sc (m₀.store.frames.size + 1))
    rwa [habsorb]
  have hrename : K'.rename (m₀.store.frames.size + 1) = K.rename m₀.store.frames.size := by
    show K.rename (absorb m₀.store.frames.size sc (m₀.store.frames.size + 1)) = _
    rw [habsorb]
  have htracks := (K'.steps (shorter_lagging (by omega : i ≤ i + 1 + 1))).body (d + 2 + 3) (d + 2)
    (m₀.store.frames.size + 1) ss .null .null (deeper_lagging (by omega)) hown' v_null
  rw [hrename] at htracks
  rcases htracks _ _ hR with hm | hl
  · exact .inr (.inl ⟨_, hlt, hm⟩)
  · exact .inr (.inr hl)

/-- A braced branch against the unbraced one, from a well-formed store: both end alike, or alike
once the one empty frame the braced branch made more is taken out, or the braced branch stops
early. -/
theorem bracedOnce_branch (K : Coupling) (n d : Nat) {sc : FrameId} (hsc : K.Open sc) (s : Stmt)
    {m₁ m₂ : Machine} (h : K.R m₁ m₂) (hwf : m₁.store.WellFormed)
    (hlt : sc < m₁.store.frames.size) :
    BracedOnce K sc (exec (branch n d sc (.block [s])) m₁)
      (exec (branch n d (K.rename sc) s) m₂) := by
  cases n with
  | zero =>
    simp only [Eval.branch]
    exact .inr (.inr ⟨_, .inr rfl, rfl⟩)
  | succ k =>
    -- the frame the branch runs in, on both sides
    let P : Machine → Prop := fun m => m.store.WellFormed ∧ sc < m.store.frames.size
    let Q : FrameId → Machine → Prop := fun fr m => ∃ m₀ : Machine, P m₀ ∧
      fr = m₀.store.frames.size ∧ m = ⟨(m₀.store.alloc sc).1, m₀.printed⟩
    have hnew : Triple P (newFrame sc) Q fun _ _ => True := by
      intro m hm
      rw [exec_newFrame]
      exact ⟨m, hm, rfl, rfl⟩
    have hlag : ∀ {o₁ o₂}, o₁.1 = .error Interrupt.outOfFuel → BracedOnce K sc o₁ o₂ :=
      fun ho => .inr (.inr ⟨_, .inr rfl, ho⟩)
    rw [branch_succ_block]
    by_cases hs : ∃ ss, s = .block ss
    · obtain ⟨ss, rfl⟩ := hs
      rw [branch_succ_block]
      refine bracedOnce_bind (Tracks.reached (Deeper.refl _)) (Triple.reach_stays fun _ _ => trivial)
        h (show P m₁ from ⟨hwf, hlt⟩) fun _ _ m₁' m₂' _ h' hm' => ?_
      refine bracedOnce_bind (K.tracks_newFrame hsc) hnew h' hm' fun fr₁ fr₂ m₁'' m₂'' hfr hfr'
        hq => ?_
      obtain ⟨m₀, ⟨hwf₀, hlt₀⟩, hfr₀, hm₀⟩ := hq
      subst hfr₀ hm₀
      obtain ⟨rfl, hown⟩ := hfr
      -- the braced branch runs the block as the one statement of its body
      cases k with
      | zero => simp only [Eval.body]; exact hlag rfl
      | succ j =>
        simp only [body_succ_cons, body_succ_nil, bind_pure]
        cases j with
        | zero => simp only [Eval.stmt]; exact hlag rfl
        | succ i =>
          simp only [Eval.stmt, exec_bind, exec_reach]
          by_cases hlim : nestingLimit < d + 2 + 3
          · simp only [if_pos hlim]
            exact .inr (.inr ⟨_, .inl rfl, rfl⟩)
          · simp only [if_neg hlim, exec_newFrame, size_alloc]
            exact braced_block_body K i d ss hwf₀ hlt₀ hfr' hown
    · have hnb : ∀ ss, s ≠ .block ss := fun ss he => hs ⟨ss, he⟩
      rw [branch_succ_of_not_block _ _ _ hnb]
      refine bracedOnce_bind (Tracks.reached (Deeper.refl _)) (Triple.reach_stays fun _ _ => trivial)
        h (show P m₁ from ⟨hwf, hlt⟩) fun _ _ m₁' m₂' _ h' hm' => ?_
      refine bracedOnce_bind (K.tracks_newFrame hsc) hnew h' hm' fun fr₁ fr₂ m₁'' m₂'' hfr hfr' _ => ?_
      obtain ⟨rfl, hown⟩ := hfr
      -- the statement runs in the same frame on both sides, one level deeper when braced
      cases k with
      | zero => simp only [Eval.body]; exact hlag rfl
      | succ j =>
        simp only [body_succ_cons, body_succ_nil, bind_pure]
        rcases (K.steps (shorter_lagging (Nat.le_succ j))).stmt (d + 2) (d + 1) fr₁ s
          (deeper_lagging (Nat.le_succ _)) hown _ _ hfr' with hm | hl
        · exact .inl hm
        · exact .inr (.inr hl)

/-! ## Braces in `if` statements and loops -/

/-- The condition of an `if` is evaluated alike on both sides, keeping the store sound; the
branches then decide. -/
theorem bracedOnce_cond (n d : Nat) (sc : FrameId) (c : Expr) (k₁ k₂ : Bool → Eval Value)
    {m : Machine} (hm : Sound (sc + 1) m)
    (hk : ∀ t m', Sound (sc + 1) m' →
      BracedOnce Coupling.refl sc (exec (k₁ t) m') (exec (k₂ t) m')) :
    BracedOnce Coupling.refl sc
      (exec (reach (d + 1) >>= fun _ => expr n (d + 2) sc c >>= fun cv => truth (d + 2) cv >>= k₁) m)
      (exec (reach (d + 1) >>= fun _ => expr n (d + 2) sc c >>= fun cv => truth (d + 2) cv >>= k₂)
        m) := by
  refine bracedOnce_bind (tracks_self _) (Triple.reach_stays fun _ _ => trivial) rfl hm
    fun _ _ m₁ m₂ _ (hR : m₁ = m₂) hm₁ => ?_
  subst hR
  refine bracedOnce_bind (tracks_self _) ((Rooting.keeps_expr (rooting n) _ c
    (Nat.lt_succ_self sc)).widen fun _ _ => trivial) rfl hm₁
      fun cv _ m₁' m₂' (hcv : cv = _) (hR : m₁' = m₂') hm₁' => ?_
  subst hcv hR
  exact bracedOnce_bind (tracks_self _) ((keeps_truth (d + 2) cv).widen fun _ _ => trivial) rfl
    hm₁' fun t _ m₁'' m₂'' (ht : t = _) (hR : m₁'' = m₂'') hm₁'' => by
      subst ht hR
      exact hk t m₁'' hm₁''

/-- Braces around the branch taken when the condition holds. -/
theorem bracedOnce_ite_then (n d : Nat) (sc : FrameId) (c : Expr) (s : Stmt) (el : Option Stmt)
    {m : Machine} (hm : Sound (sc + 1) m) :
    BracedOnce Coupling.refl sc (exec (stmt n d sc (.ite c (.block [s]) el)) m)
      (exec (stmt n d sc (.ite c s el)) m) := by
  cases n with
  | zero =>
    simp only [Eval.stmt]
    exact .inr (.inr ⟨_, .inr rfl, rfl⟩)
  | succ k =>
    -- the branch taken when the condition fails is the same on both sides
    cases el <;> simp only [Eval.stmt] <;> refine bracedOnce_cond k d sc c _ _ hm fun t m' hm' => ?_
    all_goals
      cases t
      · simp only [Bool.false_eq_true, if_false]
        exact .inl (matches_refl_self _ m')
      · simp only [if_true]
        exact bracedOnce_branch Coupling.refl k (d + 2) trivial s rfl hm'.1.wellFormed hm'.2

/-- Braces around the branch taken when the condition fails. -/
theorem bracedOnce_ite_else (n d : Nat) (sc : FrameId) (c : Expr) (t s : Stmt) {m : Machine}
    (hm : Sound (sc + 1) m) :
    BracedOnce Coupling.refl sc (exec (stmt n d sc (.ite c t (some (.block [s])))) m)
      (exec (stmt n d sc (.ite c t (some s))) m) := by
  cases n with
  | zero =>
    simp only [Eval.stmt]
    exact .inr (.inr ⟨_, .inr rfl, rfl⟩)
  | succ k =>
    simp only [Eval.stmt]
    refine bracedOnce_cond k d sc c _ _ hm fun b m' hm' => ?_
    cases b
    · simp only [Bool.false_eq_true, if_false]
      exact bracedOnce_branch Coupling.refl k (d + 2) trivial s rfl hm'.1.wellFormed hm'.2
    · simp only [if_true]
      exact .inl (matches_refl_self _ m')

/-- Braces around a loop body, through every round: the braced loop makes one empty frame more
in each round whose body is a block, and the rounds end alike once those are taken out, unless
the braced loop stops early. -/
theorem settled_loop (n : Nat) : ∀ (K : Coupling) (d : Nat) (sc : FrameId) (c : Expr) (s : Stmt)
    (l₁ l₂ : Value) (m₁ m₂ : Machine), K.R m₁ m₂ → K.Open sc → Sound (sc + 1) m₁ → K.V l₁ l₂ →
    Settled K (exec (loop n d sc c (.block [s]) l₁) m₁) (exec (loop n d (K.rename sc) c s l₂) m₂) := by
  -- the induction is on the rounds left, for every coupling the rounds so far ended in
  induction n with
  | zero =>
    intro K d sc c s l₁ l₂ m₁ m₂ _ _ _ _
    simp only [Eval.loop]
    exact .inr ⟨_, .inr rfl, rfl⟩
  | succ k ih =>
    intro K d sc c s l₁ l₂ m₁ m₂ h hsc hm hl
    simp only [Eval.loop]
    refine settled_bind (Tracks.reached (Deeper.refl _)) (Triple.reach_stays fun _ _ => trivial)
      h hm fun _ _ m₁' m₂' _ h' hm' => ?_
    refine settled_bind (K.tracks_newFrame hsc) (triple_newFrame_sound (Nat.lt_succ_self sc)) h'
      hm' fun fr₁ fr₂ m₁'' m₂'' hfr h'' hq => ?_
    obtain ⟨hfr₁, hle⟩ := hq
    obtain ⟨rfl, hown⟩ := hfr
    -- the condition, in the round's new frame, is evaluated alike on both sides
    refine settled_bind ((K.steps (Shorter.refl k)).expr (d + 1) (d + 1) fr₁ c (Deeper.refl _)
      (K.open_of_owned _ hown)) ((Rooting.keeps_expr (rooting k) (d + 1) c (Nat.lt_succ_self fr₁)).widen
        fun _ _ => trivial) h'' hfr₁ fun cv₁ cv₂ m₃ m₃' hcv h₃ hm₃ => ?_
    refine settled_bind (tracks_truth (Deeper.refl _) hcv) ((keeps_truth (d + 1) cv₁).widen
      fun _ _ => trivial) h₃ hm₃ fun t₁ t₂ m₄ m₄' (ht : t₁ = t₂) h₄ hm₄ => ?_
    subst ht
    have hsound : Sound (sc + 1) m₄ := hm₄.mono (by omega)
    cases t₁
    · exact .inl ⟨[], hl, h₄⟩
    · -- a round: the braced body, then the remaining rounds under the coupling it ended in
      refine settled_bind_braced (bracedOnce_branch K k (d + 1) hsc s h₄ hsound.1.wellFormed
        hsound.2) ((rooting k).branch (d + 1) sc (.block [s]) (sc + 1) (Nat.lt_succ_self sc)
          |>.conseq (fun _ h => h) (fun _ _ h => h.1) fun _ _ _ => trivial) hsound
        fun K' hK' v₁ v₂ m₅ m₅' hv h₅ hm₅ => ?_
      have hren : K'.rename sc = K.rename sc ∧ K'.Open sc := by
        rcases hK' with rfl | ⟨z, hz, rfl⟩
        · exact ⟨rfl, hsc⟩
        · refine ⟨?_, trivial, ?_⟩
          · show K.rename (absorb z sc sc) = _
            rw [absorb_of_lt hz]
          · show K.Open (absorb z sc sc)
            rw [absorb_of_lt hz]
            exact hsc
      have := ih K' d sc c s v₁ v₂ m₅ m₅' h₅ hren.2 hm₅ hv
      rwa [hren.1] at this

/-- Braces around a loop body, from the loop statement. -/
theorem settled_loop_stmt (n d : Nat) (sc : FrameId) (c : Expr) (s : Stmt) {m : Machine}
    (hm : Sound (sc + 1) m) :
    Settled Coupling.refl (exec (stmt n d sc (.loop c (.block [s]))) m)
      (exec (stmt n d sc (.loop c s)) m) := by
  cases n with
  | zero =>
    simp only [Eval.stmt]
    exact .inr ⟨_, .inr rfl, rfl⟩
  | succ k =>
    simp only [Eval.stmt]
    exact settled_bind (tracks_self _) (Triple.reach_stays fun _ _ => trivial) rfl hm
      fun _ _ m₁ m₂ _ (hR : m₁ = m₂) hm₁ =>
        settled_loop k Coupling.refl (d + 1) sc c s .null .null m₁ m₂ hR trivial hm₁ v_null

/-! ## An empty scope is unobservable -/

/-- An empty scope is unobservable. A fresh empty child frame `C` of a frame `E` of a well-formed
store is absorbed into `E`. From stores so related, an expression evaluated in any frame, and a
statement evaluated in a frame other than the empty one or other than a declaration, end as they
do in the frame standing for it: `E` for `C` itself. They give the same value, a function that
keeps `C` standing for one that keeps `E`, or the same interruption, and print the same; and they
leave the stores so related, so that `C` stays empty and every other frame is, renamed, as the
run without `C` leaves it, whatever runs later. Braces around either branch of an `if`, or around
a loop body, change nothing either, once the empty frames they make are taken out; unless the
braced form, one level deeper, reaches the nesting limit (or ends its fuel) where the unbraced one
does not. -/
theorem empty_scope_unobservable :
    (∀ (s : Store) (E : FrameId) (out : String), s.WellFormed → E < s.frames.size →
      (absorbing s.frames.size E).R ⟨(s.alloc E).1, out⟩ ⟨s, out⟩) ∧
    (∀ (z p : FrameId) fuel d sc e, Lockstep (absorbing z p).R (absorbing z p).V
      (expr fuel d sc e) (expr fuel d (absorb z p sc) e)) ∧
    (∀ (z p : FrameId) fuel d sc st, (sc ≠ z ∨ ∀ x init, st ≠ .letDecl x init) →
      Lockstep (absorbing z p).R (absorbing z p).V
        (stmt fuel d sc st) (stmt fuel d (absorb z p sc) st)) ∧
    (∀ n d sc c s el (m : Machine), Sound (sc + 1) m →
      BracedOnce Coupling.refl sc (exec (stmt n d sc (.ite c (.block [s]) el)) m)
        (exec (stmt n d sc (.ite c s el)) m)) ∧
    (∀ n d sc c t s (m : Machine), Sound (sc + 1) m →
      BracedOnce Coupling.refl sc (exec (stmt n d sc (.ite c t (some (.block [s])))) m)
        (exec (stmt n d sc (.ite c t (some s))) m)) ∧
    (∀ n d sc c s (m : Machine), Sound (sc + 1) m →
      Settled Coupling.refl (exec (stmt n d sc (.loop c (.block [s]))) m)
        (exec (stmt n d sc (.loop c s)) m)) :=
  ⟨fun _ _ _ hs hE => ⟨Absorbed.of_alloc hs hE, rfl⟩,
    fun z p fuel d _ e => (absorbing z p).lockstep_expr fuel d trivial e,
    fun z p fuel d _ st h => h.elim (fun hsc => (absorbing z p).lockstep_stmt_owned fuel d hsc st)
      fun hst => (absorbing z p).lockstep_stmt fuel d trivial st hst,
    fun n d sc c s el _ hm => bracedOnce_ite_then n d sc c s el hm,
    fun n d sc c t s _ hm => bracedOnce_ite_else n d sc c t s hm,
    fun n d sc c s _ hm => settled_loop_stmt n d sc c s hm⟩

end Scriptlet.Eval

namespace Scriptlet.Eval

open Store Syntax Coupling

/-- In the first store of a session: its global frame, followed by an empty child, is the store
itself once the child is absorbed; a declaration in the global frame runs alike when frame 1 is
absorbed into it; and braces around a branch or a loop body change nothing there. -/
theorem empty_scope_unobservable_at_start :
    (Session.start true).store.WellFormed ∧ globalFrame < (Session.start true).store.frames.size ∧
      (absorbing (Session.start true).store.frames.size globalFrame).R
        ⟨((Session.start true).store.alloc globalFrame).1, ""⟩ ⟨(Session.start true).store, ""⟩ ∧
      (globalFrame ≠ 1 ∨ ∀ x init, Stmt.letDecl "x" none ≠ .letDecl x init) ∧
      Lockstep (absorbing 1 0).R (absorbing 1 0).V (stmt 4 0 globalFrame (.letDecl "x" none))
        (stmt 4 0 (absorb 1 0 globalFrame) (.letDecl "x" none)) ∧
      Sound (globalFrame + 1) ⟨(Session.start true).store, ""⟩ ∧
      BracedOnce Coupling.refl globalFrame
        (exec (stmt 6 0 globalFrame (.ite (.ident "true") (.block [.expr (.ident "null")]) none))
          ⟨(Session.start true).store, ""⟩)
        (exec (stmt 6 0 globalFrame (.ite (.ident "true") (.expr (.ident "null")) none))
          ⟨(Session.start true).store, ""⟩) ∧
      BracedOnce Coupling.refl globalFrame
        (exec (stmt 6 0 globalFrame (.ite (.ident "false") (.expr (.ident "true"))
          (some (.block [.expr (.ident "null")])))) ⟨(Session.start true).store, ""⟩)
        (exec (stmt 6 0 globalFrame (.ite (.ident "false") (.expr (.ident "true"))
          (some (.expr (.ident "null"))))) ⟨(Session.start true).store, ""⟩) ∧
      Settled Coupling.refl
        (exec (stmt 6 0 globalFrame (.loop (.ident "false") (.block [.expr (.ident "null")])))
          ⟨(Session.start true).store, ""⟩)
        (exec (stmt 6 0 globalFrame (.loop (.ident "false") (.expr (.ident "null"))))
          ⟨(Session.start true).store, ""⟩) := by
  have hroot := Session.rooted_start true
  have hsize : globalFrame < (Session.start true).store.frames.size := by decide
  have hsound : Sound (globalFrame + 1) ⟨(Session.start true).store, ""⟩ := ⟨hroot, hsize⟩
  have hne : globalFrame ≠ 1 ∨ ∀ x init, Stmt.letDecl "x" none ≠ .letDecl x init := .inl (by decide)
  have h := empty_scope_unobservable
  exact ⟨hroot.wellFormed, hsize, h.1 _ _ "" hroot.wellFormed hsize, hne,
    h.2.2.1 1 0 4 0 globalFrame _ hne, hsound, h.2.2.2.1 6 0 globalFrame _ _ none _ hsound,
    h.2.2.2.2.1 6 0 globalFrame _ _ _ _ hsound, h.2.2.2.2.2 6 0 globalFrame _ _ _ hsound⟩

/-- Near the nesting limit braces are seen: at level 9995 of a new session, `if (true) null`
gives null, while `if (true) { null }` reads `null` one level deeper, beyond the limit. -/
theorem braced_branch_at_limit :
    (exec (stmt 5 9995 globalFrame (.ite (.ident "true") (.expr (.ident "null")) none))
      ⟨(Session.start true).store, ""⟩).1 = .ok .null ∧
    (exec (stmt 5 9995 globalFrame (.ite (.ident "true") (.block [.expr (.ident "null")]) none))
      ⟨(Session.start true).store, ""⟩).1 = .error (.fault .nestingLimit) := by
  have hget : ∀ m, exec (get : Eval Machine) m = (.ok m, m) := fun _ => rfl
  have htrue : (Session.start true).store.lookup globalFrame "true" = .ok (.bool true) := by
    simp [Store.lookup, Store.find, Store.chain_eq, Store.frame?, Session.start, globalFrame,
      Frame.binds, Frame.get?]
  have hnull : ((Session.start true).store.alloc globalFrame).1.lookup
      (Session.start true).store.frames.size "null" = .ok .null := by
    simp [Store.lookup, Store.find, Store.chain_eq, Store.frame?, Store.alloc, Session.start,
      globalFrame, Frame.binds, Frame.get?]
  constructor
  · simp [Eval.stmt, Eval.expr, Eval.branch, Eval.truth, exec_bind, exec_reach, hget, htrue,
      exec_newFrame, hnull, nestingLimit]
  · simp [Eval.stmt, Eval.expr, Eval.branch, Eval.body, Eval.truth, exec_bind, exec_reach, hget,
      htrue, exec_newFrame, nestingLimit]

end Scriptlet.Eval
