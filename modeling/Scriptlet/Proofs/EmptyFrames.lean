import Scriptlet.Proofs.Simulation

/-!
# An empty frame is unobservable

A frame that binds nothing is passed over by every search along a chain: looking a name up,
scanning the chain for constant marks, finding the frame an assignment changes. A store with such
a frame `z` under an older frame `p` therefore behaves as the store without it, in which `p` stands
for `z` and every later frame moves down by one (`Store.Absorbed`, with the renaming `absorb z p`).

Evaluation binds in a frame only where a declaration or a call runs, and those run in frames other
than `z` unless a declaration is evaluated in `z` itself. So the two stores stay so related along
any evaluation, and the runs from them end alike (`Eval.Coupling.absorbing`). In particular a
node other than a declaration, evaluated in a fresh child frame of `E` and evaluated in `E`
itself, gives the same outcome, leaves the child frame empty, and leaves every other frame as the
run in `E` leaves it (`Store.Absorbed.of_alloc`).

## Main definitions

* `absorb z p`: the renaming that takes frame `z` out of a store.
* `Store.Absorbed z p s₁ s₂`: `s₁` is `s₂` with one more empty frame `z` under `p`.
* `Eval.Coupling.absorbing z p`: the coupling of a run in `s₁` with a run in `s₂`.
* `Eval.Coupling.stack`: a coupling with more empty frames taken out, one after the other.

## Main statements

* `Store.Absorbed.chain`: the chain from a frame, without `z`, is the chain from the frame standing
  for it.
* `Store.Absorbed.of_alloc`: a fresh empty child frame of a well-formed store is absorbed.
-/

set_option autoImplicit false

namespace Scriptlet

/-- The renaming that takes frame `z` out of a store: frames below `z` keep their index, `p`
stands for `z`, and frames above `z` move down by one. -/
def absorb (z p j : Nat) : Nat := if j < z then j else if j = z then p else j - 1

section Absorb

variable {z p j k : Nat}

@[simp] theorem absorb_self : absorb z p z = p := by simp [absorb]

theorem absorb_of_lt (h : j < z) : absorb z p j = j := by simp [absorb, h]

theorem absorb_of_gt (h : z < j) : absorb z p j = j - 1 := by
  unfold absorb
  split_ifs <;> omega

/-- Away from `z`, taking `z` out keeps the order of frames. -/
theorem absorb_lt_absorb (hj : j ≠ z) (hk : k ≠ z) : absorb z p j < absorb z p k ↔ j < k := by
  unfold absorb
  split_ifs <;> omega

theorem absorb_inj (hj : j ≠ z) (hk : k ≠ z) : absorb z p j = absorb z p k ↔ j = k := by
  unfold absorb
  split_ifs <;> omega

end Absorb

/-- A search along a list that never stops at `z` finds the same without `z`. -/
theorem List.find?_filter_ne {α : Type} [DecidableEq α] (l : List α) (z : α) (P : α → Bool)
    (hz : P z = false) : (l.filter (· ≠ z)).find? P = l.find? P := by
  rw [List.find?_filter]
  congr 1
  funext a
  by_cases ha : a = z
  · subst ha
    simp [hz]
  · simp [ha]

namespace Store

/-- Store `s₁` is store `s₂` with one more frame `z`, empty and under an older frame `p`: every
other frame of `s₁`, renamed by `absorb z p`, is the frame standing for it in `s₂`, and no frame
older than `z` has `z` as its parent. -/
structure Absorbed (z p : Nat) (s₁ s₂ : Store) : Prop where
  below : p < z
  empty : s₁.frame? z = some ⟨[], some p⟩
  size : s₁.frames.size = s₂.frames.size + 1
  copies : ∀ j, j ≠ z → s₂.frame? (absorb z p j) = (s₁.frame? j).map (Frame.rename (absorb z p))
  older : ∀ j f, j < z → s₁.frame? j = some f → f.parent ≠ some z

namespace Absorbed

variable {z p : Nat} {s₁ s₂ : Store}

theorem lt_size (h : Absorbed z p s₁ s₂) : z < s₁.frames.size :=
  (frame?_isSome_iff s₁ z).1 (by rw [h.empty]; rfl)

/-- The chain from a frame, with `z` left out, is the chain from the frame standing for it. -/
theorem chain (h : Absorbed z p s₁ s₂) (j : Nat) :
    s₂.chain (absorb z p j) = ((s₁.chain j).filter (· ≠ z)).map (absorb z p) := by
  -- each frame's chain goes on through older frames, so the induction is on the frame
  induction j using Nat.strong_induction_on with
  | _ j ih =>
    have hchain_z : s₁.chain z = z :: s₁.chain p := by
      rw [chain_eq s₁ z, h.empty]
      simp [h.below]
    have hp : p < j → s₂.chain p = ((s₁.chain p).filter (· ≠ z)).map (absorb z p) := by
      intro hpj
      simpa only [absorb_of_lt h.below] using ih p hpj
    by_cases hjz : j = z
    · -- the empty frame gives way to its parent
      subst hjz
      rw [absorb_self, hchain_z, hp h.below]
      simp
    · rw [chain_eq s₂, h.copies j hjz, chain_eq s₁]
      cases hf : s₁.frame? j with
      | none => simp
      | some f =>
        cases hq : f.parent with
        | none => simp [hq, hjz]
        | some q =>
          simp only [Option.map_some, Frame.parent_rename, hq]
          by_cases hqz : q = z
          · -- a frame under the empty frame is younger than it
            subst hqz
            have hzj : q < j := by
              rcases Nat.lt_or_ge j q with hlt | hge
              · exact absurd hq (h.older j f hlt hf)
              · exact Nat.lt_of_le_of_ne hge (Ne.symm hjz)
            have hpj : p < absorb q p j := by
              rw [absorb_of_gt hzj]
              exact Nat.lt_of_lt_of_le h.below (Nat.le_sub_one_of_lt hzj)
            rw [absorb_self, if_pos hzj, if_pos hpj, hchain_z, hp (Nat.lt_trans h.below hzj)]
            simp [hjz]
          · by_cases hqj : q < j
            · rw [if_pos hqj, if_pos ((absorb_lt_absorb hqz hjz).2 hqj), ih q hqj]
              simp [hjz]
            · rw [if_neg hqj, if_neg (mt (absorb_lt_absorb hqz hjz).1 hqj)]
              simp [hjz]

/-- The empty frame binds nothing. -/
theorem binds_empty (h : Absorbed z p s₁ s₂) (n : String) :
    (s₁.frame? z).any (·.binds n) = false := by
  simp [h.empty, Frame.binds]

theorem frame_ne_of_binds (h : Absorbed z p s₁ s₂) {k : Nat} {n : String}
    (hk : (s₁.frame? k).any (·.binds n) = true) : k ≠ z := by
  rintro rfl
  rw [h.binds_empty n] at hk
  cases hk

/-- The nearest frame binding a name is found alike, and it is not the empty frame. -/
theorem find (h : Absorbed z p s₁ s₂) (j : Nat) (n : String) :
    s₂.find (absorb z p j) n = (s₁.find j n).map (absorb z p) := by
  simp only [Store.find, h.chain j, List.find?_map]
  congr 1
  have hsame : ∀ k ∈ (s₁.chain j).filter (· ≠ z),
      ((fun k => (s₂.frame? k).any (·.binds n)) ∘ absorb z p) k = (s₁.frame? k).any (·.binds n) := by
    intro k hk
    have hkz : k ≠ z := by simpa using (List.mem_filter.1 hk).2
    simp only [Function.comp_apply, h.copies k hkz]
    cases s₁.frame? k <;> simp
  rw [List.find?_congr hsame,
    List.find?_filter_ne _ z (fun k => (s₁.frame? k).any (·.binds n)) (h.binds_empty n)]

theorem find_ne (h : Absorbed z p s₁ s₂) {j k : Nat} {n : String}
    (hk : s₁.find j n = some k) : k ≠ z := by
  have hbinds := List.find?_some hk
  exact h.frame_ne_of_binds hbinds

/-- Reading a name gives the renamed value. -/
theorem lookup (h : Absorbed z p s₁ s₂) (j : Nat) (n : String) :
    s₂.lookup (absorb z p j) n = (s₁.lookup j n).map (Value.rename (absorb z p)) := by
  simp only [Store.lookup, h.find j n]
  cases hk : s₁.find j n with
  | none => rfl
  | some k =>
    simp only [Option.map_some, h.copies k (h.find_ne hk)]
    cases s₁.frame? k with
    | none => rfl
    | some f =>
      simp only [Option.map_some, Option.bind_some, Frame.get?_rename]
      cases f.get? n <;> rfl

theorem has (h : Absorbed z p s₁ s₂) {i : Nat} (hi : i ≠ z) (n : String) :
    s₂.has (absorb z p i) n = s₁.has i n := by
  simp only [Store.has, h.copies i hi]
  cases s₁.frame? i <;> simp

/-- The constant marks along a chain are those along the chain standing for it. -/
theorem constantAlong (h : Absorbed z p s₁ s₂) (j : Nat) (n : String) :
    s₂.constantAlong (absorb z p j) n = s₁.constantAlong j n := by
  simp only [Store.constantAlong, h.chain j, List.any_map, List.any_filter]
  congr 1
  funext k
  by_cases hkz : k = z
  · subst hkz
    simp [h.empty, Frame.bindsConstant]
  · simp only [Function.comp_apply, h.copies k hkz, ne_eq, hkz, not_false_eq_true, decide_true,
      Bool.true_and]
    cases s₁.frame? k <;> simp

/-- Assignment changes the frame standing for the one it changes in `s₁`, never the empty
frame, or fails alike. -/
theorem assignTarget (h : Absorbed z p s₁ s₂) (j : Nat) (n : String) :
    s₂.assignTarget (absorb z p j) n = (s₁.assignTarget j n).map (absorb z p) ∧
      ∀ k, s₁.assignTarget j n = .ok k → k ≠ z := by
  simp only [Store.assignTarget, h.find j n, h.constantAlong j n]
  cases hk : s₁.find j n with
  | none => exact ⟨rfl, fun _ h => by cases h⟩
  | some k =>
    by_cases hc : s₁.constantAlong j n = true
    · simp only [Option.map_some, hc, if_true]
      exact ⟨rfl, fun _ h => by cases h⟩
    · simp only [Option.map_some, hc]
      exact ⟨rfl, fun k' hk' => by cases hk'; exact h.find_ne hk⟩

/-- Binding in a frame other than the empty one, in both stores, keeps them related. -/
theorem bind (h : Absorbed z p s₁ s₂) {i : Nat} (hi : i ≠ z) (n : String) (v : Value)
    (c : Bool) : Absorbed z p (s₁.bind i n v c) (s₂.bind (absorb z p i) n (v.rename (absorb z p)) c)
    where
  below := h.below
  empty := by rw [frame?_bind, if_neg hi, h.empty]
  size := by simpa using h.size
  copies k hk := by
    simp only [frame?_bind, absorb_inj hi hk, h.copies k hk]
    split
    · cases s₁.frame? k <;> simp [Frame.push_rename]
    · rfl
  older k f hk hf := by
    rw [frame?_bind] at hf
    split at hf
    · obtain ⟨g, hg, rfl⟩ := Option.map_eq_some_iff.1 hf
      exact h.older k g hk hg
    · exact h.older k f hk hf

/-- Setting a name in a frame other than the empty one, in both stores, keeps them related. -/
theorem update (h : Absorbed z p s₁ s₂) {j : Nat} (hj : j ≠ z) (n : String) (v : Value) :
    Absorbed z p (s₁.update j n v) (s₂.update (absorb z p j) n (v.rename (absorb z p))) where
  below := h.below
  empty := by rw [frame?_update, if_neg hj, h.empty]
  size := by simpa using h.size
  copies k hk := by
    simp only [frame?_update, absorb_inj hj hk, h.copies k hk]
    split
    · cases s₁.frame? k <;> simp [Frame.set_rename]
    · rfl
  older k f hk hf := by
    rw [frame?_update] at hf
    split at hf
    · obtain ⟨g, hg, rfl⟩ := Option.map_eq_some_iff.1 hf
      exact h.older k g hk hg
    · exact h.older k f hk hf

/-- The next frame of `s₁` stands for the next frame of `s₂`. -/
theorem absorb_size (h : Absorbed z p s₁ s₂) : absorb z p s₁.frames.size = s₂.frames.size := by
  rw [absorb_of_gt h.lt_size, h.size]
  rfl

/-- Making a frame in both stores, under frames that stand for each other, keeps them related. -/
theorem alloc (h : Absorbed z p s₁ s₂) (q : Nat) :
    Absorbed z p (s₁.alloc q).1 (s₂.alloc (absorb z p q)).1 where
  below := h.below
  empty := by rw [frame?_alloc, if_neg (Nat.ne_of_lt h.lt_size), h.empty]
  size := by simp [h.size]
  copies k hk := by
    simp only [frame?_alloc]
    by_cases hk₁ : k = s₁.frames.size
    · subst hk₁
      simp [h.absorb_size, Frame.rename]
    · have hk₂ : absorb z p k ≠ s₂.frames.size := by
        rw [← h.absorb_size]
        exact mt (absorb_inj hk (Nat.ne_of_gt h.lt_size)).1 hk₁
      rw [if_neg hk₁, if_neg hk₂, h.copies k hk]
  older k f hk hf := by
    have hk₁ : k ≠ s₁.frames.size := by
      have := h.lt_size
      omega
    rw [frame?_alloc, if_neg hk₁] at hf
    exact h.older k f hk hf

end Absorbed

/-- In a well-formed store, every frame refers only to frames below the size of the store, which
taking out a frame at that size leaves in place. -/
theorem WellFormed.rename_absorb {s : Store} (hs : s.WellFormed) (p : FrameId) {j : FrameId}
    {f : Frame} (hf : s.frame? j = some f) : f.rename (absorb s.frames.size p) = f := by
  have hj : j < s.frames.size := (frame?_isSome_iff s j).1 (by rw [hf]; rfl)
  obtain ⟨hpar, hsc⟩ := hs j f hf
  exact Frame.rename_of_fixed _ f (fun q hq => absorb_of_lt (Nat.lt_trans (hpar q hq) hj))
    fun b hb c hc => absorb_of_lt (hsc b hb c hc)

/-- A fresh empty child frame of a frame `E` of a well-formed store is absorbed: the store with
it is the store without it, `E` standing for it. -/
theorem Absorbed.of_alloc {s : Store} (hs : s.WellFormed) {E : FrameId}
    (hE : E < s.frames.size) : Absorbed s.frames.size E (s.alloc E).1 s where
  below := hE
  empty := by simp [frame?_alloc]
  size := by simp
  copies k hk := by
    rw [frame?_alloc, if_neg hk]
    rcases Nat.lt_or_gt_of_ne hk with hlt | hgt
    · rw [absorb_of_lt hlt]
      cases hf : s.frame? k with
      | none => rfl
      | some f => simp [hs.rename_absorb E hf]
    · rw [absorb_of_gt hgt, (frame?_eq_none_iff s k).2 (by omega),
        (frame?_eq_none_iff s (k - 1)).2 (by omega)]
      rfl
  older k f hk hf := by
    rw [frame?_alloc, if_neg (Nat.ne_of_lt hk)] at hf
    intro hpar
    exact Nat.lt_irrefl _ (Nat.lt_trans ((hs k f hf).1 _ hpar) hk)

/-- A fresh empty frame under `p`, then a frame under it, in a well-formed store: the first is
absorbed, and the second stands for a fresh frame under `p`. -/
theorem Absorbed.of_alloc_alloc {s : Store} (hs : s.WellFormed) {p : FrameId}
    (hp : p < s.frames.size) :
    Absorbed s.frames.size p ((s.alloc p).1.alloc s.frames.size).1 (s.alloc p).1 where
  below := hp
  empty := by simp [frame?_alloc]
  size := by simp
  copies k hk := by
    rcases Nat.lt_or_gt_of_ne hk with hlt | hgt
    · have hk₁ : k ≠ s.frames.size + 1 := by omega
      simp only [frame?_alloc, size_alloc, absorb_of_lt hlt, if_neg hk, if_neg hk₁]
      cases hf : s.frame? k with
      | none => rfl
      | some f => simp [hs.rename_absorb p hf]
    · rw [absorb_of_gt hgt]
      by_cases hk₁ : k = s.frames.size + 1
      · subst hk₁
        simp [frame?_alloc, Frame.rename]
      · have hk₂ : k - 1 ≠ s.frames.size := by omega
        simp only [frame?_alloc, size_alloc, if_neg hk, if_neg hk₁, if_neg hk₂]
        rw [(frame?_eq_none_iff s k).2 (by omega), (frame?_eq_none_iff s (k - 1)).2 (by omega)]
        rfl
  older k f hk hf := by
    have hk₁ : k ≠ s.frames.size + 1 := by omega
    simp only [frame?_alloc, size_alloc, if_neg hk₁, if_neg (Nat.ne_of_lt hk)] at hf
    intro hpar
    exact Nat.lt_irrefl _ (Nat.lt_trans ((hs k f hf).1 _ hpar) hk)

end Store

namespace Eval.Coupling

/-- A run in a store with one more empty frame `z` under `p`, coupled with a run in the store
without it: `p` stands for `z`. The first run may evaluate anywhere, and binds alike anywhere
but in `z`. -/
def absorbing (z p : FrameId) : Coupling where
  rename := absorb z p
  Open _ := True
  Owned j := j ≠ z
  R m₁ m₂ := m₁.store.Absorbed z p m₂.store ∧ m₁.printed = m₂.printed
  open_of_owned _ _ := trivial
  lookup _ _ j n h _ := ⟨h.1.lookup j n, fun _ _ _ _ => trivial⟩
  assignTarget _ _ j n h _ := h.1.assignTarget j n
  has _ _ _ n h hi := h.1.has hi n
  bind _ _ _ n v c h hi _ := ⟨h.1.bind hi n v c, h.2⟩
  update _ _ _ n v h hj _ := ⟨h.1.update hj n v, h.2⟩
  alloc _ _ q h _ :=
    ⟨h.1.absorb_size, Nat.ne_of_gt h.1.lt_size, h.1.alloc q, h.2⟩
  emit _ _ t h := ⟨h.1, by rw [h.2]⟩

/-- The coupling `K`, after the first run made the empty frames `zs` more: each `(z, p)` a
frame `z` under `p`, the latest first. -/
def stack (K : Coupling) (zs : List (FrameId × FrameId)) : Coupling :=
  zs.foldr (fun zp K' => (absorbing zp.1 zp.2).comp K') K

theorem stack_append (K : Coupling) (zs zs' : List (FrameId × FrameId)) :
    (K.stack zs).stack zs' = K.stack (zs' ++ zs) := by
  simp [stack, List.foldr_append]

end Eval.Coupling

end Scriptlet
