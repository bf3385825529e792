import Mathlib
import Scriptlet.Store

/-!
# The store of frames, operation by operation

What each operation of the store does to each frame, stated once so that later proofs never
unfold an operation: `bind` and `update` change the one frame they name, `alloc` adds a frame
after all others, and nothing else changes. The chain from a frame is unfolded one step at a
time by `chain_eq`.
-/

set_option autoImplicit false

namespace Scriptlet.Store

variable (s : Store)

/-! ## Sizes -/

@[simp] theorem size_bind (i : FrameId) (n : String) (v : Value) (c : Bool) :
    (s.bind i n v c).frames.size = s.frames.size := by
  simp [bind]

@[simp] theorem size_update (j : FrameId) (n : String) (v : Value) :
    (s.update j n v).frames.size = s.frames.size := by
  simp [update]

@[simp] theorem size_alloc (p : FrameId) : (s.alloc p).1.frames.size = s.frames.size + 1 := by
  simp [alloc]

@[simp] theorem alloc_index (p : FrameId) : (s.alloc p).2 = s.frames.size := rfl

/-! ## Frames -/

/-- `bind` adds the binding at the end of the frame it names and changes no other frame. -/
theorem frame?_bind (i : FrameId) (n : String) (v : Value) (c : Bool) (j : FrameId) :
    (s.bind i n v c).frame? j =
      if i = j then (s.frame? j).map fun f => { f with bindings := f.bindings ++ [⟨n, v, c⟩] }
      else s.frame? j := by
  simp [bind, frame?, Array.getElem?_modify]

/-- `update` sets the value in the frame it names and changes no other frame. -/
theorem frame?_update (i : FrameId) (n : String) (v : Value) (j : FrameId) :
    (s.update i n v).frame? j = if i = j then (s.frame? j).map (·.set n v) else s.frame? j := by
  simp [update, frame?, Array.getElem?_modify]

/-- `alloc` adds an empty frame under `p` after every other frame. -/
theorem frame?_alloc (p : FrameId) (j : FrameId) :
    (s.alloc p).1.frame? j = if j = s.frames.size then some ⟨[], some p⟩ else s.frame? j := by
  simp [alloc, frame?, Array.getElem?_push]

theorem frame?_eq_none_iff (j : FrameId) : s.frame? j = none ↔ s.frames.size ≤ j := by
  simp [frame?]

theorem frame?_isSome_iff (j : FrameId) : (s.frame? j).isSome ↔ j < s.frames.size := by
  simp [frame?]

/-! ## Chains -/

/-- The chain from a frame is the frame, then the chain from its parent if that is older. -/
theorem chain_eq (i : FrameId) : s.chain i = match s.frame? i with
    | none => []
    | some f => i :: match f.parent with
      | some p => if p < i then s.chain p else []
      | none => [] := by
  rw [chain]; rfl

end Scriptlet.Store
