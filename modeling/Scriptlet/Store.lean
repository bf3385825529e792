import Scriptlet.Fault

/-!
# The store of frames

A frame holds bindings in the order they were made, each a name, a value and a constant mark,
and the frame it was made in, its parent. The store keeps every frame ever made, by index; a
frame is made after its parent, so a parent's index is below its child's, and the chain from any
frame through its parents is finite and ends at a frame without parent.

* `define` binds a name in one frame, and refuses a name that frame already binds.
* `find` gives the nearest frame of the chain that binds a name; `lookup` reads the value there.
* `assign` replaces that value in place, and refuses when no frame of the chain binds the name,
  or when any frame of the chain binds it as a constant, even one that a nearer binding shadows.
* `render` writes a frame's bindings as `{name: value, const name: value}`.
-/

namespace Scriptlet

/-- A binding: a name, its value and whether it is constant. -/
structure Binding where
  /-- The name. -/
  name : String
  /-- The value. -/
  value : Value
  /-- Whether assignment is refused. -/
  constant : Bool

/-- A frame: its bindings in the order they were made, and its parent. -/
structure Frame where
  /-- The bindings, oldest first. -/
  bindings : List Binding
  /-- The frame this one was made in. -/
  parent : Option FrameId

namespace Frame

/-- Whether the frame binds `n`. -/
def binds (f : Frame) (n : String) : Bool := f.bindings.any (·.name == n)

/-- The binding of `n` in the frame. -/
def get? (f : Frame) (n : String) : Option Binding := f.bindings.find? (·.name == n)

/-- Whether the frame binds `n` as a constant. -/
def bindsConstant (f : Frame) (n : String) : Bool :=
  f.bindings.any fun b => b.name == n && b.constant

/-- The frame with `n` bound to `v` in place. -/
def set (f : Frame) (n : String) (v : Value) : Frame :=
  { f with bindings := f.bindings.map fun b => if b.name == n then { b with value := v } else b }

/-- The bindings written `{name: value, const name: value}`, oldest first. -/
def render (f : Frame) : String :=
  "\x7b" ++ ", ".intercalate (f.bindings.map fun b =>
    (if b.constant then "const " else "") ++ b.name ++ ": " ++ b.value.display) ++ "\x7d"

end Frame

/-- Every frame made so far, by index. -/
structure Store where
  /-- The frames, in the order they were made. -/
  frames : Array Frame

namespace Store

/-- A store with one frame, the root, at index 0. -/
def withRoot : Store := ⟨#[⟨[], none⟩]⟩

/-- The frame at `i`. -/
def frame? (s : Store) (i : FrameId) : Option Frame := s.frames[i]?

/-- A new empty frame with parent `p`, and its index. -/
def alloc (s : Store) (p : FrameId) : Store × FrameId :=
  let i := s.frames.size
  (⟨s.frames.push ⟨[], some p⟩⟩, i)

/-- The frames from `i` out through the parents, `i` first. A parent whose index is not below
its child's ends the chain; no store that `alloc` builds has one. -/
def chain (s : Store) (i : FrameId) : List FrameId :=
  match s.frames[i]? with
  | none => []
  | some f =>
    i :: match f.parent with
      | some p => if p < i then s.chain p else []
      | none => []
termination_by i

/-- The nearest frame of the chain from `i` that binds `n`. -/
def find (s : Store) (i : FrameId) (n : String) : Option FrameId :=
  (s.chain i).find? fun j => (s.frame? j).any (·.binds n)

/-- The value of `n` seen from frame `i`. -/
def lookup (s : Store) (i : FrameId) (n : String) : Except Fault Value :=
  match s.find i n with
  | some j =>
    match (s.frame? j).bind (·.get? n) with
    | some b => .ok b.value
    | none => .error (.undefinedVariable n)
  | none => .error (.undefinedVariable n)

/-- Whether some frame of the chain from `i` binds `n` as a constant. -/
def constantAlong (s : Store) (i : FrameId) (n : String) : Bool :=
  (s.chain i).any fun j => (s.frame? j).any (·.bindsConstant n)

/-- Whether frame `i` itself binds `n`. -/
def has (s : Store) (i : FrameId) (n : String) : Bool := (s.frame? i).any (·.binds n)

/-- Frame `i` with the binding of `n` to `v` added last, constant when `c`. -/
def bind (s : Store) (i : FrameId) (n : String) (v : Value) (c : Bool) : Store :=
  ⟨s.frames.modify i fun f => { f with bindings := f.bindings ++ [⟨n, v, c⟩] }⟩

/-- Frame `j` with the value of `n` replaced by `v`, in place. -/
def update (s : Store) (j : FrameId) (n : String) (v : Value) : Store :=
  ⟨s.frames.modify j (·.set n v)⟩

/-- Why assigning `n` from frame `i` is refused, if it is: no frame of the chain binds `n`, or
one binds it as a constant. Otherwise the frame whose binding changes. -/
def assignTarget (s : Store) (i : FrameId) (n : String) : Except Fault FrameId :=
  match s.find i n with
  | none => .error (.undefinedVariable n)
  | some j => if s.constantAlong i n then .error (.constantViolation n) else .ok j

/-- Binds `n` to `v` in frame `i`, as a constant when `c`; refused if frame `i` binds `n`. -/
def define (s : Store) (i : FrameId) (n : String) (v : Value) (c : Bool) :
    Except Fault Store :=
  if s.has i n then .error (.alreadyDefined n) else .ok (s.bind i n v c)

/-- Replaces the value of `n` in the nearest frame of the chain from `i` that binds it; refused
if none does, or if any frame of the chain binds `n` as a constant. -/
def assign (s : Store) (i : FrameId) (n : String) (v : Value) : Except Fault Store :=
  (s.assignTarget i n).map fun j => s.update j n v

/-- Whether frame `i` itself binds `n` as a constant. -/
def isConstant (s : Store) (i : FrameId) (n : String) : Bool :=
  (s.frame? i).any (·.bindsConstant n)

/-- Frame `i` without bindings. -/
def reset (s : Store) (i : FrameId) : Store :=
  ⟨s.frames.modify i fun f => { f with bindings := [] }⟩

/-- The number of parents above frame `i`. -/
def depth (s : Store) (i : FrameId) : Nat := (s.chain i).length - 1

/-- The parent of frame `i`. -/
def parent? (s : Store) (i : FrameId) : Option FrameId := (s.frame? i).bind (·.parent)

/-- Frame `i` written as its bindings, followed by ` -> ...` if it has a parent. -/
def render (s : Store) (i : FrameId) : String :=
  match s.frame? i with
  | some f => f.render ++ (if f.parent.isSome then " -> ..." else "")
  | none => "\x7b\x7d"

/-- The chain from frame `i`, each frame written as its bindings, innermost first. -/
def renderChain (s : Store) (i : FrameId) : String :=
  "<Environment chain: " ++
    " -> ".intercalate ((s.chain i).map fun j => ((s.frame? j).map (·.render)).getD "\x7b\x7d") ++ ">"

end Store

/-- A store with the frame that operations act on. -/
structure Scope where
  /-- The frames. -/
  store : Store
  /-- The frame operations act on. -/
  frame : FrameId

namespace Scope

/-- The root frame of a fresh store. -/
def root : Scope := ⟨Store.withRoot, 0⟩

/-- Moves into a new empty frame under the current one. -/
def push (c : Scope) : Scope :=
  let (s, i) := c.store.alloc c.frame
  ⟨s, i⟩

/-- Moves out to the parent of the current frame; the root stays where it is. -/
def pop (c : Scope) : Scope :=
  match c.store.parent? c.frame with
  | some p => { c with frame := p }
  | none => c

/-- The number of parents above the current frame. -/
def depth (c : Scope) : Nat := c.store.depth c.frame

end Scope

end Scriptlet
