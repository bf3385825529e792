import Scriptlet.Store
import Scriptlet.Number.Reading

/-!
# Evaluation

Programs are evaluated over a store of frames (`Store`); every statement and expression is
evaluated in one frame, its scope.

* A name gives the value that the nearest frame of the chain binds it to.
* A numeral gives its value (`numeralValue`); a string literal gives the string.
* Both operands of a binary operator are evaluated, left first, before the operator is looked
  at. `==`, `&&`, `||`, `&` and `|` are refused; the others need two numbers. Division is that
  of doubles: a non-zero number over zero is a signed infinity, zero over zero is NaN.
* A prefix sign needs a number.
* An assignment needs a name as target, checked before the value is evaluated; it gives the
  value.
* A call evaluates the callee and checks that it can be called before it evaluates the arguments,
  left to right. A function runs its body in a new frame under the frame it was defined in, with
  the parameters bound in order, null for a missing argument; extra arguments are dropped. The
  body's value is that of its last statement, or null.
* A function expression gives a function closed over the current frame.
* A block runs its statements in a new frame under the current one.
* `let` binds in the current frame and gives the value, null without initializer.
* A conditional evaluates its condition in the current frame, and the branch taken in a new
  frame; a block as branch runs its statements in that frame directly. Without a branch to take
  it gives null.
* A loop evaluates its condition in a new frame before each round, and each round's body as a
  branch. It gives the value of the last round, or null.
* Conditions must be booleans.

Evaluation is nested, and the nesting is bounded by `nestingLimit` levels, counted as the
parser counts them. Every node is evaluated one level below the rule that evaluates it, and the
rule for its construct one further; steps of a rule reach a little further for a moment: making a
frame two levels, building a number, a string or a function three, looking a name up two,
reporting a fault up to three. A call evaluates its arguments one level below the call's rule and
runs a function's body three below it. A step that would pass the limit fails with
`Fault.nestingLimit`. Fuel bounds the number of steps as well, so that evaluation is a total
function; `evalFuel` is far more than any program can use in practice.

## Main definitions

* `Machine`: the store and the text printed so far.
* `Eval.expr`, `Eval.stmt`, `Eval.body`: evaluation of expressions, statements and statement
  lists.
-/

namespace Scriptlet

open Scriptlet.Syntax Scriptlet.Number

variable [NestingLimit]

/-- The state of a running program: the store of frames and the text printed so far. -/
structure Machine where
  /-- The frames. -/
  store : Store
  /-- What `print` wrote, in order. -/
  printed : String

/-- Why evaluation stopped before giving a value. -/
inductive Interrupt where
  /-- The program failed. -/
  | fault (f : Fault)
  /-- The fuel ran out. -/
  | outOfFuel

/-- Evaluation: it changes the machine, and a failure keeps the changes made before it. -/
abbrev Eval := ExceptT Interrupt (StateM Machine)

/-- The fuel a program runs with. -/
def evalFuel : Nat := Nat.pow 10 15

/-- A sign applied to a number. -/
def Syntax.Sign.apply : Sign → Float → Float
  | .neg, x => -x
  | .pos, x => x

/-- The value of `a op b`: refused for the five operators without meaning, else both operands
must be numbers. -/
def binaryValue (op : BinOp) (a b : Value) : Except Fault Value :=
  match op with
  | .eq | .and | .or | .bitAnd | .bitOr => .error (.unsupportedOperator op a.type b.type)
  | _ =>
    match a, b with
    | .num x, .num y =>
      match op with
      | .add => .ok (.num (x + y))
      | .sub => .ok (.num (x - y))
      | .mul => .ok (.num (x * y))
      | .div => .ok (.num (x / y))
      | .lt => .ok (.bool (decide (x < y)))
      | .le => .ok (.bool (decide (x ≤ y)))
      | .gt => .ok (.bool (decide (y < x)))
      | .ge => .ok (.bool (decide (y ≤ x)))
      | _ => .error (.unsupportedOperator op a.type b.type)
    | _, _ => .error (.operandsNotNumbers op a.type b.type)

/-- The value of a sign applied to `a`, which must be a number. -/
def unaryValue (s : Sign) (a : Value) : Except Fault Value :=
  match a with
  | .num x => .ok (.num (s.apply x))
  | v => .error (.operandNotNumber s v.type)

/-- The levels beyond the first five that writing a value's display text reaches: a number
written with its shortest digits three, any other number or a function two, anything else none. -/
def displayDepth : Value → Nat
  | .num x => if x.isFinite && !(x.floor == x && x.abs < 1e16) then 3 else 2
  | .closure .. => 2
  | _ => 0

namespace Eval

/-- Fails with `f`. -/
def fail {α : Type} (f : Fault) : Eval α := throw (.fault f)

/-- Fails if level `d` is beyond `nestingLimit`. -/
def reach (d : Nat) : Eval Unit :=
  if nestingLimit < d then fail .nestingLimit else pure ()

/-- Takes the value of a store operation, or fails with its fault. -/
def ofExcept {α : Type} : Except Fault α → Eval α
  | .ok a => pure a
  | .error f => fail f

/-- A new empty frame under `p`. -/
def newFrame (p : FrameId) : Eval FrameId :=
  modifyGet fun ⟨store, printed⟩ =>
    let (s, i) := store.alloc p
    (i, ⟨s, printed⟩)

/-- Appends to the printed text. -/
def emit (text : String) : Eval Unit :=
  modify fun ⟨store, printed⟩ => ⟨store, printed ++ text⟩

/-- The boolean a condition stands for, tested at level `d`; any other value is refused. -/
def truth (d : Nat) (v : Value) : Eval Bool := do
  reach d
  match v with
  | .bool b => pure b
  | v =>
    reach (d + 1)
    fail (.conditionNotBoolean v.type)

/-- Binds the parameters in frame `i` to the arguments in order, null where arguments run out;
each binding is made at level `d`. -/
def bindParams (d : Nat) (i : FrameId) : List String → List Value → Eval Unit
  | [], _ => pure ()
  | p :: ps, vs => do
    reach d
    if (← get).store.has i p then
      reach (d + 3)
      fail (.alreadyDefined p)
    modify fun ⟨store, printed⟩ => ⟨store.bind i p (vs.headD .null) false, printed⟩
    bindParams d i ps vs.tail

/-- Runs a host function on the arguments, its rule at level `d`. The function itself runs one
level down; `print` writes each argument's display text five levels below that, and further for
numbers and functions (`displayDepth`), and `count` builds its number three below it. -/
def native (d : Nat) (action : NativeAction) (args : List Value) : Eval Value := do
  reach (d + 2)
  match action with
  | .print =>
    reach (d + 3)
    if !args.isEmpty then reach (d + 6 + (args.map displayDepth).foldl max 0)
    emit (" ".intercalate (args.map Value.display) ++ "\n")
    return .null
  | .returnNothing => reach (d + 1); return .null
  | .countArgs => reach (d + 4); return .num (Float.ofNat args.length)
  | .firstArg => reach (d + 1); return args.headD .null
  | .lastArg => reach (d + 1); return args.getLastD .null

mutual

/-- The value of an expression in frame `sc`, evaluated at level `d`. -/
def expr : Nat → Nat → FrameId → Expr → Eval Value
  | 0, _, _, _ => throw .outOfFuel
  | fuel + 1, d, sc, e => do
    reach d
    match e with
    | .ident n =>
      reach (d + 2)
      match (← get).store.lookup sc n with
      | .ok v => return v
      | .error f =>
        reach (d + 4)
        fail f
    | .num text form _ =>
      reach (d + 4)
      return .num (numeralValue text (some form))
    | .str s =>
      reach (d + 3)
      return .str s
    | .binary op _ l r =>
      reach (d + 1)
      let a ← expr fuel (d + 2) sc l
      let b ← expr fuel (d + 2) sc r
      reach (d + 3)
      let v ← ofExcept (binaryValue op a b)
      if v matches .num _ then reach (d + 4)
      return v
    | .unary s _ x =>
      reach (d + 1)
      let a ← expr fuel (d + 2) sc x
      reach (d + 3)
      let v ← ofExcept (unaryValue s a)
      reach (d + 4)
      return v
    | .assign target value =>
      reach (d + 1)
      match target with
      | .ident n =>
        let v ← expr fuel (d + 2) sc value
        reach (d + 3)
        match (← get).store.assignTarget sc n with
        | .ok j =>
          modify fun ⟨store, printed⟩ => ⟨store.update j n v, printed⟩
          return v
        | .error f =>
          reach (d + 5)
          fail f
      | t =>
        reach (d + 3)
        fail (.invalidTarget t.nodeName)
    | .call callee args =>
      reach (d + 1)
      let f ← expr fuel (d + 2) sc callee
      reach (d + 2)
      if f.isCallable then
        let vs ← exprs fuel (d + 3) sc args
        apply fuel (d + 2) f vs
      else fail (.notCallable f.type)
    | .func ps body =>
      reach (d + 4)
      return .closure ps body sc

/-- The values of expressions in frame `sc`, left to right, each evaluated at level `d`. -/
def exprs : Nat → Nat → FrameId → List Expr → Eval (List Value)
  | 0, _, _, _ => throw .outOfFuel
  | _ + 1, _, _, [] => return []
  | fuel + 1, d, sc, a :: rest => do
    let v ← expr fuel d sc a
    let vs ← exprs fuel d sc rest
    return v :: vs

/-- Applies a callable value to arguments, the application at level `d`: a function's body runs
in a new frame, its statements three levels down. -/
def apply : Nat → Nat → Value → List Value → Eval Value
  | 0, _, _, _ => throw .outOfFuel
  | fuel + 1, d, f, vs => do
    reach (d + 1)
    match f with
    | .closure ps stmts captured =>
      reach (d + 3)
      let fr ← newFrame captured
      bindParams (d + 2) fr ps vs
      if ps.length < vs.length then reach (d + 3)
      body fuel (d + 3) fr stmts .null
    | .native _ action => native (d + 1) action vs
    | v => fail (.applyNotCallable v.type)

/-- The value of a statement in frame `sc`, evaluated at level `d`. -/
def stmt : Nat → Nat → FrameId → Stmt → Eval Value
  | 0, _, _, _ => throw .outOfFuel
  | fuel + 1, d, sc, s =>
    match s with
    | .expr e => expr fuel d sc e
    | .block stmts => do
      reach (d + 3)
      let fr ← newFrame sc
      body fuel (d + 3) fr stmts .null
    | .letDecl n init => do
      reach (d + 1)
      let v ← match init with
        | some e => expr fuel (d + 2) sc e
        | none => pure .null
      reach (d + 2)
      if (← get).store.has sc n then
        reach (d + 5)
        fail (.alreadyDefined n)
      modify fun ⟨store, printed⟩ => ⟨store.bind sc n v false, printed⟩
      return v
    | .ite c th el => do
      reach (d + 1)
      let cv ← expr fuel (d + 2) sc c
      if ← truth (d + 2) cv then branch fuel (d + 2) sc th
      else
        match el with
        | some s => branch fuel (d + 2) sc s
        | none => return .null
    | .loop c b => do
      reach (d + 1)
      loop fuel (d + 1) sc c b .null

/-- The value of a branch or loop body in a new frame under `sc`, its rule at level `d`: a block's
statements run in that frame directly, two levels down; another statement one level down. -/
def branch : Nat → Nat → FrameId → Stmt → Eval Value
  | 0, _, _, _ => throw .outOfFuel
  | fuel + 1, d, sc, s => do
    reach (d + 2)
    let fr ← newFrame sc
    match s with
    | .block stmts => body fuel (d + 2) fr stmts .null
    | s => stmt fuel (d + 1) fr s

/-- The rounds of a loop with condition `c` and body `b` in frame `sc`, its rule at level `d`;
`last` is the value of the last round so far. The condition is evaluated in a new frame each
round. -/
def loop : Nat → Nat → FrameId → Expr → Stmt → Value → Eval Value
  | 0, _, _, _, _, _ => throw .outOfFuel
  | fuel + 1, d, sc, c, b, last => do
    reach (d + 2)
    let fr ← newFrame sc
    let cv ← expr fuel (d + 1) fr c
    if ← truth (d + 1) cv then
      let v ← branch fuel (d + 1) sc b
      loop fuel d sc c b v
    else return last

/-- The statements run in order in frame `sc`, each evaluated at level `d` with the same fuel; the
value of the last, or `last` if there are none. -/
def body : Nat → Nat → FrameId → List Stmt → Value → Eval Value
  | 0, _, _, _, _ => throw .outOfFuel
  | fuel + 1, d, sc, stmts, last => stmts.foldlM (fun _ s => stmt fuel d sc s) last

end

@[simp] theorem body_succ_nil (fuel d : Nat) (sc : FrameId) (last : Value) :
    body (fuel + 1) d sc [] last = pure last := by
  simp [body]

theorem body_succ_cons (fuel d : Nat) (sc : FrameId) (s : Stmt) (rest : List Stmt)
    (last : Value) :
    body (fuel + 1) d sc (s :: rest) last =
      stmt fuel d sc s >>= fun v => body (fuel + 1) d sc rest v := by
  simp [body]

/-- Two lists of statements in a row run as the first, then the second from the value it gave. -/
theorem body_succ_append (fuel d : Nat) (sc : FrameId) (p q : List Stmt) (last : Value) :
    body (fuel + 1) d sc (p ++ q) last =
      body (fuel + 1) d sc p last >>= fun v => body (fuel + 1) d sc q v := by
  simp [body, List.foldlM_append]

end Eval

end Scriptlet
