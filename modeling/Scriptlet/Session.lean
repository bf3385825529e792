import Scriptlet.Eval

/-!
# Sessions

A session holds a global frame that programs run against one after another: what one program
binds at its top level, the next one sees. The global frame starts with the constants `null`,
`true` and `false`, and, when host functions are on, the constant `print`. The host can add
functions of its own as further constants.

Running a program parses it whole, then evaluates its statements directly in the global frame.
A failure keeps whatever the program did before it.
-/

namespace Scriptlet

open Scriptlet.Syntax

variable [NestingLimit]

/-- Why a run gave no value. -/
inductive Failure where
  /-- The source text could not be parsed. -/
  | parse (e : ParseError)
  /-- The program failed while it ran. -/
  | fault (f : Fault)
  /-- The fuel ran out; no program does this in practice. -/
  | outOfFuel

namespace Failure

/-- The name of the class of a failure. -/
def className : Failure → String
  | parse (.lexical e) => e.className
  | parse (.unexpected ..) => "TzSyntaxError"
  | parse .tooDeep => Fault.nestingLimit.className
  | parse .exhausted | outOfFuel => "TzInternalError"
  | fault f => f.className

/-- The message of a failure. -/
def message : Failure → String
  | parse .tooDeep => Fault.nestingLimit.message
  | parse e => e.message
  | fault f => f.message
  | outOfFuel => "evaluation ran out of fuel"

end Failure

/-- What a step of a session gives: a value or a failure, and the text it printed. -/
structure Report where
  /-- The value, or why there is none. -/
  result : Except Failure Value
  /-- What the step printed. -/
  printed : String

/-- A session: the store, whose frame 0 is the global frame. -/
structure Session where
  /-- The frames; frame 0 is the global frame. -/
  store : Store

/-- The index of the global frame. -/
def globalFrame : FrameId := 0

/-- The level at which a session runs a program: the program is read one level down, and its
statements are evaluated three levels down. -/
def runLevel : Nat := 4

namespace Session

/-- A new session: the constants `null`, `true` and `false`, then `print` when `natives`. -/
def start (natives : Bool) : Session :=
  let constants : List Binding :=
    [⟨"null", .null, true⟩, ⟨"true", .bool true, true⟩, ⟨"false", .bool false, true⟩]
  let hosted : List Binding := if natives then [⟨"print", .native "print" .print, true⟩] else []
  ⟨⟨#[⟨constants ++ hosted, none⟩]⟩⟩

/-- Runs a program against the global frame: its value is that of its last statement, or null. -/
def run (s : Session) (src : String) : Report × Session :=
  match Program.parseAt (runLevel + 1) src with
  | .error e => (⟨.error (.parse e), ""⟩, s)
  | .ok prog =>
    let (r, m) := ((Eval.body evalFuel (runLevel + 3) globalFrame prog .null).run).run ⟨s.store, ""⟩
    let result : Except Failure Value :=
      match r with
      | .ok v => .ok v
      | .error (.fault f) => .error (.fault f)
      | .error .outOfFuel => .error .outOfFuel
    (⟨result, m.printed⟩, ⟨m.store⟩)

/-- Adds a host function as a constant of the global frame; its value is the new function.
Refused if the global frame already binds the name. -/
def addNative (s : Session) (name : String) (action : NativeAction) : Report × Session :=
  let f := Value.native name action
  match s.store.define globalFrame name f true with
  | .ok st => (⟨.ok f, ""⟩, ⟨st⟩)
  | .error e => (⟨.error (.fault e), ""⟩, s)

/-- The global frame's bindings, written `{name: value, const name: value}`. -/
def globals (s : Session) : String := s.store.render globalFrame

/-- A step of a session: running a program, or adding a host function. -/
inductive Step where
  /-- Runs the program with this source text. -/
  | run (src : String)
  /-- Adds a host function under this name. -/
  | addNative (name : String) (action : NativeAction)

/-- Takes one step. -/
def step (s : Session) : Step → Report × Session
  | .run src => s.run src
  | .addNative name action => s.addNative name action

/-- The session after the steps, in order. -/
def replay (s : Session) : List Step → Session
  | [] => s
  | st :: rest => (s.step st).2.replay rest

end Session

end Scriptlet
