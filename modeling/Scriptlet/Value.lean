import Scriptlet.Syntax.Tree
import Scriptlet.Number.Notation

/-!
# Values

A program computes with six kinds of value: null, booleans, numbers (doubles), strings,
functions written in the language, and functions the host provides. Only numbers have operators;
booleans serve as conditions. A function written in the language keeps its parameters, its body
and the frame it was defined in (`FrameId`, an index into the store of frames).

Each value has a display text: `null`, `true`, `false`, a number by `Notation.display`, a string
as it is, `<function(a, b)>` with the parameter names, and `<native NAME>`.
-/

namespace Scriptlet

open Scriptlet.Syntax Scriptlet.Number

/-- A frame of the store, by its index. -/
abbrev FrameId := Nat

/-- What a host function does with its arguments. -/
inductive NativeAction where
  /-- Writes the display texts of the arguments, separated by spaces, and a line feed; gives
  null. -/
  | print
  /-- Gives null. -/
  | returnNothing
  /-- Gives the number of arguments. -/
  | countArgs
  /-- Gives the first argument, or null. -/
  | firstArg
  /-- Gives the last argument, or null. -/
  | lastArg
deriving DecidableEq, Repr

/-- The values of the language. -/
inductive Value where
  /-- The null value. -/
  | null
  /-- A boolean. -/
  | bool (b : Bool)
  /-- A number. -/
  | num (x : Float)
  /-- A string. -/
  | str (s : String)
  /-- A function with its parameter names and body, closed over the frame `scope`. -/
  | closure (params : List String) (body : List Stmt) (scope : FrameId)
  /-- A host function, by name and action. -/
  | native (name : String) (action : NativeAction)
deriving Inhabited

/-- The kinds of value, as messages name them. -/
inductive ValueType where
  | null
  | boolean
  | float
  | string
  | function
  | nativeFunction
deriving DecidableEq, Repr

/-- The name of a kind of value. -/
def ValueType.name : ValueType → String
  | .null => "Null"
  | .boolean => "Boolean"
  | .float => "Float"
  | .string => "String"
  | .function => "Function"
  | .nativeFunction => "NativeFunction"

namespace Value

/-- The kind of a value. -/
def type : Value → ValueType
  | null => .null
  | bool _ => .boolean
  | num _ => .float
  | str _ => .string
  | closure .. => .function
  | native .. => .nativeFunction

/-- Whether a value can be called. -/
def isCallable : Value → Bool
  | closure .. | native .. => true
  | _ => false

/-- The display text of a value. -/
def display : Value → String
  | null => "null"
  | bool b => if b then "true" else "false"
  | num x => Notation.display.render x
  | str s => s
  | closure ps _ _ => "<function(" ++ ", ".intercalate ps ++ ")>"
  | native name _ => "<native " ++ name ++ ">"

end Value

end Scriptlet
