import Scriptlet.Syntax.Parser
import Scriptlet.Value

/-!
# Faults

The errors a program can meet while it runs, each with the name of its class and its message.
A fault ends the program; what it did before stays done.
-/

namespace Scriptlet

open Scriptlet.Syntax

variable [NestingLimit]

/-- The errors of a running program. -/
inductive Fault where
  /-- No frame of the chain binds the name. -/
  | undefinedVariable (name : String)
  /-- The frame already binds the name. -/
  | alreadyDefined (name : String)
  /-- A frame of the chain binds the name as a constant. -/
  | constantViolation (name : String)
  /-- An arithmetic or comparison operator got an operand that is not a number. -/
  | operandsNotNumbers (op : BinOp) (left right : ValueType)
  /-- A prefix sign got an operand that is not a number. -/
  | operandNotNumber (sign : Sign) (operand : ValueType)
  /-- A condition is not a boolean. -/
  | conditionNotBoolean (found : ValueType)
  /-- The callee is not a function. -/
  | notCallable (found : ValueType)
  /-- The target of an assignment is not a name; the node kind is given. -/
  | invalidTarget (node : String)
  /-- The operator has no meaning: `==`, `&&`, `||`, `&` and `|`. -/
  | unsupportedOperator (op : BinOp) (left right : ValueType)
  /-- Evaluation nests beyond `nestingLimit`. -/
  | nestingLimit
  /-- A value that is not a function reached the application of a call; a call tests its callee
  before it evaluates the arguments. -/
  | applyNotCallable (found : ValueType)
deriving Repr

namespace Fault

/-- The name of the class of a fault. -/
def className : Fault → String
  | undefinedVariable _ => "TzUndefinedVariable"
  | alreadyDefined _ => "TzAlreadyDefined"
  | constantViolation _ => "TzConstantViolation"
  | operandsNotNumbers .. | operandNotNumber .. | conditionNotBoolean _ => "TzTypeError"
  | notCallable _ => "TzNotCallable"
  | invalidTarget _ => "TzInvalidAssignmentTarget"
  | unsupportedOperator .. => "TzUnsupported"
  | nestingLimit => "TzRecursionLimit"
  | applyNotCallable _ => "TzInternalError"

/-- The message of a fault. -/
def message : Fault → String
  | undefinedVariable n => "variable '" ++ n ++ "' is not defined"
  | alreadyDefined n => "variable '" ++ n ++ "' is already defined"
  | constantViolation n => "variable '" ++ n ++ "' is a constant"
  | operandsNotNumbers op l r =>
    "operator '" ++ op.symbol ++ "' requires Float operands, got " ++ l.name ++ " and " ++ r.name
  | operandNotNumber s t =>
    "operator '" ++ s.symbol ++ "' requires a Float operand, got " ++ t.name
  | conditionNotBoolean t => "condition must be boolean, got " ++ t.name
  | notCallable t => "cannot call a value of type " ++ t.name
  | invalidTarget node => "cannot assign to " ++ node ++ ", only to a variable name"
  | unsupportedOperator op l r =>
    "operator '" ++ op.symbol ++ "' is not supported for " ++ l.name ++ " and " ++ r.name
  | nestingLimit =>
    "maximum nesting depth exceeded (recursion limit " ++ toString NestingLimit.nestingLimit ++ ")"
  | applyNotCallable t => "apply reached with non-callable " ++ t.name

end Fault

end Scriptlet
