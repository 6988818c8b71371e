import PageScript.Report
import PageScript.Value

/-!
Why a program stops with an error.
-/
namespace PageScript

/-- The cause of a runtime error. -/
inductive RuntimeFault where
  | undefined (name : String)
  /-- An operator between operands of kinds that it does not take. -/
  | operands (operator : String) (left right : ValueKind)
  | negation (kind : ValueKind)
  | divisionByZero
  | unknownOperator (operator : String)
  | outOfRange (operator : String)
  | tooLargeToDisplay
  | notCallable (kind : ValueKind)
  | callDepth (limit : Int) (function : String)
  | notIterable (kind : ValueKind)
  | noLength (kind : ValueKind)
  /-- A statement in the place of an expression. -/
  | notAnExpression (kind : String)
  | nestingTooDeep

/-- A runtime error, with the line that it is reported under. -/
structure RuntimeError where
  fault : RuntimeFault
  line : Int

/-- The message of an error; see `fitsText` for whether it can be written. -/
def RuntimeFault.message : RuntimeFault → String
  | undefined name => "Undefined variable: " ++ name
  | operands operator left right =>
    "Unsupported operand types for " ++ operator ++ ": " ++ left.name ++ " and " ++ right.name
  | negation kind => "Unsupported operand type for unary -: " ++ kind.name
  | divisionByZero => "Division by zero"
  | unknownOperator operator => "Unknown operator: " ++ operator
  | outOfRange operator => "Numeric result out of range for " ++ operator
  | tooLargeToDisplay => "Number too large to display"
  | notCallable kind => "Can only call functions, got " ++ kind.name
  | callDepth limit function =>
    "Call depth limit (" ++ toString limit ++ ") exceeded in " ++ function ++ "()"
  | notIterable kind => "For loop requires an array, got " ++ kind.name
  | noLength kind => "len() requires an array or string, got " ++ kind.name
  | notAnExpression kind => "Unexpected " ++ kind ++ " in expression position"
  | nestingTooDeep => "Nesting too deep to evaluate"

/-- Whether the number in a message, if there is one, is short enough to be written. -/
def RuntimeFault.fitsText : RuntimeFault → Bool
  | callDepth limit _ => Number.fitsText limit
  | _ => true

/-- What a runtime error tells in its source, as far as that is known, if it is raised. -/
def RuntimeError.report (e : RuntimeError) (source : String) : Report :=
  ⟨e.fault.message, e.line, 0, source⟩

/-- What is raised for a runtime error; `none` if the limit in its message or its line is too long to
be written. -/
def RuntimeError.raised? (e : RuntimeError) (source : String) : Option Report :=
  if e.fault.fitsText then (e.report source).raised? else none

end PageScript
