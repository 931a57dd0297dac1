import PrefixLang.Binary64.Arithmetic
import PrefixLang.Operator
/-!
Values, and what operators make of them.
-/

namespace PrefixLang

inductive Value where
  | number (n : Binary64)
  | string (s : String)
  /-- The value of an assignment. -/
  | empty
  deriving DecidableEq, Repr

namespace Value

def typeName : Value → String
  | number _ => "number"
  | string _ => "string"
  | empty => "empty value"

def number? : Value → Option Binary64
  | number n => some n
  | _ => none

end Value

inductive Side where
  | left
  | right
  deriving DecidableEq, Repr

def Side.word : Side → String
  | .left => "left"
  | .right => "right"

/-- Why an operator has no result. The type of the operand is given as messages call it. -/
inductive OperandError where
  | notNumeric (op : Operator) (side : Side) (found : String)
  | divisionByZero
  deriving DecidableEq, Repr

def OperandError.side : OperandError → Side
  | .notNumeric _ side _ => side
  | .divisionByZero => .right

/-- The result on numbers. Division by either zero has none, whatever is divided. -/
def Operator.onNumbers : Operator → Binary64 → Binary64 → Except OperandError Binary64
  | .add, x, y => .ok (x.add y)
  | .sub, x, y => .ok (x.sub y)
  | .mul, x, y => .ok (x.mul y)
  | .div, x, y => if y.isZero then .error .divisionByZero else .ok (x.div y)

def Operator.apply (op : Operator) (left right : Value) : Except OperandError Value :=
  match left.number?, right.number? with
  | none, _ => .error (.notNumeric op .left left.typeName)
  | some _, none => .error (.notNumeric op .right right.typeName)
  | some x, some y => (op.onNumbers x y).map Value.number

end PrefixLang
