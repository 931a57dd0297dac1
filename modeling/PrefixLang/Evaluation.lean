import PrefixLang.Environment
import PrefixLang.Expr
/-!
Evaluation of trees, from left to right and with all operands before their operator. The first error
ends it; what was bound until then stays bound.
-/

namespace PrefixLang

inductive EvalErrorKind where
  | undefinedIdentifier (name : String)
  | operand (e : OperandError)
  deriving DecidableEq, Repr

structure EvalError where
  kind : EvalErrorKind
  span : Span
  deriving DecidableEq, Repr

/-- What ends an evaluation early: an error of the program, or a hole in a tree. -/
inductive Stop (ρ : Type) where
  | error (e : EvalError)
  | hole (reason : ρ)
  deriving DecidableEq, Repr

def Stop.toError : Stop Empty → EvalError
  | .error e => e

inductive Output where
  | empty
  | value (v : Value)
  | keyword (word : String) (v : Value)
  deriving DecidableEq, Repr

def Output.ofValue : Value → Output
  | .empty => .empty
  | v => .value v

namespace Evaluation

variable {ρ σ α β γ : Type}

abbrev Outcome (ρ α : Type) := Except (Stop ρ) α × Environment

/-- Goes on with the value of an evaluation; an early end stays the end. -/
def andThen (r : Outcome ρ α) (next : α → Environment → Outcome ρ β) : Outcome ρ β :=
  match r with
  | (.ok v, env) => next v env
  | (.error stop, env) => (.error stop, env)

theorem andThen_assoc (r : Outcome ρ α) (next : α → Environment → Outcome ρ β)
    (last : β → Environment → Outcome ρ γ) :
    andThen (andThen r next) last = andThen r fun v env => andThen (next v env) last := by
  obtain ⟨_ | v, env⟩ := r <;> rfl

theorem andThen_mapError (f : Stop ρ → Stop σ) (r : Outcome ρ α)
    (next : α → Environment → Outcome ρ β) :
    andThen (r.1.mapError f, r.2) (fun v env => ((next v env).1.mapError f, (next v env).2))
      = ((andThen r next).1.mapError f, (andThen r next).2) := by
  obtain ⟨_ | v, env⟩ := r <;> rfl

theorem andThen_ok (r : Outcome ρ α) : (andThen r fun v env => (.ok v, env)) = r := by
  obtain ⟨_ | v, env⟩ := r <;> rfl

def atOperand (leftSpan rightSpan : Span) (e : OperandError) : EvalError :=
  ⟨.operand e, match e.side with | .left => leftSpan | .right => rightSpan⟩

def operate (op : Operator) (leftSpan rightSpan : Span) (left right : Value) :
    Except (Stop ρ) Value :=
  (op.apply left right).mapError fun e => .error (atOperand leftSpan rightSpan e)

def value (names : NameTable) : Expr ρ → Environment → Outcome ρ Value
  | .number v _, env => (.ok (.number v), env)
  | .string s _, env => (.ok (.string (names.lookup s)), env)
  | .identifier x span, env =>
    match env.lookup x with
    | some v => (.ok v, env)
    | none => (.error (.error ⟨.undefinedIdentifier (names.lookup x), span⟩), env)
  | .assign x e _, env => andThen (value names e env) fun v env => (.ok .empty, env.define x v)
  | .print e _, env => value names e env
  | .wrap _ e _, env => value names e env
  | .binary op l r _, env => andThen (value names l env) fun v env =>
      andThen (value names r env) fun w env => (operate op l.span r.span v w, env)
  | .hole reason, env => (.error (.hole reason), env)

/-- What a statement shows of its value: only a keyword at its root counts. -/
def shows : Expr ρ → Value → Output
  | .print _ _, v => .keyword "print" v
  | .wrap w _ _, v => .keyword w.word v
  | _, v => .ofValue v

end Evaluation

open Evaluation in
def evaluate {ρ : Type} (names : NameTable) :
    List (Expr ρ) → Environment → Outcome ρ (List Output)
  | [], env => (.ok [], env)
  | e :: rest, env => andThen (value names e env) fun v env =>
      andThen (evaluate names rest env) fun outputs env => (.ok (shows e v :: outputs), env)

end PrefixLang
