import PrefixLang.Evaluation
import PrefixLang.Program.Layout
/-!
Evaluation of node tables. Every number is looked up when it is come to, so a node that is shared is
evaluated once for each use, and what waits is kept in a list, the innermost first, so the depth of
nesting is not limited. `evaluate_eq` says that a table is evaluated as the trees it stands for.
-/

namespace PrefixLang

namespace Program

open Evaluation (Outcome andThen andThen_assoc andThen_ok operate shows value)

/-- What waits for a value. With an operand still to come stands how deep it may reach. -/
inductive Frame where
  | bind (name : Name)
  | left (op : Operator) (left right : NodeId) (depth : Nat)
  | right (op : Operator) (left right : NodeId) (value : Value)

inductive Control where
  | enter (depth : Nat) (id : NodeId)
  | give (value : Value)

/-- How many steps an evaluation of this depth may take. -/
def stepBound : Nat → Nat
  | 0 => 1
  | depth + 1 => 2 * stepBound depth + 3

def Frame.totalBound : List Frame → Nat
  | [] => 0
  | .left _ _ _ depth :: rest => stepBound depth + 2 + totalBound rest
  | .bind _ :: rest | .right _ _ _ _ :: rest => 1 + totalBound rest

def Control.bound : Control → Nat
  | .enter depth _ => stepBound depth
  | .give _ => 0

/-- The error of an operator. Only now it is looked up where the operand stands. -/
def operandStop (p : Program) (left right : NodeId) (e : OperandError) : Stop Fault :=
  let operand := match e.side with | .left => left | .right => right
  match p.get operand with
  | .ok node => .error ⟨.operand e, node.span⟩
  | .error fault => .hole fault

def run (names : NameTable) (p : Program) (control : Control) (frames : List Frame)
    (env : Environment) : Outcome Fault Value :=
  match control, frames with
  | .enter depth id, frames =>
    match p.get id with
    | .error fault => (.error (.hole fault), env)
    | .ok node =>
      match depth with
      | 0 => (.error (.hole .endless), env)
      | depth + 1 =>
        match node.kind with
        | .number v => run names p (.give (.number v)) frames env
        | .string s => run names p (.give (.string (names.lookup s))) frames env
        | .identifier x =>
          match env.lookup x with
          | some v => run names p (.give v) frames env
          | none => (.error (.error ⟨.undefinedIdentifier (names.lookup x), node.span⟩), env)
        | .assign x e => run names p (.enter depth e) (.bind x :: frames) env
        | .print e | .wrap _ e => run names p (.enter depth e) frames env
        | .binary op l r => run names p (.enter depth l) (.left op l r depth :: frames) env
  | .give v, [] => (.ok v, env)
  | .give v, .bind x :: rest => run names p (.give .empty) rest (env.define x v)
  | .give v, .left op l r depth :: rest =>
    run names p (.enter depth r) (.right op l r v :: rest) env
  | .give w, .right op l r v :: rest =>
    match op.apply v w with
    | .ok result => run names p (.give result) rest env
    | .error e => (.error (p.operandStop l r e), env)
termination_by control.bound + Frame.totalBound frames
decreasing_by all_goals simp only [Frame.totalBound, Control.bound, stepBound]; omega

def eval (names : NameTable) (p : Program) (depth : Nat) (id : NodeId) (env : Environment) :
    Outcome Fault Value :=
  run names p (.enter depth id) [] env

def statement (names : NameTable) (p : Program) (id : NodeId) (env : Environment) :
    Outcome Fault Output :=
  let depth := p.nodes.size
  match p.get id with
  | .error fault => (.error (.hole fault), env)
  | .ok node =>
    match node.kind with
    | .print e =>
      andThen (eval names p (depth - 1) e env) fun v env => (.ok (.keyword "print" v), env)
    | .wrap w e =>
      andThen (eval names p (depth - 1) e env) fun v env => (.ok (.keyword w.word v), env)
    | _ => andThen (eval names p depth id env) fun v env => (.ok (.ofValue v), env)

def statements (names : NameTable) (p : Program) (shown : Array Output) :
    List NodeId → Environment → Outcome Fault (List Output)
  | [], env => (.ok shown.toList, env)
  | id :: rest, env =>
    match statement names p id env with
    | (.ok output, env) => statements names p (shown.push output) rest env
    | (.error stop, env) => (.error stop, env)

def evaluate (p : Program) (names : NameTable) (env : Environment) : Outcome Fault (List Output) :=
  statements names p #[] p.body env

variable {names : NameTable} {p : Program} {depth : Nat} {id : NodeId} {node : Node} {v : Value}
  {env env' : Environment}

theorem treeAt_of_missing {fault : Fault} (h : p.get id = .error fault) (depth : Nat) :
    p.treeAt depth id = .hole fault := by
  cases depth <;> rw [treeAt, h]

theorem span_treeOf (child : NodeId → Expr Fault) (node : Node) :
    (treeOf child node).span = node.span := by
  obtain ⟨kind, s⟩ := node
  cases kind <;> rfl

theorem get_of_value (h : value names (p.treeAt depth id) env = (.ok v, env')) :
    ∃ node, p.get id = .ok node ∧ (p.treeAt depth id).span = node.span := by
  cases hget : p.get id with
  | error fault =>
    rw [treeAt_of_missing hget] at h
    cases h
  | ok node =>
    cases depth with
    | zero =>
      rw [treeAt, hget] at h
      cases h
    | succ depth =>
      rw [treeAt, hget]
      exact ⟨node, rfl, span_treeOf _ node⟩

/-- What waits never matters to the value of a node, only to what becomes of it. -/
theorem run_enter (depth : Nat) (id : NodeId) (frames : List Frame) (env : Environment) :
    run names p (.enter depth id) frames env =
      andThen (value names (p.treeAt depth id) env) fun v env =>
        run names p (.give v) frames env := by
  -- For any frames, since the children of a node are entered with one frame more.
  induction depth generalizing id frames env with
  | zero =>
    rw [run, treeAt]
    cases p.get id <;> rfl
  | succ depth ih =>
    rw [run, treeAt]
    rcases p.get id with fault | ⟨kind, s⟩
    · rfl
    cases kind with
    | number v | string t => rfl
    | identifier x =>
      simp only [treeOf, value]
      cases env.lookup x <;> rfl
    | assign x e =>
      simp only [treeOf, value]
      rw [ih, andThen_assoc]
      congr
      funext v env
      rw [run, andThen]
    | print e | wrap w e =>
      simp only [treeOf, value]
      rw [ih]
    | binary op l r =>
      simp only [treeOf, value]
      rw [ih, andThen_assoc]
      rcases hl : value names (p.treeAt depth l) env with ⟨_ | v, env'⟩
      · rfl
      simp only [andThen]
      rw [run, ih]
      rcases hr : value names (p.treeAt depth r) env' with ⟨_ | w, env''⟩
      · rfl
      simp only [andThen]
      rw [run, operate]
      obtain ⟨left, hleft, hls⟩ := get_of_value hl
      obtain ⟨right, hright, hrs⟩ := get_of_value hr
      rcases happly : op.apply v w with e | result
      · refine Prod.ext (congrArg Except.error ?_) rfl
        simp only [operandStop, Evaluation.atOperand]
        cases e.side <;> simp [hleft, hright, hls, hrs]
      · rfl

theorem eval_eq_value (depth : Nat) (id : NodeId) (env : Environment) :
    eval names p depth id env = value names (p.treeAt depth id) env := by
  have hlast : (fun (v : Value) env => run names p (.give v) [] env)
      = fun v env => (.ok v, env) := by
    funext v env
    rw [run]
  rw [eval, run_enter, hlast, andThen_ok]

theorem size_pos_of_get (h : p.get id = .ok node) : 0 < p.nodes.size :=
  Nat.zero_lt_of_lt (Array.getElem?_eq_some_iff.1 (get_eq_ok.1 h)).1

theorem statement_eq_value (id : NodeId) (env : Environment) :
    statement names p id env =
      andThen (value names (p.treeAt p.nodes.size id) env) fun v env =>
        (.ok (shows (p.treeAt p.nodes.size id) v), env) := by
  rw [statement]
  rcases hget : p.get id with fault | ⟨kind, s⟩
  · rw [treeAt_of_missing hget]
    rfl
  obtain ⟨depth, hdepth⟩ := Nat.exists_eq_add_of_lt (size_pos_of_get hget)
  rw [Nat.zero_add] at hdepth
  have htree := treeAt_of_node (get_eq_ok.1 hget) depth
  cases kind with
  | print e | wrap w e =>
    simp only [eval_eq_value]
    rw [hdepth, htree, Nat.add_sub_cancel]
    rfl
  | number | string | identifier | assign | binary =>
    simp only [eval_eq_value]
    rw [hdepth, htree]
    rfl

theorem statements_eq (shown : Array Output) (ids : List NodeId) (env : Environment) :
    statements names p shown ids env =
      andThen (PrefixLang.evaluate names (ids.map (p.treeAt p.nodes.size)) env) fun outputs env =>
        (.ok (shown.toList ++ outputs), env) := by
  induction ids generalizing shown env with
  | nil => simp [statements, PrefixLang.evaluate, andThen]
  | cons id rest ih =>
    rw [statements, statement_eq_value, List.map_cons, PrefixLang.evaluate, andThen_assoc]
    rcases value names (p.treeAt p.nodes.size id) env with ⟨_ | v, env'⟩
    · rfl
    simp only [andThen]
    rw [ih]
    rcases PrefixLang.evaluate names (rest.map (p.treeAt p.nodes.size)) env' with ⟨_ | outputs, _⟩
    · rfl
    · simp [andThen]

theorem evaluate_eq (p : Program) (names : NameTable) (env : Environment) :
    p.evaluate names env = PrefixLang.evaluate names p.unfold env := by
  rw [evaluate, statements_eq]
  exact andThen_ok _

end Program

variable {ρ σ : Type}

def Stop.mapHoles (f : ρ → σ) : Stop ρ → Stop σ
  | .error e => .error e
  | .hole reason => .hole (f reason)

namespace Evaluation

variable {names : NameTable}

theorem span_mapHoles (f : ρ → σ) (e : Expr ρ) : (e.mapHoles f).span = e.span := by
  cases e <;> rfl

theorem value_mapHoles (f : ρ → σ) (e : Expr ρ) (env : Environment) :
    value names (e.mapHoles f) env
      = ((value names e env).1.mapError (Stop.mapHoles f), (value names e env).2) := by
  induction e generalizing env with
  | number | string | hole => rfl
  | identifier x s =>
    rw [Expr.mapHoles, value, value]
    cases env.lookup x <;> rfl
  | assign x e s ih =>
    rw [Expr.mapHoles, value, value, ih]
    rcases value names e env with ⟨_ | v, env⟩ <;> rfl
  | print e s ih | wrap w e s ih => rw [Expr.mapHoles, value, value, ih]
  | binary op l r s ihl ihr =>
    rw [Expr.mapHoles, value, value, ihl, span_mapHoles, span_mapHoles, ← andThen_mapError]
    congr
    funext v env
    rw [ihr, ← andThen_mapError]
    congr
    funext w env
    rw [operate, operate]
    cases op.apply v w <;> rfl

theorem evaluate_mapHoles (f : ρ → σ) (trees : List (Expr ρ)) (env : Environment) :
    evaluate names (trees.map (Expr.mapHoles f)) env
      = ((evaluate names trees env).1.mapError (Stop.mapHoles f),
        (evaluate names trees env).2) := by
  induction trees generalizing env with
  | nil => rfl
  | cons e rest ih =>
    have hshows : shows (e.mapHoles f) = shows e := by
      funext v
      cases e <;> rfl
    rw [List.map_cons, evaluate, evaluate, value_mapHoles, hshows, ← andThen_mapError]
    congr
    funext v env
    rw [ih, ← andThen_mapError]
    rfl

end Evaluation

theorem Program.evaluate_ofForest (names : NameTable) (forest : Forest) (env : Environment) :
    (ofForest forest).evaluate names env
      = ((PrefixLang.evaluate names forest env).1.mapError fun stop => .error stop.toError,
        (PrefixLang.evaluate names forest env).2) := by
  have hstop : (Stop.mapHoles Empty.elim : Stop Empty → Stop Fault)
      = fun stop => .error stop.toError := by
    funext stop
    cases stop with
    | error e => rfl
    | hole reason => exact reason.elim
  rw [evaluate_eq, unfold_ofForest, ← hstop]
  exact Evaluation.evaluate_mapHoles _ forest env

end PrefixLang
