import PrefixLang.Lexeme
import PrefixLang.Proofs.BigStep
import PrefixLang.Proofs.PostOrder
/-!
Running a node table from its first node to its last one, with the values that wait on a stack.
`forward_run_is_evaluation` says that the table of a source runs so as it is evaluated by following
its numbers, that an error stops it at one node, and that just the assignments in front of that node
are made.
-/

namespace PrefixLang

/-- Later bindings take the place of earlier ones. -/
def Environment.overwrite (env : Environment) (bindings : List (Name × Value)) : Environment :=
  bindings.foldl (fun env binding => env.define binding.1 binding.2) env

namespace Environment

variable {env : Environment}

theorem overwrite_append (bindings more : List (Name × Value)) :
    env.overwrite (bindings ++ more) = (env.overwrite bindings).overwrite more :=
  List.foldl_append

theorem lookup_overwrite {bindings : List (Name × Value)} {x : Name}
    (h : x ∉ bindings.map Prod.fst) : (env.overwrite bindings).lookup x = env.lookup x := by
  induction bindings generalizing env with
  | nil => rfl
  | cons binding rest ih =>
    rw [List.map_cons, List.mem_cons, not_or] at h
    have hrest : (env.overwrite (binding :: rest)).lookup x = _ := ih h.2
    rw [hrest, lookup_define, if_neg (Ne.symm h.1)]

end Environment

def NodeKind.assigned? : NodeKind → Option Name
  | assign x _ => some x
  | _ => none

/-- The names that the assignments among the first nodes bind, in the order of the table. -/
def Program.assigned (p : Program) (m : ℕ) : List Name :=
  (p.nodes.toList.take m).filterMap fun node => node.kind.assigned?

namespace Forward

open Program (spanAt spanAt_root)

/-- What is held between two nodes: the values that wait, the last one first, what statements have
shown, and the bindings. -/
structure State where
  stack : List Value
  shown : List Output
  env : Environment

inductive Halt where
  | error (e : EvalError)
  | underflow

structure Stopped where
  why : Halt
  env : Environment

/-- The value of a node, and what is left when it has taken its operands from the stack. -/
def compute (names : NameTable) (p : Program) (node : Node) (s : State) :
    Except Halt (Value × State) :=
  match node.kind, s.stack with
  | .number v, _ => .ok (.number v, s)
  | .string t, _ => .ok (.string (names.lookup t), s)
  | .identifier x, _ =>
    match s.env.lookup x with
    | some v => .ok (v, s)
    | none => .error (.error ⟨.undefinedIdentifier (names.lookup x), node.span⟩)
  | .assign x _, v :: stack => .ok (.empty, { s with stack, env := s.env.define x v })
  | .print _, v :: stack | .wrap _ _, v :: stack => .ok (v, { s with stack })
  | .binary op l r, w :: v :: stack =>
    match op.apply v w with
    | .ok result => .ok (result, { s with stack })
    | .error e => .error (.error (Evaluation.atOperand (spanAt p.nodes l) (spanAt p.nodes r) e))
  | _, _ => .error .underflow

def output : NodeKind → Value → Output
  | .print _, v => .keyword "print" v
  | .wrap w _, v => .keyword w.word v
  | _, v => .ofValue v

/-- The value of a statement is shown; any other waits on the stack. -/
def leave (p : Program) (i : ℕ) (output : Output) (v : Value) (s : State) : State :=
  if i ∈ p.body then { s with shown := s.shown ++ [output] } else { s with stack := v :: s.stack }

/-- Passes one node. If that stops the run, the node has bound nothing. -/
def pass (names : NameTable) (p : Program) (s : State) (i : ℕ) : Except Stopped State :=
  match p.nodes[i]? with
  | none => .ok s
  | some node =>
    match compute names p node s with
    | .ok (v, s) => .ok (leave p i (output node.kind v) v s)
    | .error why => .error ⟨why, s.env⟩

/-- The state in front of node `m`, when the nodes before it have been passed in order. -/
def reach (names : NameTable) (p : Program) (env : Environment) (m : ℕ) : Except Stopped State :=
  (List.range m).foldlM (pass names p) ⟨[], [], env⟩

/-- The run gets as far as node `m` and stops there. -/
def StopsAt (names : NameTable) (p : Program) (env : Environment) (m : ℕ) (stopped : Stopped) :
    Prop := ∃ s, reach names p env m = .ok s ∧ pass names p s m = .error stopped

def binding? : NodeKind → List Value → Option (Name × Value)
  | .assign x _, v :: _ => some (x, v)
  | _, _ => none

/-- What the nodes in front of `m` bind, in order. -/
def bindings (names : NameTable) (p : Program) (env : Environment) : ℕ → List (Name × Value)
  | 0 => []
  | m + 1 => bindings names p env m ++ (do
      let node ← p.nodes[m]?
      let s ← (reach names p env m).toOption
      binding? node.kind s.stack).toList

/-- Of the initial bindings, just what the assignments in front of a node bind is overwritten, each
of them once and in the order of the table. -/
structure Overwritten (names : NameTable) (p : Program) (env : Environment) (m : ℕ)
    (final : Environment) : Prop where
  eq_overwrite : final = env.overwrite (bindings names p env m)
  names_eq : (bindings names p env m).map Prod.fst = p.assigned m
  others : ∀ x ∉ p.assigned m, final.lookup x = env.lookup x

variable {names : NameTable} {p : Program} {env : Environment} {base i m n : ℕ}
  {s s' : State} {stopped : Stopped}

theorem env_of_compute {kind : NodeKind} {span : Span} {v : Value}
    (h : compute names p ⟨kind, span⟩ s = .ok (v, s')) :
    s'.env = s.env.overwrite (binding? kind s.stack).toList := by
  obtain ⟨stack, shown, env⟩ := s
  cases kind with
  | number v | string t =>
    cases h
    rfl
  | identifier x =>
    rw [compute] at h
    simp only at h
    split at h
    · cases h
      rfl
    · cases h
  | assign x c | print c | wrap w c =>
    cases stack with
    | nil => cases h
    | cons v stack =>
      cases h
      rfl
  | binary op l r =>
    rcases stack with _ | ⟨w, _ | ⟨v, stack⟩⟩
    · cases h
    · cases h
    · rw [compute] at h
      simp only at h
      split at h
      · cases h
        rfl
      · cases h

theorem env_leave (i : ℕ) (output : Output) (v : Value) (s : State) :
    (leave p i output v s).env = s.env := by
  rw [leave]
  split <;> rfl

theorem env_of_pass {node : Node} (hn : p.nodes[i]? = some node) (h : pass names p s i = .ok s') :
    s'.env = s.env.overwrite (binding? node.kind s.stack).toList := by
  obtain ⟨kind, span⟩ := node
  simp only [pass, hn] at h
  rcases hc : compute names p ⟨kind, span⟩ s with why | ⟨v, t⟩
  · rw [hc] at h
    cases h
  · rw [hc] at h
    cases h
    rw [env_leave, env_of_compute hc]

theorem assigned_of_pass {node : Node} (hn : p.nodes[i]? = some node)
    (h : pass names p s i = .ok s') :
    (binding? node.kind s.stack).map Prod.fst = node.kind.assigned? := by
  obtain ⟨kind, span⟩ := node
  obtain ⟨stack, shown, env⟩ := s
  simp only [pass, hn] at h
  cases kind with
  | assign x c =>
    cases stack with
    | nil => cases h
    | cons v stack => rfl
  | _ => rfl

theorem env_of_stop (h : pass names p s i = .error stopped) : stopped.env = s.env := by
  rcases hn : p.nodes[i]? with _ | node
  · simp only [pass, hn] at h
    cases h
  · simp only [pass, hn] at h
    split at h
    · cases h
    · cases h
      rfl

theorem reach_succ (names : NameTable) (p : Program) (env : Environment) (m : ℕ) :
    reach names p env (m + 1) = reach names p env m >>= fun s => pass names p s m := by
  rw [reach, List.range_succ, List.foldlM_append]
  simp [reach]

theorem reach_of_le (h : reach names p env n = .ok s) (hle : m ≤ n) :
    ∃ t, reach names p env m = .ok t := by
  induction n generalizing s with
  | zero =>
    obtain rfl := Nat.le_zero.1 hle
    exact ⟨s, h⟩
  | succ n ih =>
    by_cases hm : m = n + 1
    · exact ⟨s, hm ▸ h⟩
    · rw [reach_succ] at h
      rcases ht : reach names p env n with stopped | t
      · rw [ht] at h
        cases h
      · exact ih ht (by omega)

theorem exists_stopsAt (h : reach names p env n = .error stopped) :
    ∃ m < n, StopsAt names p env m stopped := by
  induction n with
  | zero => cases h
  | succ n ih =>
    rcases ht : reach names p env n with before | t
    · rw [reach_succ, ht] at h
      cases h
      obtain ⟨m, hm, hstops⟩ := ih ht
      exact ⟨m, Nat.lt_succ_of_lt hm, hstops⟩
    · rw [reach_succ, ht] at h
      exact ⟨n, Nat.lt_succ_self n, t, ht, h⟩

theorem StopsAt.not_lt {other : Stopped} (h : StopsAt names p env m stopped)
    (k : StopsAt names p env n other) : ¬m < n := by
  intro hlt
  obtain ⟨s, hs, hpass⟩ := h
  obtain ⟨t, ht, -⟩ := k
  obtain ⟨u, hu⟩ := reach_of_le ht (Nat.succ_le_of_lt hlt)
  rw [reach_succ, hs] at hu
  cases hpass.symm.trans hu

theorem StopsAt.unique {other : Stopped} (h : StopsAt names p env m stopped)
    (k : StopsAt names p env n other) : n = m := by
  have hmn := h.not_lt k
  have hnm := k.not_lt h
  omega

theorem env_of_reach (h : reach names p env m = .ok s) :
    s.env = env.overwrite (bindings names p env m) ∧
      (bindings names p env m).map Prod.fst = p.assigned m := by
  induction m generalizing s with
  | zero =>
    cases h
    exact ⟨rfl, rfl⟩
  | succ m ih =>
    rcases ht : reach names p env m with stopped | t
    · rw [reach_succ, ht] at h
      cases h
    rw [reach_succ, ht] at h
    obtain ⟨hbefore, hnames⟩ := ih ht
    rw [bindings, ht, Environment.overwrite_append, ← hbefore, List.map_append, hnames,
      Program.assigned, Program.assigned, List.take_add_one, List.filterMap_append,
      Array.getElem?_toList]
    rcases hn : p.nodes[m]? with _ | node
    · simp only [bind, Except.bind, pass, hn] at h
      cases h
      exact ⟨rfl, rfl⟩
    · refine ⟨env_of_pass hn h, congrArg _ ?_⟩
      show (binding? node.kind t.stack).toList.map Prod.fst = _
      rw [← Option.toList_map, assigned_of_pass hn h]
      cases hx : node.kind.assigned? <;> simp [hx]

theorem overwritten_of_reach (h : reach names p env m = .ok s) :
    Overwritten names p env m s.env := by
  obtain ⟨henv, hnames⟩ := env_of_reach h
  refine ⟨henv, hnames, ?_⟩
  intro x hx
  rw [henv]
  apply Environment.lookup_overwrite
  rwa [hnames]

theorem StopsAt.overwritten (h : StopsAt names p env m stopped) :
    Overwritten names p env m stopped.env := by
  obtain ⟨s, hreach, hpass⟩ := h
  rw [env_of_stop hpass]
  exact overwritten_of_reach hreach

open Evaluation (Outcome andThen operate value shows)

def deliver {α β : Type} (r : Outcome Empty α) (next : α → Environment → Except Stopped β) :
    Except Stopped β :=
  match r with
  | (.ok v, env) => next v env
  | (.error stop, env) => .error ⟨.error stop.toError, env⟩

theorem deliver_andThen {α β γ : Type} (r : Outcome Empty α)
    (f : α → Environment → Outcome Empty β) (next : β → Environment → Except Stopped γ) :
    deliver (andThen r f) next = deliver r fun v env => deliver (f v env) next := by
  obtain ⟨_ | v, env⟩ := r <;> rfl

theorem deliver_bind {α β γ : Type} (r : Outcome Empty α)
    (f : α → Environment → Except Stopped β) (next : β → Except Stopped γ) :
    deliver r f >>= next = deliver r fun v env => f v env >>= next := by
  obtain ⟨_ | v, env⟩ := r <;> rfl

theorem ok_bind {α β ε : Type} (a : α) (f : α → Except ε β) : (Except.ok a >>= f) = f a := rfl

theorem leave_inner (h : i ∉ p.body) (output : Output) (v : Value) (s : State) :
    leave p i output v s = { s with stack := v :: s.stack } := if_neg h

theorem foldlM_last (names : NameTable) (p : Program) (base n : ℕ) (s : State) :
    (List.range' base (n + 1)).foldlM (pass names p) s =
      (List.range' base n).foldlM (pass names p) s >>= fun s => pass names p s (base + n) := by
  rw [List.range'_concat, Nat.one_mul, List.foldlM_append]
  simp

theorem pass_binary {op : Operator} {l r : NodeId} {span : Span} {v w : Value} {stack : List Value}
    {shown : List Output} (hn : p.nodes[i]? = some ⟨.binary op l r, span⟩) :
    pass names p ⟨w :: v :: stack, shown, env⟩ i =
      deliver (operate op (spanAt p.nodes l) (spanAt p.nodes r) v w, env) fun result env =>
        .ok (leave p i (output (.binary op l r) result) result ⟨stack, shown, env⟩) := by
  rw [pass, hn]
  simp only [compute, operate]
  cases op.apply v w <;> rfl

/-- The stretch of a tree leaves the value of the tree, as its evaluation does. -/
theorem pass_stretch {e : Expr Empty} (h : p.Holds base (Program.layout base e))
    (hinner : ∀ i, base ≤ i → i + 1 < base + e.nodeCount → i ∉ p.body) (s : State) :
    (List.range' base e.nodeCount).foldlM (pass names p) s =
      deliver (value names e s.env) fun v env =>
        .ok (leave p (base + e.nodeCount - 1) (shows e v) v { s with env }) := by
  induction e generalizing base s with
  | number v span | string t span =>
    simp only [Expr.nodeCount, List.range'_one, List.foldlM_cons, List.foldlM_nil, pass, h.node,
      compute, value, deliver, Nat.add_sub_cancel]
    rfl
  | identifier x span =>
    simp only [Expr.nodeCount, List.range'_one, List.foldlM_cons, List.foldlM_nil, pass, h.node,
      compute, value, Nat.add_sub_cancel]
    cases s.env.lookup x <;> rfl
  | assign x e span ih | print e span ih | wrap w e span ih =>
    obtain ⟨htree, hroot⟩ := h.root
    have hpos := e.nodeCount_pos
    simp only [Expr.nodeCount] at hinner
    have hchild : base + e.nodeCount - 1 ∉ p.body := hinner _ (by omega) (by omega)
    have hrun := ih htree (fun i hle hlt => hinner i hle (by omega)) s
    rw [Expr.nodeCount, foldlM_last, hrun, deliver_bind, value]
    simp only [leave_inner hchild, ← Nat.add_assoc, Nat.add_sub_cancel]
    obtain ⟨_ | v, env⟩ := value names e s.env
    · rfl
    · show pass _ _ _ _ = _
      rw [pass, hroot]
      rfl
  | binary op l r span ihl ihr =>
    obtain ⟨hleft, hright, hroot⟩ := h.binary
    have hl := l.nodeCount_pos
    have hr := r.nodeCount_pos
    simp only [Expr.nodeCount] at hinner
    have hlast : base + l.nodeCount - 1 ∉ p.body := hinner _ (by omega) (by omega)
    have hlast' : base + l.nodeCount + r.nodeCount - 1 ∉ p.body := hinner _ (by omega) (by omega)
    have hrunl := ihl hleft (fun i hle hlt => hinner i hle (by omega)) s
    have hrunr := ihr hright fun i hle hlt => hinner i (by omega) (by omega)
    rw [Expr.nodeCount, foldlM_last, ← List.range'_append_1, List.foldlM_append, hrunl,
      deliver_bind, deliver_bind, value, deliver_andThen]
    congr 1
    funext v env
    rw [leave_inner hlast, ok_bind, hrunr, deliver_bind, deliver_andThen]
    congr 1
    funext w env'
    have hsize : base + (l.nodeCount + r.nodeCount) = base + l.nodeCount + r.nodeCount := by omega
    rw [leave_inner hlast', ok_bind, hsize, pass_binary hroot, spanAt_root hleft,
      spanAt_root hright, ← hsize]
    rfl
  | hole reason => exact reason.elim

theorem pass_forest {forest : Forest} {before : List ℕ} (shown : List Output) (env : Environment)
    (h : p.Holds base (Program.layoutAll base forest))
    (hbody : p.body = before ++ Program.roots base forest) (hbefore : ∀ i ∈ before, i < base) :
    (List.range' base (Program.layoutAll base forest).length).foldlM (pass names p)
        ⟨[], shown, env⟩
      = deliver (evaluate names forest env) fun outputs env => .ok ⟨[], shown ++ outputs, env⟩ := by
  induction forest generalizing base before shown env with
  | nil =>
    rw [evaluate, deliver, List.append_nil]
    rfl
  | cons e rest ih =>
    obtain ⟨htree, hrest⟩ := h.append
    rw [Program.length_layout] at hrest
    have hpos := e.nodeCount_pos
    have hinner : ∀ i, base ≤ i → i + 1 < base + e.nodeCount → i ∉ p.body := by
      intro i hle hlt hmem
      rw [hbody, Program.roots, List.mem_append, List.mem_cons] at hmem
      rcases hmem with hmem | hmem | hmem
      · have := hbefore i hmem
        omega
      · omega
      · have := Program.le_of_mem_roots hmem
        omega
    have hroot : base + e.nodeCount - 1 ∈ p.body := by
      rw [hbody]
      exact List.mem_append_right _ List.mem_cons_self
    have hbody' : p.body = (before ++ [base + e.nodeCount - 1])
        ++ Program.roots (base + e.nodeCount) rest := by
      rw [hbody, List.append_assoc]
      rfl
    have hbefore' : ∀ i ∈ before ++ [base + e.nodeCount - 1], i < base + e.nodeCount := by
      intro i hi
      rcases List.mem_append.1 hi with hi | hi
      · have := hbefore i hi
        omega
      · obtain rfl := List.mem_singleton.1 hi
        omega
    rw [Program.layoutAll, List.length_append, Program.length_layout, ← List.range'_append_1,
      List.foldlM_append, pass_stretch htree hinner, deliver_bind, evaluate, deliver_andThen]
    congr 1
    funext v env
    rw [ok_bind, leave, if_pos hroot, ih _ env hrest hbody' hbefore', deliver_andThen]
    simp only [deliver, List.append_assoc, List.singleton_append]

theorem reach_ofForest (names : NameTable) (forest : Forest) (env : Environment) :
    reach names (Program.ofForest forest) env (Program.ofForest forest).nodes.size =
      deliver (evaluate names forest env) fun outputs env => .ok ⟨[], outputs, env⟩ := by
  have hbody : (Program.ofForest forest).body = [] ++ Program.roots 0 forest := rfl
  rw [reach, List.range_eq_range']
  exact pass_forest [] env (Program.holds_ofForest forest) hbody fun i hi => nomatch hi

end Forward

/-- The table of a source runs from its first node to its last one just as it is evaluated: the same
is shown, or the same error stops it, and the same bindings are left. An error comes at one node,
with the assignments in front of that node made; without an error all of them are. -/
theorem forward_run_is_evaluation {tokens : List (Token Name)} {p : Program}
    (h : parseProgram tokens = .ok p) (names : NameTable) (env : Environment) :
    match p.evaluate names env with
    | (.ok outputs, final) =>
      Forward.reach names p env p.nodes.size = .ok ⟨[], outputs, final⟩ ∧
        Forward.Overwritten names p env p.nodes.size final
    | (.error (.error e), final) =>
      Forward.reach names p env p.nodes.size = .error ⟨.error e, final⟩ ∧
        ∃ m < p.nodes.size, Forward.StopsAt names p env m ⟨.error e, final⟩ ∧
          (∀ n stopped, Forward.StopsAt names p env n stopped → n = m) ∧
          Forward.Overwritten names p env m final
    | (.error (.hole _), _) => False := by
  obtain ⟨forest, -, rfl⟩ := exists_forest_of_parseProgram h
  have hreach := Forward.reach_ofForest names forest env
  rw [Program.evaluate_ofForest]
  rcases hforest : evaluate names forest env with ⟨stop | outputs, final⟩
  · rw [hforest] at hreach
    obtain ⟨m, hm, hstops⟩ := Forward.exists_stopsAt hreach
    exact ⟨hreach, m, hm, hstops, fun n stopped h => hstops.unique h, hstops.overwritten⟩
  · rw [hforest] at hreach
    exact ⟨hreach, Forward.overwritten_of_reach hreach⟩

/-- The quotient stops the run, with the assignment in front of it made and the one behind it not.
-/
theorem brokenQuotient_stops_halfway :
    ∃ tokens names p m final,
      lex NameTable.initial "x = 1 / x 0 y = 2" = (.ok tokens, names) ∧
      parseProgram tokens = .ok p ∧ p.nodes.size = 7 ∧
      Forward.reach names p Environment.empty 7
        = .error ⟨.error ⟨.operand .divisionByZero, ⟨10, 11⟩⟩, final⟩ ∧
      Forward.StopsAt names p Environment.empty m
        ⟨.error ⟨.operand .divisionByZero, ⟨10, 11⟩⟩, final⟩ ∧
      Forward.Overwritten names p Environment.empty m final ∧
      final.lookup ⟨6⟩ = some (.number (Binary64.ofNat 1)) ∧ final.lookup ⟨7⟩ = none := by
  have hrun : (do
      let tokens ← (lex NameTable.initial "x = 1 / x 0 y = 2").1.toOption
      let p ← (parseProgram tokens).toOption
      let names := (lex NameTable.initial "x = 1 / x 0 y = 2").2
      let (result, final) := p.evaluate names Environment.empty
      return (p.nodes.size, result, final.lookup ⟨6⟩, final.lookup ⟨7⟩))
      = some (7, .error (.error ⟨.operand .divisionByZero, ⟨10, 11⟩⟩),
        some (.number (Binary64.ofNat 1)), none) := by decide +kernel
  rcases hlex : lex NameTable.initial "x = 1 / x 0 y = 2" with ⟨error | tokens, names⟩
  · rw [hlex] at hrun
    cases hrun
  rcases hparse : parseProgram tokens with error | p
  · simp [hlex, hparse, Except.toOption] at hrun
  simp only [hlex, hparse, Except.toOption, Option.bind_eq_bind, Option.bind_some, Option.pure_def,
    Option.some.injEq, Prod.mk.injEq] at hrun
  obtain ⟨hsize, hresult, hx, hy⟩ := hrun
  have hforward := forward_run_is_evaluation hparse names Environment.empty
  rcases heval : p.evaluate names Environment.empty with ⟨result, final⟩
  rw [heval] at hforward hresult hx hy
  obtain rfl := hresult
  obtain ⟨hreach, m, -, hstops, -, hoverwritten⟩ := hforward
  rw [hsize] at hreach
  exact ⟨tokens, names, p, m, final, rfl, hparse, hsize, hreach, hstops, hoverwritten, hx, hy⟩

end PrefixLang
