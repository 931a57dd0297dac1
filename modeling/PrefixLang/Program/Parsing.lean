import PrefixLang.Forest
import PrefixLang.Program.Layout
/-!
Reading tokens into a node table. A node joins the table as soon as its operands are complete. What
is still open when an operand starts is kept in a list, the innermost first, so the depth of nesting
is not limited. `parseProgram_eq` says that the table is that of the trees that are read by descent.
-/

namespace PrefixLang

namespace Program

/-- Something begun that waits for an expression. -/
inductive Pending where
  | assign (name : Name) (span : Span)
  | print (span : Span)
  | wrap (keyword : Wrapper) (span : Span)
  | paren (span : Span)
  | left (op : Operator) (span : Span)
  | right (op : Operator) (span : Span) (left : NodeId)
  deriving DecidableEq

inductive Progress where
  | statement (nodes : Array Node) (root : NodeId) (rest : List (Token Name))
  | operand (nodes : Array Node) (pending : List Pending) (rest : List (Token Name))

def Progress.rest : Progress → List (Token Name)
  | .statement _ _ rest | .operand _ _ rest => rest

def spanAt (nodes : Array Node) (id : NodeId) : Span :=
  (nodes[id]?.map Node.span).getD Span.nowhere

/-- Adds a node behind all others. Its number has no bound here: a source has no more nodes than
bytes (`Session.size_le_of_readProgram`), so offsets run out before numbers do. -/
def alloc (nodes : Array Node) (kind : NodeKind) (span : Span) : NodeId × Array Node :=
  (nodes.size, nodes.push ⟨kind, span⟩)

def allocFrom (nodes : Array Node) (kind : NodeKind) (first : Span) (last : NodeId) :
    NodeId × Array Node :=
  alloc nodes kind (first.merge (spanAt nodes last))

/-- Hands the number of a complete expression to what waits for it. Parentheses add no node. -/
def complete (stop : Span) (nodes : Array Node) (id : NodeId) :
    List Pending → List (Token Name) → Except ParseError Progress
  | [], rest => .ok (.statement nodes id rest)
  | .assign x s :: outer, rest =>
    let (root, nodes) := allocFrom nodes (.assign x id) s id
    complete stop nodes root outer rest
  | .print s :: outer, rest =>
    let (root, nodes) := allocFrom nodes (.print id) s id
    complete stop nodes root outer rest
  | .wrap w s :: outer, rest =>
    let (root, nodes) := allocFrom nodes (.wrap w id) s id
    complete stop nodes root outer rest
  | .left op s :: outer, rest => .ok (.operand nodes (.right op s id :: outer) rest)
  | .right op s l :: outer, rest =>
    let (root, nodes) := allocFrom nodes (.binary op l id) s id
    complete stop nodes root outer rest
  | .paren s :: _, [] => .error (Forest.unclosed s ⟨.endOfInput, stop⟩)
  | .paren s :: outer, token :: rest =>
    if token.kind = .rightParen then complete stop nodes id outer rest
    else .error (Forest.unclosed s token)

def completeLeaf (stop : Span) (nodes : Array Node) (kind : NodeKind) (span : Span)
    (pending : List Pending) (rest : List (Token Name)) : Except ParseError Progress :=
  let (id, nodes) := alloc nodes kind span
  complete stop nodes id pending rest

def start (stop : Span) (nodes : Array Node) (pending : List Pending) (token : Token Name)
    (rest : List (Token Name)) : Except ParseError Progress :=
  let span := token.span
  match token.kind with
  | .number v => completeLeaf stop nodes (.number v) span pending rest
  | .string s => completeLeaf stop nodes (.string s) span pending rest
  | .identifier x =>
    match rest with
    | ⟨.equals, _⟩ :: rest => .ok (.operand nodes (.assign x span :: pending) rest)
    | rest => completeLeaf stop nodes (.identifier x) span pending rest
  | .printWord => .ok (.operand nodes (.print span :: pending) rest)
  | .wrapper w => .ok (.operand nodes (.wrap w span :: pending) rest)
  | .leftParen => .ok (.operand nodes (.paren span :: pending) rest)
  | .operator op => .ok (.operand nodes (.left op span :: pending) rest)
  | .letWord | .arrow => .error ⟨.reservedToken token.kind.displayName, span⟩
  | .equals | .rightParen => .error ⟨.unexpectedToken token.kind.displayName, span⟩
  | .endOfInput => .error ⟨.unexpectedEnd, span⟩

variable {stop s : Span} {nodes : Array Node} {id : NodeId} {pending : List Pending}
  {rest : List (Token Name)} {progress : Progress} {e : Expr Empty}

theorem length_le_of_complete (h : complete stop nodes id pending rest = .ok progress) :
    progress.rest.length ≤ rest.length := by
  fun_induction complete stop nodes id pending rest with
  | case1 => cases h; exact Nat.le_refl _
  | case2 _ _ _ _ _ _ _ _ _ ih | case3 _ _ _ _ _ _ _ _ ih | case4 _ _ _ _ _ _ _ _ _ ih
  | case6 _ _ _ _ _ _ _ _ _ _ ih => exact ih h
  | case5 => cases h; exact Nat.le_refl _
  | case7 => cases h
  | case8 _ _ _ _ _ _ _ ih => have := ih h; simp; omega
  | case9 => cases h

theorem length_le_of_start {token : Token Name}
    (h : start stop nodes pending token rest = .ok progress) :
    progress.rest.length ≤ rest.length := by
  unfold start at h
  split at h
  case h_3 =>
    split at h
    · cases h; simp [Progress.rest]
    · exact length_le_of_complete h
  all_goals first
    | exact length_le_of_complete h
    | (cases h; done)
    | (cases h; exact Nat.le_refl _)

/-- Reads the tokens `ahead`, with `pending` still open and the statements of `body` behind. -/
def readFrom (stop : Span) (nodes : Array Node) (body : Array NodeId) (pending : List Pending)
    (ahead : List (Token Name)) : Except ParseError Program :=
  match ahead with
  | [] => if pending.isEmpty then .ok ⟨nodes, body.toList⟩ else .error ⟨.unexpectedEnd, stop⟩
  | token :: rest =>
    match _progress : start stop nodes pending token rest with
    | .error e => .error e
    | .ok (.statement nodes root rest) => readFrom stop nodes (body.push root) [] rest
    | .ok (.operand nodes pending rest) => readFrom stop nodes body pending rest
termination_by ahead.length
decreasing_by
  · exact Nat.lt_succ_of_le (length_le_of_start _progress)
  · exact Nat.lt_succ_of_le (length_le_of_start _progress)

end Program

def parseProgram (tokens : List (Token Name)) : Except ParseError Program :=
  let cursor := Cursor.ofTokens tokens
  Program.readFrom cursor.stop #[] #[] [] cursor.ahead

namespace Program

open Forest (NoAssignment node refusal? statements)

variable {stop s : Span} {base : Nat} {nodes : Array Node} {body : Array NodeId} {id : NodeId}
  {pending : List Pending} {rest : List (Token Name)} {progress : Progress} {e : Expr Empty}

theorem spanAt_root {p : Program} (h : p.Holds base (layout base e)) :
    spanAt p.nodes (base + e.nodeCount - 1) = e.span := by
  cases e with
  | number v s | string t s | identifier x s =>
    rw [Expr.nodeCount, Nat.add_sub_cancel, spanAt, h.node]
    rfl
  | assign x e s | print e s | wrap w e s =>
    obtain ⟨-, hroot⟩ := h.root
    rw [Expr.nodeCount, ← Nat.add_assoc, Nat.add_sub_cancel, spanAt, hroot]
    rfl
  | binary op l r s =>
    obtain ⟨-, -, hroot⟩ := h.binary
    rw [Expr.nodeCount, ← Nat.add_assoc, ← Nat.add_assoc, Nat.add_sub_cancel, spanAt, hroot]
    rfl
  | hole reason => exact reason.elim

def add (nodes : Array Node) (e : Expr Empty) : Array Node :=
  nodes ++ (layout nodes.size e).toArray

def rootOf (nodes : Array Node) (e : Expr Empty) : NodeId := nodes.size + e.nodeCount - 1

@[simp] theorem size_add (nodes : Array Node) (e : Expr Empty) :
    (add nodes e).size = nodes.size + e.nodeCount := by
  simp [add]

theorem spanAt_add (nodes : Array Node) (e : Expr Empty) :
    spanAt (add nodes e) (rootOf nodes e) = e.span := by
  have hholds : (⟨add nodes e, []⟩ : Program).Holds nodes.size (layout nodes.size e) := by
    simp [Holds, add]
  exact spanAt_root hholds

theorem allocFrom_add (kind : NodeKind) (t : Expr Empty)
    (h : layout nodes.size t = layout nodes.size e ++ [⟨kind, s.merge e.span⟩]) :
    allocFrom (add nodes e) kind s (rootOf nodes e) = (rootOf nodes t, add nodes t) := by
  have hcount := congrArg List.length h
  rw [List.length_append, length_layout, length_layout, List.length_singleton] at hcount
  rw [allocFrom, spanAt_add, alloc, size_add, rootOf, hcount, add, add, h]
  simp

theorem allocFrom_add_binary (op : Operator) (l r : Expr Empty) :
    allocFrom (add (add nodes l) r) (.binary op (rootOf nodes l) (rootOf (add nodes l) r)) s
        (rootOf (add nodes l) r)
      = (rootOf nodes (.binary op l r (s.merge r.span)),
        add nodes (.binary op l r (s.merge r.span))) := by
  rw [allocFrom, spanAt_add, alloc]
  simp only [rootOf, size_add, Expr.nodeCount, Prod.mk.injEq]
  constructor
  · rw [← Nat.add_assoc, ← Nat.add_assoc, Nat.add_sub_cancel]
  · simp [add, layout]

def resume (stop : Span) (body : Array NodeId) :
    Except ParseError Progress → Except ParseError Program
  | .error e => .error e
  | .ok (.statement nodes root rest) => readFrom stop nodes (body.push root) [] rest
  | .ok (.operand nodes pending rest) => readFrom stop nodes body pending rest

theorem readFrom_cons (nodes : Array Node) (body : Array NodeId) (pending : List Pending)
    (token : Token Name) (rest : List (Token Name)) :
    readFrom stop nodes body pending (token :: rest)
      = resume stop body (start stop nodes pending token rest) := by
  rw [readFrom]
  split <;> simp [resume, *]

theorem start_identifier (nodes : Array Node) (pending : List Pending) (x : Name)
    (h : NoAssignment rest) :
    start stop nodes pending ⟨.identifier x, s⟩ rest
      = completeLeaf stop nodes (.identifier x) s pending rest := by
  simp only [start]
  split
  · simp [NoAssignment] at h
  · rfl

theorem start_refused {token : Token Name} {kind : ParseErrorKind}
    (h : refusal? token.kind = some kind) :
    start stop nodes pending token rest = .error ⟨kind, token.span⟩ := by
  obtain ⟨k, s⟩ := token
  cases k <;> simp only [refusal?, Option.some.injEq, reduceCtorEq] at h <;> subst h <;> rfl

/-- What waits for one operand and then joins the table itself is read as a tree around it. -/
theorem readFrom_unary {token : Token Name} {ahead : List (Token Name)} {waits : Pending}
    (tree : Expr Empty → Expr Empty) (j : Nat)
    (hstart : start stop nodes pending token ahead = .ok (.operand nodes (waits :: pending) rest))
    (hcomplete : ∀ e more, complete stop (add nodes e) (rootOf nodes e) (waits :: pending) more
      = complete stop (add nodes (tree e)) (rootOf nodes (tree e)) pending more)
    (hread : readFrom stop nodes body (waits :: pending) rest = (do
      let (e, k) ← node stop rest
      resume stop body
        (complete stop (add nodes e) (rootOf nodes e) (waits :: pending) (rest.drop k))))
    (hdrop : ∀ k, (token :: ahead).drop (k + j) = rest.drop k) :
    readFrom stop nodes body pending (token :: ahead) = (do
      let (e, k) ← (do
        let (e, k) ← node stop rest
        return (tree e, k + j))
      resume stop body
        (complete stop (add nodes e) (rootOf nodes e) pending ((token :: ahead).drop k))) := by
  rw [readFrom_cons, hstart, resume, hread]
  rcases node stop rest with error | ⟨e, k⟩
  · rfl
  · simp only [bind, Except.bind, pure, Except.pure, hcomplete, hdrop]

/-- An expression leaves its nodes behind those that are there. What is open never matters to how it
is read, only to what becomes of it. -/
theorem readFrom_eq_node {ahead : List (Token Name)} (nodes : Array Node) (body : Array NodeId)
    (pending : List Pending) (h : ahead ≠ [] ∨ pending ≠ []) :
    readFrom stop nodes body pending ahead = (do
      let (e, k) ← node stop ahead
      resume stop body (complete stop (add nodes e) (rootOf nodes e) pending (ahead.drop k))) := by
  -- For any `pending`, since an operand is read with its operator open as well.
  induction ahead using Forest.node_induction generalizing nodes pending with
  | nil =>
    have hp : pending ≠ [] := h.resolve_left (fun h => h rfl)
    simp only [readFrom, List.isEmpty_iff, hp, ↓reduceIte, Forest.node_nil]
    rfl
  | number v s rest => rw [readFrom_cons, Forest.node_number]; rfl
  | string t s rest => rw [readFrom_cons, Forest.node_string]; rfl
  | identifier x s rest hn =>
    rw [readFrom_cons, start_identifier _ _ _ hn, Forest.node_identifier x hn]; rfl
  | assign x s t rest ih =>
    rw [Forest.node_assign]
    refine readFrom_unary (fun e => .assign x e (s.merge e.span)) 2 rfl (fun e more => ?_)
      (ih _ _ (.inr (List.cons_ne_nil _ _))) fun k => rfl
    rw [complete, allocFrom_add (.assign x (rootOf nodes e)) (.assign x e (s.merge e.span)) rfl]
  | print s rest ih =>
    rw [Forest.node_print]
    refine readFrom_unary (fun e => .print e (s.merge e.span)) 1 rfl (fun e more => ?_)
      (ih _ _ (.inr (List.cons_ne_nil _ _))) fun k => rfl
    rw [complete, allocFrom_add (.print (rootOf nodes e)) (.print e (s.merge e.span)) rfl]
  | wrap w s rest ih =>
    rw [Forest.node_wrap]
    refine readFrom_unary (fun e => .wrap w e (s.merge e.span)) 1 rfl (fun e more => ?_)
      (ih _ _ (.inr (List.cons_ne_nil _ _))) fun k => rfl
    rw [complete, allocFrom_add (.wrap w (rootOf nodes e)) (.wrap w e (s.merge e.span)) rfl]
  | paren s rest ih =>
    rw [readFrom_cons, Forest.node_paren]
    simp only [start, resume]
    rw [ih _ _ (.inr (List.cons_ne_nil _ _))]
    rcases node stop rest with e | ⟨e, k⟩
    · rfl
    rcases hd : rest.drop k with _ | ⟨close, more⟩
    · simp [bind, Except.bind, complete, hd, resume]
    by_cases hc : close.kind = .rightParen
    · have hm : (⟨.leftParen, s⟩ :: rest).drop (k + 2) = more := by
        rw [List.drop_succ_cons, ← List.tail_drop, hd, List.tail_cons]
      simp only [bind, Except.bind, pure, Except.pure, complete, hd, hc, hm, ↓reduceIte]
      rfl
    · simp [bind, Except.bind, complete, hd, hc, resume]
  | binary op s rest ihl ihr =>
    rw [readFrom_cons, Forest.node_binary]
    simp only [start, resume]
    rw [ihl _ _ (.inr (List.cons_ne_nil _ _))]
    rcases node stop rest with e | ⟨l, j⟩
    · rfl
    simp only [bind, Except.bind, complete, resume]
    rw [ihr j _ _ (.inr (List.cons_ne_nil _ _))]
    rcases node stop (rest.drop j) with e | ⟨r, k⟩
    · rfl
    simp only [bind, Except.bind, pure, Except.pure, complete, allocFrom_add_binary, List.drop_drop,
      List.drop_succ_cons]
    rfl
  | refused token rest kind hr => rw [readFrom_cons, start_refused hr, Forest.node_refused hr]; rfl

theorem readFrom_eq_statements (nodes : Array Node) (body : Array NodeId)
    (ahead : List (Token Name)) :
    readFrom stop nodes body [] ahead = (statements stop ahead).map fun forest =>
      ⟨nodes ++ (layoutAll nodes.size forest).toArray, body.toList ++ roots nodes.size forest⟩ := by
  induction ahead using Forest.statements_induction generalizing nodes body with
  | nil => simp [readFrom, statements, Except.map, layoutAll, roots]
  | cons token rest ih =>
    rw [readFrom_eq_node _ _ _ (.inl (List.cons_ne_nil _ _)), Forest.statements_cons]
    rcases h : node stop (token :: rest) with e | ⟨e, k⟩
    · rfl
    simp only [bind, Except.bind, complete, resume]
    rw [ih k (Forest.node_pos h)]
    rcases statements stop ((token :: rest).drop k) with e | more
    · rfl
    · simp [Except.map, pure, Except.pure, layoutAll, roots, add, rootOf]

end Program

/-- A table is filled while tokens are read just as it would be from the trees. -/
theorem parseProgram_eq (tokens : List (Token Name)) :
    parseProgram tokens = (parse tokens).map Program.ofForest := by
  have htable : (fun forest => (⟨#[] ++ (Program.layoutAll 0 forest).toArray,
      [] ++ Program.roots 0 forest⟩ : Program)) = Program.ofForest := by
    funext forest
    simp [Program.ofForest]
  rw [parseProgram, parse, ← htable]
  exact Program.readFrom_eq_statements #[] #[] _

theorem exists_forest_of_parseProgram {tokens : List (Token Name)} {p : Program}
    (h : parseProgram tokens = .ok p) : ∃ forest, parse tokens = .ok forest ∧
      p = Program.ofForest forest := by
  rw [parseProgram_eq] at h
  rcases hparse : parse tokens with error | forest
  · rw [hparse] at h
    cases h
  · rw [hparse] at h
    exact ⟨forest, rfl, (Except.ok.inj h).symm⟩

end PrefixLang
