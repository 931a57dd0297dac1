import PrefixLang.Cursor
import PrefixLang.Expr
/-!
Reading tokens into trees, by descent. Every operator stands before its two operands, so one token,
or two for an assignment, decides how an expression goes on.
-/

namespace PrefixLang

/-- Why no expression can be read. What was found instead is given as messages call it. -/
inductive ParseErrorKind where
  | unexpectedToken (found : String)
  | unexpectedEnd
  | unclosedParen (found : String) (foundSpan : Span)
  | reservedToken (found : String)
  deriving DecidableEq, Repr

structure ParseError where
  kind : ParseErrorKind
  span : Span
  deriving DecidableEq, Repr

namespace Forest

def unclosed (paren : Span) (found : Token Name) : ParseError :=
  ⟨.unclosedParen found.kind.displayName found.span, paren⟩

/-- Reads one expression: its tree, and how many tokens it takes. Parentheses leave no trace in the
tree. -/
def node (stop : Span) (ahead : List (Token Name)) : Except ParseError (Expr Empty × Nat) :=
  match ahead with
  | [] => .error ⟨.unexpectedEnd, stop⟩
  | token :: rest =>
    let span := token.span
    match token.kind with
    | .number v => .ok (.number v span, 1)
    | .string s => .ok (.string s span, 1)
    | .identifier x =>
      match rest with
      | ⟨.equals, _⟩ :: rest => do
        let (e, k) ← node stop rest
        return (.assign x e (span.merge e.span), k + 2)
      | _ => .ok (.identifier x span, 1)
    | .printWord => do
      let (e, k) ← node stop rest
      return (.print e (span.merge e.span), k + 1)
    | .wrapper w => do
      let (e, k) ← node stop rest
      return (.wrap w e (span.merge e.span), k + 1)
    | .leftParen => do
      let (e, k) ← node stop rest
      match rest.drop k with
      | [] => .error (unclosed span ⟨.endOfInput, stop⟩)
      | close :: _ =>
        if close.kind = .rightParen then return (e, k + 2) else .error (unclosed span close)
    | .operator op => do
      let (l, j) ← node stop rest
      let (r, k) ← node stop (rest.drop j)
      return (.binary op l r (span.merge r.span), j + k + 1)
    | .letWord | .arrow => .error ⟨.reservedToken token.kind.displayName, span⟩
    | .equals | .rightParen => .error ⟨.unexpectedToken token.kind.displayName, span⟩
    | .endOfInput => .error ⟨.unexpectedEnd, span⟩
termination_by ahead.length
decreasing_by all_goals simp only [List.length_cons, List.length_drop]; omega

def statements (stop : Span) (ahead : List (Token Name)) : Except ParseError Forest :=
  match ahead with
  | [] => .ok []
  | token :: rest => do
    let (e, k) ← node stop (token :: rest)
    let more ← statements stop (rest.drop (k - 1))
    return e :: more
termination_by ahead.length
decreasing_by simp only [List.length_cons, List.length_drop]; omega

/-- Whether an identifier in front of these tokens stands for its value. -/
def NoAssignment (rest : List (Token Name)) : Prop := rest.head?.map Token.kind ≠ some .equals

def refusal? : TokenKind Name → Option ParseErrorKind
  | .letWord => some (.reservedToken (TokenKind.letWord : TokenKind Name).displayName)
  | .arrow => some (.reservedToken (TokenKind.arrow : TokenKind Name).displayName)
  | .equals => some (.unexpectedToken (TokenKind.equals : TokenKind Name).displayName)
  | .rightParen => some (.unexpectedToken (TokenKind.rightParen : TokenKind Name).displayName)
  | .endOfInput => some .unexpectedEnd
  | _ => none

variable {stop s : Span} {rest : List (Token Name)}

theorem node_nil : node stop [] = .error ⟨.unexpectedEnd, stop⟩ := by rw [node]

theorem node_number (v : Binary64) :
    node stop (⟨.number v, s⟩ :: rest) = .ok (.number v s, 1) := by rw [node]

theorem node_string (t : Name) :
    node stop (⟨.string t, s⟩ :: rest) = .ok (.string t s, 1) := by rw [node]

theorem node_identifier (x : Name) (h : NoAssignment rest) :
    node stop (⟨.identifier x, s⟩ :: rest) = .ok (.identifier x s, 1) := by
  rw [node]
  simp only
  split
  · simp [NoAssignment] at h
  · rfl

theorem node_assign (x : Name) (t : Span) :
    node stop (⟨.identifier x, s⟩ :: ⟨.equals, t⟩ :: rest) = (do
      let (e, k) ← node stop rest
      return (.assign x e (s.merge e.span), k + 2)) := by rw [node]

theorem node_print :
    node stop (⟨.printWord, s⟩ :: rest) = (do
      let (e, k) ← node stop rest
      return (.print e (s.merge e.span), k + 1)) := by rw [node]

theorem node_wrap (w : Wrapper) :
    node stop (⟨.wrapper w, s⟩ :: rest) = (do
      let (e, k) ← node stop rest
      return (.wrap w e (s.merge e.span), k + 1)) := by rw [node]

theorem node_paren :
    node stop (⟨.leftParen, s⟩ :: rest) = (do
      let (e, k) ← node stop rest
      match rest.drop k with
      | [] => .error (unclosed s ⟨.endOfInput, stop⟩)
      | close :: _ =>
        if close.kind = .rightParen then return (e, k + 2) else .error (unclosed s close)) := by
  rw [node]

theorem node_binary (op : Operator) :
    node stop (⟨.operator op, s⟩ :: rest) = (do
      let (l, j) ← node stop rest
      let (r, k) ← node stop (rest.drop j)
      return (.binary op l r (s.merge r.span), j + k + 1)) := by rw [node]

theorem node_refused {token : Token Name} {kind : ParseErrorKind}
    (h : refusal? token.kind = some kind) :
    node stop (token :: rest) = .error ⟨kind, token.span⟩ := by
  obtain ⟨k, s⟩ := token
  cases k <;> simp only [refusal?, Option.some.injEq, reduceCtorEq] at h <;> subst h <;> rw [node]

@[elab_as_elim]
theorem node_induction {motive : List (Token Name) → Prop} (nil : motive [])
    (number : ∀ v s rest, motive (⟨.number v, s⟩ :: rest))
    (string : ∀ t s rest, motive (⟨.string t, s⟩ :: rest))
    (identifier : ∀ x s rest, NoAssignment rest → motive (⟨.identifier x, s⟩ :: rest))
    (assign : ∀ x s t rest, motive rest → motive (⟨.identifier x, s⟩ :: ⟨.equals, t⟩ :: rest))
    (print : ∀ s rest, motive rest → motive (⟨.printWord, s⟩ :: rest))
    (wrap : ∀ w s rest, motive rest → motive (⟨.wrapper w, s⟩ :: rest))
    (paren : ∀ s rest, motive rest → motive (⟨.leftParen, s⟩ :: rest))
    (binary : ∀ op s rest, motive rest → (∀ j, motive (rest.drop j)) →
      motive (⟨.operator op, s⟩ :: rest))
    (refused : ∀ token rest kind, refusal? token.kind = some kind → motive (token :: rest))
    (ahead : List (Token Name)) : motive ahead := by
  induction ahead using node.induct with
  | case1 => exact nil
  | case2 token rest v hk => obtain ⟨_, s⟩ := token; subst hk; exact number v s rest
  | case3 token rest t hk => obtain ⟨_, s⟩ := token; subst hk; exact string t s rest
  | case4 token x hk t rest ih => obtain ⟨_, s⟩ := token; subst hk; exact assign x s t rest ih
  | case5 token x hk rest hne =>
    obtain ⟨_, s⟩ := token
    subst hk
    refine identifier x s rest fun h => ?_
    obtain ⟨⟨k, t⟩, hd, rfl⟩ := Option.map_eq_some_iff.1 h
    obtain ⟨more, rfl⟩ := List.head?_eq_some_iff.1 hd
    exact hne t more rfl
  | case6 token rest hk ih => obtain ⟨_, s⟩ := token; subst hk; exact print s rest ih
  | case7 token rest w hk ih => obtain ⟨_, s⟩ := token; subst hk; exact wrap w s rest ih
  | case8 token rest hk ih => obtain ⟨_, s⟩ := token; subst hk; exact paren s rest ih
  | case9 token rest op hk ihl ihr =>
    obtain ⟨_, s⟩ := token; subst hk; exact binary op s rest ihl ihr
  | case10 token rest hk | case11 token rest hk | case12 token rest hk | case13 token rest hk
  | case14 token rest hk => exact refused token rest _ (by rw [hk]; rfl)

theorem ok_of_bind {ε α β : Type} {x : Except ε α} {f : α → Except ε β} {b : β}
    (h : x >>= f = .ok b) : ∃ a, x = .ok a ∧ f a = .ok b := by
  cases x with
  | error e => cases h
  | ok a => exact ⟨a, rfl, h⟩

theorem node_pos {ahead : List (Token Name)} {e : Expr Empty} {k : Nat}
    (h : node stop ahead = .ok (e, k)) : 0 < k := by
  cases ahead using node_induction with
  | nil => rw [node_nil] at h; cases h
  | number v s rest => rw [node_number] at h; cases h; exact Nat.one_pos
  | string t s rest => rw [node_string] at h; cases h; exact Nat.one_pos
  | identifier x s rest hn => rw [node_identifier x hn] at h; cases h; exact Nat.one_pos
  | assign x s t rest _ =>
    rw [node_assign] at h
    obtain ⟨_, -, h⟩ := ok_of_bind h
    cases h
    exact Nat.succ_pos _
  | print s rest _ =>
    rw [node_print] at h
    obtain ⟨_, -, h⟩ := ok_of_bind h
    cases h
    exact Nat.succ_pos _
  | wrap w s rest _ =>
    rw [node_wrap] at h
    obtain ⟨_, -, h⟩ := ok_of_bind h
    cases h
    exact Nat.succ_pos _
  | paren s rest _ =>
    rw [node_paren] at h
    obtain ⟨⟨e, j⟩, -, h⟩ := ok_of_bind h
    simp only at h
    split at h
    · cases h
    · split at h
      · cases h
        exact Nat.succ_pos _
      · cases h
  | binary op s rest _ _ =>
    rw [node_binary] at h
    obtain ⟨_, -, h⟩ := ok_of_bind h
    obtain ⟨_, -, h⟩ := ok_of_bind h
    cases h
    exact Nat.succ_pos _
  | refused token rest kind hr => rw [node_refused hr] at h; cases h

theorem statements_cons (token : Token Name) :
    statements stop (token :: rest) = (do
      let (e, k) ← node stop (token :: rest)
      let more ← statements stop ((token :: rest).drop k)
      return e :: more) := by
  rw [statements]
  rcases h : node stop (token :: rest) with e | ⟨e, k⟩
  · rfl
  obtain ⟨j, rfl⟩ := Nat.exists_eq_add_of_lt (node_pos h)
  rw [Nat.zero_add]
  rfl

@[elab_as_elim]
theorem statements_induction {motive : List (Token Name) → Prop} (nil : motive [])
    (cons : ∀ token rest, (∀ k, 0 < k → motive ((token :: rest).drop k)) → motive (token :: rest))
    (ahead : List (Token Name)) : motive ahead := by
  induction hl : ahead.length using Nat.strongRecOn generalizing ahead with
  | ind n ih =>
    rcases ahead with _ | ⟨token, rest⟩
    · exact nil
    · apply cons
      intro k hk
      have hlt : ((token :: rest).drop k).length < n := by
        rw [List.length_drop]
        simp at hl ⊢
        omega
      exact ih _ hlt _ rfl

end Forest

def parse (tokens : List (Token Name)) : Except ParseError Forest :=
  Forest.statements (Cursor.ofTokens tokens).stop (Cursor.ofTokens tokens).ahead

end PrefixLang
