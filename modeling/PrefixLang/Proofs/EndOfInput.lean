import PrefixLang.Proofs.Parsing
import Mathlib.Logic.Function.Iterate
/-!
Reading any list of tokens, where ends of input may be missing, stand in the middle or come more
than once. A `Cursor` is made without what stands behind the first end. A bookmark drops nothing,
and only the token under it can stop a reading. Still every reading comes to a result, none gets
past the first end, and the result is that of `parse`: `reading_stops_at_the_first_end`.
-/

namespace PrefixLang

theorem TokenKind.isEnd_iff {τ : Type} {kind : TokenKind τ} :
    kind.isEnd = true ↔ kind = .endOfInput := by
  cases kind <;> simp [isEnd]

theorem Cursor.ofTokens_cons_end {t : Token Name} (h : t.kind = .endOfInput)
    (rest : List (Token Name)) : ofTokens (t :: rest) = ⟨[], t.span⟩ := by
  have hend : t.kind.isEnd = true := TokenKind.isEnd_iff.2 h
  simp [ofTokens, hend]

theorem Cursor.ofTokens_cons {t : Token Name} (h : t.kind ≠ .endOfInput)
    (rest : List (Token Name)) :
    ofTokens (t :: rest) = ⟨t :: (ofTokens rest).ahead, (ofTokens rest).stop⟩ := by
  have hkeep : t.kind.isEnd = false := by rwa [← Bool.not_eq_true, TokenKind.isEnd_iff]
  simp [ofTokens, hkeep]

theorem Cursor.ofTokens_of_no_end {tokens : List (Token Name)}
    (h : ∀ t ∈ tokens, t.kind ≠ .endOfInput) : ofTokens tokens = ⟨tokens, Span.nowhere⟩ := by
  induction tokens with
  | nil => rfl
  | cons t rest ih =>
    rw [List.forall_mem_cons] at h
    rw [ofTokens_cons h.1, ih h.2]

/-- A list of tokens, and how many of them have been read. -/
structure Bookmark where
  tokens : List (Token Name)
  position : ℕ

namespace Bookmark

open Forest

/-- Behind the last token stands an end of input without a place of its own. -/
def current (b : Bookmark) : Token Name :=
  b.tokens[b.position]?.getD ⟨.endOfInput, Span.nowhere⟩

/-- Moves behind the current token, unless that is an end of input. -/
def advance (b : Bookmark) : Bookmark :=
  if b.current.kind = .endOfInput then b else { b with position := b.position + 1 }

/-- One reading of an expression: the bookmark it starts at, what it gives, and the bookmark that
it leaves. -/
inductive Reads : Bookmark → Except ParseError (Expr Empty) → Bookmark → Prop where
  | number {b v} : b.current.kind = .number v →
      Reads b (.ok (.number v b.current.span)) b.advance
  | string {b s} : b.current.kind = .string s →
      Reads b (.ok (.string s b.current.span)) b.advance
  | identifier {b x} : b.current.kind = .identifier x → b.advance.current.kind ≠ .equals →
      Reads b (.ok (.identifier x b.current.span)) b.advance
  | assign {b x value after} : b.current.kind = .identifier x →
      b.advance.current.kind = .equals → Reads b.advance.advance value after →
      Reads b (value.map fun e => .assign x e (b.current.span.merge e.span)) after
  | print {b value after} : b.current.kind = .printWord → Reads b.advance value after →
      Reads b (value.map fun e => .print e (b.current.span.merge e.span)) after
  | wrap {b w value after} : b.current.kind = .wrapper w → Reads b.advance value after →
      Reads b (value.map fun e => .wrap w e (b.current.span.merge e.span)) after
  | group {b e after} : b.current.kind = .leftParen → Reads b.advance (.ok e) after →
      after.current.kind = .rightParen → Reads b (.ok e) after.advance
  | unclosed {b e after} : b.current.kind = .leftParen → Reads b.advance (.ok e) after →
      after.current.kind ≠ .rightParen →
      Reads b (.error (unclosed b.current.span after.current)) after
  | groupError {b error after} : b.current.kind = .leftParen →
      Reads b.advance (.error error) after → Reads b (.error error) after
  | binary {b op l between right after} : b.current.kind = .operator op →
      Reads b.advance (.ok l) between → Reads between right after →
      Reads b (right.map fun r => .binary op l r (b.current.span.merge r.span)) after
  | leftError {b op error after} : b.current.kind = .operator op →
      Reads b.advance (.error error) after → Reads b (.error error) after
  | refused {b kind} : refusal? b.current.kind = some kind →
      Reads b (.error ⟨kind, b.current.span⟩) b

/-- Readings of one expression after the other until an end of input is current. -/
inductive ReadsAll : Bookmark → Except ParseError Forest → Bookmark → Prop where
  | done {b} : b.current.kind = .endOfInput → ReadsAll b (.ok []) b
  | failed {b error after} : b.current.kind ≠ .endOfInput → Reads b (.error error) after →
      ReadsAll b (.error error) after
  | next {b e between more after} : b.current.kind ≠ .endOfInput → Reads b (.ok e) between →
      ReadsAll between more after → ReadsAll b (more.map (e :: ·)) after

/-- Where the first end of input stands, or else how long the list is. -/
def firstEnd (tokens : List (Token Name)) : ℕ := tokens.findIdx fun t => t.kind.isEnd

variable {b after : Bookmark} {kind : TokenKind Name}

def cursor (b : Bookmark) : Cursor := Cursor.ofTokens (b.tokens.drop b.position)

theorem drop_of_current (h : b.current.kind ≠ .endOfInput) :
    b.tokens.drop b.position = b.current :: b.tokens.drop (b.position + 1) := by
  rw [current] at h ⊢
  rcases hget : b.tokens[b.position]? with _ | t
  · rw [hget] at h
    exact absurd rfl h
  · obtain ⟨hlt, rfl⟩ := List.getElem?_eq_some_iff.1 hget
    exact List.drop_eq_getElem_cons hlt

theorem cursor_of_end (h : b.current.kind = .endOfInput) : b.cursor = ⟨[], b.current.span⟩ := by
  rw [current] at h ⊢
  rcases hget : b.tokens[b.position]? with _ | t
  · rw [cursor, List.drop_eq_nil_of_le (List.getElem?_eq_none_iff.1 hget)]
    rfl
  · obtain ⟨hlt, rfl⟩ := List.getElem?_eq_some_iff.1 hget
    rw [hget, Option.getD_some] at h
    rw [cursor, List.drop_eq_getElem_cons hlt, Cursor.ofTokens_cons_end h]
    rfl

theorem cursor_of_ne_end (h : b.current.kind ≠ .endOfInput) :
    b.cursor = ⟨b.current :: b.advance.cursor.ahead, b.advance.cursor.stop⟩ := by
  rw [cursor, drop_of_current h, Cursor.ofTokens_cons h, cursor, advance, if_neg h]

theorem current_cursor (b : Bookmark) : b.cursor.current = b.current := by
  by_cases h : b.current.kind = .endOfInput
  · rw [cursor_of_end h, Cursor.current, Cursor.endToken, ← h]
    rfl
  · rw [cursor_of_ne_end h]
    rfl

theorem cursor_advance (b : Bookmark) : b.advance.cursor = b.cursor.advance.2 := by
  by_cases h : b.current.kind = .endOfInput
  · rw [advance, if_pos h, cursor_of_end h]
    rfl
  · rw [cursor_of_ne_end h]
    rfl

theorem cursor_iterate (b : Bookmark) (count : ℕ) :
    (advance^[count] b).cursor = ⟨b.cursor.ahead.drop count, b.cursor.stop⟩ := by
  induction count generalizing b with
  | zero => rfl
  | succ count ih =>
    rw [Function.iterate_succ_apply, ih, cursor_advance, Cursor.advance, List.drop_tail]

/-- What the descent reads at a bookmark, and how many tokens it takes. -/
def node (b : Bookmark) : Except ParseError (Expr Empty × ℕ) :=
  Forest.node b.cursor.stop b.cursor.ahead

theorem cursor_of_kind (h : b.current.kind = kind) (hk : kind ≠ .endOfInput) :
    b.cursor = ⟨⟨kind, b.current.span⟩ :: b.advance.cursor.ahead, b.advance.cursor.stop⟩ := by
  subst h
  exact cursor_of_ne_end hk

theorem node_iterate (b : Bookmark) (count : ℕ) :
    (advance^[count] b).node = Forest.node b.cursor.stop (b.cursor.ahead.drop count) := by
  rw [node, cursor_iterate]

theorem node_of_refusal {k : ParseErrorKind} (h : refusal? b.current.kind = some k) :
    b.node = .error ⟨k, b.current.span⟩ := by
  by_cases hend : b.current.kind = .endOfInput
  · rw [hend] at h
    cases h
    rw [node, cursor_of_end hend, node_nil]
  · rw [node, cursor_of_ne_end hend, node_refused h]

theorem node_group (hk : b.current.kind = .leftParen) : b.node = (do
    let (e, count) ← b.advance.node
    let close := (advance^[count] b.advance).current
    if close.kind = .rightParen then return (e, count + 2)
    else .error (unclosed b.current.span close)) := by
  rw [node, cursor_of_kind hk nofun, node_paren, ← node]
  rcases b.advance.node with error | ⟨e, count⟩
  · rfl
  · simp only [bind, Except.bind, ← current_cursor, cursor_iterate]
    rcases b.advance.cursor.ahead.drop count with _ | ⟨close, more⟩ <;> rfl

theorem noAssignment_iff : NoAssignment b.cursor.ahead ↔ b.current.kind ≠ .equals := by
  rw [← current_cursor, Cursor.current]
  rcases b.cursor.ahead with _ | ⟨t, rest⟩ <;> simp [NoAssignment, Cursor.endToken]

/-- A reading gives what the descent gives, and leaves the bookmark behind what the descent takes.
-/
theorem Reads.eq_node {result : Except ParseError (Expr Empty)} (h : Reads b result after) :
    ∃ count, after = advance^[count] b ∧ b.node = result.map (·, count) := by
  induction h with
  | number hk =>
    refine ⟨1, rfl, ?_⟩
    rw [node, cursor_of_kind hk nofun, node_number]
    rfl
  | string hk =>
    refine ⟨1, rfl, ?_⟩
    rw [node, cursor_of_kind hk nofun, node_string]
    rfl
  | identifier hk hnext =>
    refine ⟨1, rfl, ?_⟩
    rw [node, cursor_of_kind hk nofun, node_identifier _ (noAssignment_iff.2 hnext)]
    rfl
  | @assign b x value after hk hnext _ ih =>
    obtain ⟨count, rfl, hvalue⟩ := ih
    refine ⟨count + 2, rfl, ?_⟩
    rw [node, cursor_of_kind hk nofun, cursor_of_kind hnext nofun, node_assign, ← node, hvalue]
    cases value <;> rfl
  | @print b value after hk _ ih =>
    obtain ⟨count, rfl, hvalue⟩ := ih
    refine ⟨count + 1, rfl, ?_⟩
    rw [node, cursor_of_kind hk nofun, node_print, ← node, hvalue]
    cases value <;> rfl
  | @wrap b w value after hk _ ih =>
    obtain ⟨count, rfl, hvalue⟩ := ih
    refine ⟨count + 1, rfl, ?_⟩
    rw [node, cursor_of_kind hk nofun, node_wrap, ← node, hvalue]
    cases value <;> rfl
  | group hk _ hclose ih =>
    obtain ⟨count, rfl, hvalue⟩ := ih
    refine ⟨count + 2, ?_, ?_⟩
    · exact (Function.iterate_succ_apply' advance (count + 1) _).symm
    · rw [node_group hk, hvalue]
      simp only [Except.map, bind, Except.bind, hclose, ↓reduceIte]
      rfl
  | unclosed hk _ hclose ih =>
    obtain ⟨count, rfl, hvalue⟩ := ih
    refine ⟨count + 1, rfl, ?_⟩
    rw [node_group hk, hvalue]
    simp only [Except.map, bind, Except.bind, hclose, ↓reduceIte]
  | groupError hk _ ih =>
    obtain ⟨count, rfl, hvalue⟩ := ih
    refine ⟨count + 1, rfl, ?_⟩
    rw [node_group hk, hvalue]
    rfl
  | @binary b op l between right after hk _ _ ihl ihr =>
    obtain ⟨j, rfl, hleft⟩ := ihl
    obtain ⟨k, rfl, hright⟩ := ihr
    refine ⟨j + k + 1, ?_, ?_⟩
    · rw [Function.iterate_succ_apply, Nat.add_comm, Function.iterate_add_apply]
    · rw [node_iterate] at hright
      rw [node, cursor_of_kind hk nofun, node_binary, ← node, hleft]
      simp only [Except.map, bind, Except.bind, hright]
      cases right <;> rfl
  | leftError hk _ ih =>
    obtain ⟨count, rfl, hvalue⟩ := ih
    refine ⟨count + 1, rfl, ?_⟩
    rw [node, cursor_of_kind hk nofun, node_binary, ← node, hvalue]
    rfl
  | refused hk => exact ⟨0, rfl, node_of_refusal hk⟩

theorem current_of_ahead {t : Token Name} {rest : List (Token Name)}
    (h : b.cursor.ahead = t :: rest) : b.current = t ∧ b.advance.cursor.ahead = rest := by
  rw [← current_cursor, cursor_advance, Cursor.current, Cursor.advance, h]
  exact ⟨rfl, rfl⟩

theorem end_of_ahead (h : b.cursor.ahead = []) : b.current.kind = .endOfInput := by
  rw [← current_cursor, Cursor.current, h]
  rfl

theorem exists_reads (b : Bookmark) : ∃ result after, Reads b result after := by
  -- By the tokens in front of the first end: every reading that another one calls has fewer.
  induction hahead : b.cursor.ahead using node_induction generalizing b with
  | nil =>
    have hk : refusal? b.current.kind = some .unexpectedEnd := by rw [end_of_ahead hahead]; rfl
    exact ⟨_, _, .refused hk⟩
  | number v s rest =>
    have hk : b.current.kind = .number v := by rw [(current_of_ahead hahead).1]
    exact ⟨_, _, .number hk⟩
  | string t s rest =>
    have hk : b.current.kind = .string t := by rw [(current_of_ahead hahead).1]
    exact ⟨_, _, .string hk⟩
  | identifier x s rest hn =>
    obtain ⟨hcurrent, hahead⟩ := current_of_ahead hahead
    have hnext : b.advance.current.kind ≠ .equals := by rwa [← noAssignment_iff, hahead]
    exact ⟨_, _, .identifier (by rw [hcurrent]) hnext⟩
  | assign x s t rest ih =>
    obtain ⟨hcurrent, hahead⟩ := current_of_ahead hahead
    obtain ⟨hnext, hahead⟩ := current_of_ahead hahead
    obtain ⟨value, after, hvalue⟩ := ih _ hahead
    exact ⟨_, _, .assign (by rw [hcurrent]) (by rw [hnext]) hvalue⟩
  | print s rest ih =>
    obtain ⟨hcurrent, hahead⟩ := current_of_ahead hahead
    obtain ⟨value, after, hvalue⟩ := ih _ hahead
    exact ⟨_, _, .print (by rw [hcurrent]) hvalue⟩
  | wrap w s rest ih =>
    obtain ⟨hcurrent, hahead⟩ := current_of_ahead hahead
    obtain ⟨value, after, hvalue⟩ := ih _ hahead
    exact ⟨_, _, .wrap (by rw [hcurrent]) hvalue⟩
  | paren s rest ih =>
    obtain ⟨hcurrent, hahead⟩ := current_of_ahead hahead
    have hk : b.current.kind = .leftParen := by rw [hcurrent]
    obtain ⟨error | e, after, hvalue⟩ := ih _ hahead
    · exact ⟨_, _, .groupError hk hvalue⟩
    · by_cases hclose : after.current.kind = .rightParen
      · exact ⟨_, _, .group hk hvalue hclose⟩
      · exact ⟨_, _, .unclosed hk hvalue hclose⟩
  | binary op s rest ihl ihr =>
    obtain ⟨hcurrent, hahead⟩ := current_of_ahead hahead
    have hk : b.current.kind = .operator op := by rw [hcurrent]
    obtain ⟨error | l, between, hleft⟩ := ihl _ hahead
    · exact ⟨_, _, .leftError hk hleft⟩
    · -- The right operand is read from what the left one leaves.
      obtain ⟨j, hbetween, -⟩ := hleft.eq_node
      obtain ⟨right, after, hright⟩ := ihr j between (by rw [hbetween, cursor_iterate, hahead])
      exact ⟨_, _, .binary hk hleft hright⟩
  | refused token rest kind hr =>
    obtain ⟨hcurrent, -⟩ := current_of_ahead hahead
    exact ⟨_, _, .refused (by rw [hcurrent, hr])⟩

theorem ReadsAll.eq_statements {result : Except ParseError Forest} (h : ReadsAll b result after) :
    (∃ count, after = advance^[count] b) ∧ statements b.cursor.stop b.cursor.ahead = result := by
  induction h with
  | done hend =>
    refine ⟨⟨0, rfl⟩, ?_⟩
    rw [cursor_of_end hend, statements]
  | failed hne hread =>
    obtain ⟨count, rfl, hnode⟩ := hread.eq_node
    refine ⟨⟨count, rfl⟩, ?_⟩
    rw [node, cursor_of_ne_end hne] at hnode
    rw [cursor_of_ne_end hne, statements_cons, hnode]
    rfl
  | @next b e between forest after hne hread _ ih =>
    obtain ⟨count, rfl, hnode⟩ := hread.eq_node
    obtain ⟨⟨more, rfl⟩, hmore⟩ := ih
    refine ⟨⟨more + count, (Function.iterate_add_apply advance more count _).symm⟩, ?_⟩
    rw [cursor_iterate, cursor_of_ne_end hne] at hmore
    rw [node, cursor_of_ne_end hne] at hnode
    rw [cursor_of_ne_end hne, statements_cons, hnode]
    simp only [Except.map, bind, Except.bind, hmore]
    cases forest <;> rfl

theorem exists_readsAll (b : Bookmark) : ∃ result after, ReadsAll b result after := by
  induction hahead : b.cursor.ahead using statements_induction generalizing b with
  | nil => exact ⟨_, _, .done (end_of_ahead hahead)⟩
  | cons token rest ih =>
    have hne : b.current.kind ≠ .endOfInput := by
      intro hend
      rw [cursor_of_end hend] at hahead
      cases hahead
    obtain ⟨error | e, between, hread⟩ := exists_reads b
    · exact ⟨_, _, .failed hne hread⟩
    · obtain ⟨count, hbetween, hnode⟩ := hread.eq_node
      obtain ⟨more, after, hmore⟩ := ih count (node_pos hnode) between
        (by rw [hbetween, cursor_iterate, hahead])
      exact ⟨_, _, .next hne hread hmore⟩

theorem tokens_iterate (b : Bookmark) (count : ℕ) : (advance^[count] b).tokens = b.tokens := by
  induction count generalizing b with
  | zero => rfl
  | succ count ih =>
    rw [Function.iterate_succ_apply, ih, advance]
    split <;> rfl

theorem current_eq_end_iff (h : b.position ≤ firstEnd b.tokens) :
    b.current.kind = .endOfInput ↔ b.position = firstEnd b.tokens := by
  rw [current]
  constructor
  · intro hend
    by_contra hne
    have hlt : b.position < firstEnd b.tokens := Nat.lt_of_le_of_ne h hne
    have hbound : b.position < b.tokens.length := Nat.lt_of_lt_of_le hlt List.findIdx_le_length
    rw [List.getElem?_eq_getElem hbound, Option.getD_some, ← TokenKind.isEnd_iff] at hend
    exact absurd hend (Bool.eq_false_iff.1 (List.not_of_lt_findIdx hlt))
  · intro heq
    rcases hget : b.tokens[b.position]? with _ | t
    · rfl
    · obtain ⟨hlt, rfl⟩ := List.getElem?_eq_some_iff.1 hget
      rw [Option.getD_some, ← TokenKind.isEnd_iff]
      simp only [heq]
      exact List.findIdx_getElem (w := heq ▸ hlt)

theorem position_advance (h : b.position ≤ firstEnd b.tokens) :
    b.advance.position = min (b.position + 1) (firstEnd b.tokens) := by
  rw [advance]
  split
  · next hend =>
    rw [current_eq_end_iff h] at hend
    omega
  · next hne =>
    rw [current_eq_end_iff h] at hne
    simp only
    omega

theorem position_iterate (h : b.position ≤ firstEnd b.tokens) (count : ℕ) :
    (advance^[count] b).position = min (b.position + count) (firstEnd b.tokens) := by
  induction count with
  | zero => exact (Nat.min_eq_left h).symm
  | succ count ih =>
    have hle : (advance^[count] b).position ≤ firstEnd (advance^[count] b).tokens := by
      rw [ih, tokens_iterate]
      exact Nat.min_le_right _ _
    rw [Function.iterate_succ_apply', position_advance hle, ih, tokens_iterate]
    omega

theorem position_iterate_of_le {count : ℕ} (h : count ≤ b.cursor.ahead.length) :
    (advance^[count] b).position = b.position + count := by
  induction count generalizing b with
  | zero => rfl
  | succ count ih =>
    have hne : b.current.kind ≠ .endOfInput := by
      intro hend
      rw [cursor_of_end hend] at h
      exact absurd h (Nat.not_succ_le_zero count)
    rw [cursor_of_ne_end hne] at h
    rw [Function.iterate_succ_apply, ih (Nat.le_of_succ_le_succ h), advance, if_neg hne]
    simp only
    omega

theorem Reads.position_lt {e : Expr Empty} (h : Reads b (.ok e) after) :
    b.position < after.position := by
  obtain ⟨count, rfl, hnode⟩ := h.eq_node
  have hpos : 0 < count := node_pos hnode
  obtain ⟨us, -, hlength, hsplit, -⟩ := derives_of_node hnode
  have hle : count ≤ b.cursor.ahead.length := by
    rw [hsplit, List.length_append, hlength]
    exact Nat.le_add_right _ _
  rw [position_iterate_of_le hle]
  omega

theorem Reads.unique {result other : Except ParseError (Expr Empty)} {after' : Bookmark}
    (h : Reads b result after) (h' : Reads b other after') : other = result := by
  obtain ⟨count, -, hnode⟩ := h.eq_node
  obtain ⟨count', -, hnode'⟩ := h'.eq_node
  rw [hnode] at hnode'
  rcases result with error | e <;> rcases other with error' | e' <;>
    simp_all [Except.map]

theorem readsAll_iff_parse (tokens : List (Token Name)) (result : Except ParseError Forest) :
    (∃ after, ReadsAll ⟨tokens, 0⟩ result after) ↔ result = parse tokens := by
  have hparse {result after} (h : ReadsAll ⟨tokens, 0⟩ result after) : result = parse tokens := by
    rw [parse, ← h.eq_statements.2]
    rfl
  constructor
  · rintro ⟨after, h⟩
    exact hparse h
  · rintro rfl
    obtain ⟨result, after, h⟩ := exists_readsAll ⟨tokens, 0⟩
    exact ⟨after, hparse h ▸ h⟩

end Bookmark

open Bookmark

/-- Whatever tokens are read, wherever ends of input stand among them and however many: a reading
that starts anywhere comes to one result, and so do the readings from the first token on, which give
what `parse` gives. What stands behind the first end has no say in it, and a list without an end
reads as if one without a place stood behind it. An expression takes a token at least, and the first
end, or else the end of the list, is never passed. -/
theorem reading_stops_at_the_first_end (tokens : List (Token Name)) :
    (∀ position, ∃! result, ∃ after, Reads ⟨tokens, position⟩ result after) ∧
    (∀ result, (∃ after, ReadsAll ⟨tokens, 0⟩ result after) ↔ result = parse tokens) ∧
    (∀ front stop back, (∀ t ∈ front, t.kind ≠ .endOfInput) →
      tokens = front ++ ⟨.endOfInput, stop⟩ :: back →
        parse tokens = parse (front ++ [⟨.endOfInput, stop⟩])) ∧
    ((∀ t ∈ tokens, t.kind ≠ .endOfInput) →
      parse tokens = parse (tokens ++ [⟨.endOfInput, Span.nowhere⟩])) ∧
    (∀ position e after, Reads ⟨tokens, position⟩ (.ok e) after → position < after.position) ∧
    (∀ position result after, Reads ⟨tokens, position⟩ result after →
      position ≤ firstEnd tokens → after.position ≤ firstEnd tokens) ∧
    (∀ result after, ReadsAll ⟨tokens, 0⟩ result after → after.position ≤ firstEnd tokens) ∧
    ∀ count, (advance^[count] ⟨tokens, 0⟩).position = min count (firstEnd tokens) ∧
      ((fun cursor => cursor.advance.2)^[count] (Cursor.ofTokens tokens)).current
        = (advance^[count] ⟨tokens, 0⟩).current := by
  have hstart : (⟨tokens, 0⟩ : Bookmark).position ≤ firstEnd tokens := Nat.zero_le _
  refine ⟨fun position => ?_, readsAll_iff_parse tokens, ?_, ?_, ?_, ?_, ?_, ?_⟩
  · obtain ⟨result, after, h⟩ := exists_reads ⟨tokens, position⟩
    exact ⟨result, ⟨after, h⟩, fun other ⟨_, hother⟩ => h.unique hother⟩
  · rintro front stop back hfront rfl
    rw [parse, parse, Cursor.ofTokens_append_end stop hfront,
      Cursor.ofTokens_append_end stop hfront]
  · intro hends
    rw [parse, parse, Cursor.ofTokens_of_no_end hends, Cursor.ofTokens_append_end _ hends]
  · intro position e after h
    exact h.position_lt
  · intro position result after h hle
    obtain ⟨count, rfl, -⟩ := h.eq_node
    rw [position_iterate hle]
    exact Nat.min_le_right _ _
  · intro result after h
    obtain ⟨⟨count, rfl⟩, -⟩ := h.eq_statements
    rw [position_iterate hstart]
    exact Nat.min_le_right _ _
  · intro count
    have hadvance : Function.Semiconj cursor advance fun cursor => cursor.advance.2 :=
      cursor_advance
    have hcursor : (advance^[count] ⟨tokens, 0⟩).cursor = _ := hadvance.iterate_right count _
    rw [position_iterate hstart, Nat.zero_add, ← current_cursor, hcursor]
    exact ⟨rfl, rfl⟩

/-- `+ 1`, where an operand is missing. -/
def halfSum : List (Token Name) :=
  [⟨.operator .add, ⟨0, 1⟩⟩, ⟨.number ⟨0x3ff0000000000000⟩, ⟨2, 3⟩⟩]

/-- The operand behind the end comes too late, and without an end the error stands nowhere. -/
theorem halfSum_misses_what_is_behind :
    (∀ t ∈ halfSum, t.kind ≠ .endOfInput) ∧
    parse (halfSum ++ ⟨.endOfInput, ⟨4, 4⟩⟩ :: halfSum) = .error ⟨.unexpectedEnd, ⟨4, 4⟩⟩ ∧
    parse halfSum = .error ⟨.unexpectedEnd, Span.nowhere⟩ ∧
    ∃ after, Reads ⟨halfSum, 1⟩ (.ok (.number ⟨0x3ff0000000000000⟩ ⟨2, 3⟩)) after ∧
      1 < after.position ∧ after.position ≤ firstEnd halfSum := by
  have hends : ∀ t ∈ halfSum, t.kind ≠ .endOfInput := by decide
  obtain ⟨-, -, hbehind, -⟩ :=
    reading_stops_at_the_first_end (halfSum ++ ⟨.endOfInput, ⟨4, 4⟩⟩ :: halfSum)
  obtain ⟨-, -, -, hmissing, hprogress, hstay, -⟩ := reading_stops_at_the_first_end halfSum
  refine ⟨hends, ?_, ?_, ?_⟩
  · rw [hbehind _ _ _ hends rfl]
    decide +kernel
  · rw [hmissing hends]
    decide +kernel
  · have hread : Reads ⟨halfSum, 1⟩ _ _ := .number rfl
    exact ⟨_, hread, hprogress _ _ _ hread, hstay _ _ _ hread (by decide)⟩

end PrefixLang
