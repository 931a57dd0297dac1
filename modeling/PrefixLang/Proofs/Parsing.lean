import PrefixLang.Program.Parsing
import PrefixLang.Proofs.Descent
import PrefixLang.Proofs.Unfolding
/-!
What the parser accepts: exactly the token lists that the grammar cuts into expressions. There is
only one such cut, and the node table that is filled on the way unfolds to its trees.
-/

namespace PrefixLang

theorem Cursor.ofTokens_append_end {tokens : List (Token Name)} (stop : Span)
    (h : ∀ t ∈ tokens, t.kind ≠ .endOfInput) (more : List (Token Name)) :
    Cursor.ofTokens (tokens ++ ⟨.endOfInput, stop⟩ :: more) = ⟨tokens, stop⟩ := by
  have hend : ∀ t ∈ tokens, (!t.kind.isEnd) = true := by
    intro t ht
    have := h t ht
    cases hk : t.kind <;> simp_all [TokenKind.isEnd]
  have hfind : tokens.find? (fun t => t.kind.isEnd) = none := by
    rw [List.find?_eq_none]
    intro t ht
    simpa using hend t ht
  rw [Cursor.ofTokens, List.takeWhile_append_of_pos hend, List.find?_append, hfind]
  simp [TokenKind.isEnd]

theorem parse_append_end {tokens : List (Token Name)} (stop : Span)
    (h : ∀ t ∈ tokens, t.kind ≠ .endOfInput) :
    parse (tokens ++ [⟨.endOfInput, stop⟩]) = Forest.statements stop tokens := by
  rw [parse, Cursor.ofTokens_append_end stop h]

/-- A list of tokens is read if and only if it is a row of derivable stretches; then the row and its
trees are unique, and they are the trees at the numbers of the statements in the table that reading
leaves. -/
theorem parse_accepts_exactly_the_grammar (tokens : List (Token Name)) (stop : Span)
    (h : ∀ t ∈ tokens, t.kind ≠ .endOfInput) :
    ((∃ p, parseProgram (tokens ++ [⟨.endOfInput, stop⟩]) = .ok p) ↔
      ∃ parts trees, Decomposition tokens parts trees) ∧
    ∀ p, parseProgram (tokens ++ [⟨.endOfInput, stop⟩]) = .ok p →
      ∃ parts trees, Decomposition tokens parts trees ∧
        (∀ parts' trees', Decomposition tokens parts' trees' → parts' = parts ∧ trees' = trees) ∧
        List.Forall₂ p.Unfolds p.body (trees.map Expr.intact) ∧
        p.unfold = trees.map Expr.intact := by
  constructor
  · constructor
    · rintro ⟨p, hp⟩
      obtain ⟨forest, hf, -⟩ := exists_forest_of_parseProgram hp
      rw [parse_append_end stop h] at hf
      obtain ⟨parts, hd⟩ := Forest.statements_ok_iff.1 hf
      exact ⟨parts, forest, hd⟩
    · rintro ⟨parts, trees, hd⟩
      rw [parseProgram_eq, parse_append_end stop h, Forest.statements_ok_iff.2 ⟨parts, hd⟩]
      exact ⟨_, rfl⟩
  · intro p hp
    obtain ⟨forest, hf, rfl⟩ := exists_forest_of_parseProgram hp
    rw [parse_append_end stop h] at hf
    obtain ⟨parts, hd⟩ := Forest.statements_ok_iff.1 hf
    have hunfold := Program.unfolds_unfold (Program.descending_ofForest forest).backward
    rw [Program.unfold_ofForest] at hunfold
    refine ⟨parts, forest, hd, ?_, hunfold, Program.unfold_ofForest forest⟩
    intro parts' trees' hd'
    exact Forest.decomposition_unique hd' hd

/-- `x = ( + 1 y )` as tokens. -/
def assignmentTokens : List (Token Name) :=
  [⟨.identifier ⟨6⟩, ⟨0, 1⟩⟩, ⟨.equals, ⟨2, 3⟩⟩, ⟨.leftParen, ⟨4, 5⟩⟩, ⟨.operator .add, ⟨6, 7⟩⟩,
    ⟨.number ⟨0x3ff0000000000000⟩, ⟨8, 9⟩⟩, ⟨.identifier ⟨7⟩, ⟨10, 11⟩⟩, ⟨.rightParen, ⟨12, 13⟩⟩]

theorem parse_accepts_assignment :
    (∀ t ∈ assignmentTokens, t.kind ≠ .endOfInput) ∧
    ∃ p, parseProgram (assignmentTokens ++ [⟨.endOfInput, ⟨13, 13⟩⟩]) = .ok p := by
  have hend : ∀ t ∈ assignmentTokens, t.kind ≠ .endOfInput := by decide
  refine ⟨hend, (parse_accepts_exactly_the_grammar _ _ hend).1.2 ?_⟩
  exact ⟨[assignmentTokens], _, rfl, .cons (.assign _ _ _
    (.paren _ _ (.binary _ _ (.number _ _) (.identifier _ _)))) .nil⟩

end PrefixLang
