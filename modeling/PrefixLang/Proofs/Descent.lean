import PrefixLang.Proofs.Grammar
/-!
What is read by descent is what the grammar derives: `derives_of_node` and `node_of_derives` say so
of one expression, `statements_ok_iff` and `decomposition_unique` of whole sources.
-/

namespace PrefixLang.Forest

variable {stop : Span} {rest : List (Token Name)} {s : Span}

theorem error_of_bind {ε α β : Type} {x : Except ε α} {f : α → Except ε β} {error : ε}
    (h : x >>= f = .error error) : x = .error error ∨ ∃ a, x = .ok a ∧ f a = .error error := by
  cases x with
  | error e => cases h; exact .inl rfl
  | ok a => exact .inr ⟨a, rfl, h⟩

theorem closed_of_node_paren {e : Expr Empty} {k : ℕ}
    (h : node stop (⟨.leftParen, s⟩ :: rest) = .ok (e, k)) :
    ∃ j t more, node stop rest = .ok (e, j) ∧ rest.drop j = ⟨.rightParen, t⟩ :: more ∧
      k = j + 2 := by
  rw [node_paren] at h
  obtain ⟨⟨e', j⟩, he, h⟩ := ok_of_bind h
  rcases hd : rest.drop j with _ | ⟨⟨kind, t⟩, more⟩
  · simp [hd] at h
  by_cases hc : kind = .rightParen
  · subst hc
    obtain ⟨rfl, rfl⟩ : e' = e ∧ j + 2 = k := by simpa [hd, pure, Except.pure] using h
    exact ⟨j, t, more, he, hd, rfl⟩
  · simp [hd, hc] at h

theorem derives_of_node {ahead : List (Token Name)} {e : Expr Empty} {k : ℕ}
    (h : node stop ahead = .ok (e, k)) :
    ∃ us, Derives us e ∧ us.length = k ∧ ahead = us ++ ahead.drop k ∧
      Separate us (ahead.drop k) := by
  induction ahead using node_induction generalizing e k with
  | nil => rw [node_nil] at h; cases h
  | number v s rest =>
    rw [node_number] at h; cases h; exact ⟨_, .number v s, rfl, rfl, by simp [Separate]⟩
  | string t s rest =>
    rw [node_string] at h; cases h; exact ⟨_, .string t s, rfl, rfl, by simp [Separate]⟩
  | identifier x s rest hn =>
    rw [node_identifier x hn] at h; cases h; exact ⟨_, .identifier x s, rfl, rfl, hn.separate⟩
  | assign x s t rest ih =>
    rw [node_assign] at h
    obtain ⟨⟨e, k⟩, he, h⟩ := ok_of_bind h
    cases h
    obtain ⟨us, hu, rfl, hr, hs⟩ := ih he
    refine ⟨_, .assign x s t hu, rfl, by simpa using hr, ?_⟩
    rwa [separate_cons _ (List.cons_ne_nil _ _), separate_cons _ hu.ne_nil]
  | print s rest ih =>
    rw [node_print] at h
    obtain ⟨⟨e, k⟩, he, h⟩ := ok_of_bind h
    cases h
    obtain ⟨us, hu, rfl, hr, hs⟩ := ih he
    exact ⟨_, .print s hu, rfl, by simpa using hr, (separate_cons _ hu.ne_nil).2 hs⟩
  | wrap w s rest ih =>
    rw [node_wrap] at h
    obtain ⟨⟨e, k⟩, he, h⟩ := ok_of_bind h
    cases h
    obtain ⟨us, hu, rfl, hr, hs⟩ := ih he
    exact ⟨_, .wrap w s hu, rfl, by simpa using hr, (separate_cons _ hu.ne_nil).2 hs⟩
  | paren s rest ih =>
    obtain ⟨j, t, more, he, hd, rfl⟩ := closed_of_node_paren h
    obtain ⟨us, hu, rfl, hr, -⟩ := ih he
    rw [hd] at hr
    subst hr
    refine ⟨_, .paren s t hu, by simp, by simp, ?_⟩
    rw [← List.cons_append, separate_append (List.cons_ne_nil _ _)]
    simp [Separate]
  | binary op s rest ihl ihr =>
    rw [node_binary] at h
    obtain ⟨⟨l, j⟩, hl, h⟩ := ok_of_bind h
    obtain ⟨⟨r, k⟩, hr, h⟩ := ok_of_bind h
    cases h
    obtain ⟨us, hu, rfl, hs, -⟩ := ihl hl
    obtain ⟨vs, hv, rfl, ht, hsep⟩ := ihr _ hr
    rw [List.drop_drop] at ht hsep
    refine ⟨_, .binary op s hu hv, by simp, by simp [← ht, ← hs], ?_⟩
    rw [← List.cons_append, separate_append hv.ne_nil]
    exact hsep
  | refused token rest kind hr => rw [node_refused hr] at h; cases h

/-- Derived tokens are read as their tree, unless what follows makes an assignment of the last. -/
theorem node_of_derives {us : List (Token Name)} {e : Expr Empty} (h : Derives us e)
    (hs : Separate us rest) : node stop (us ++ rest) = .ok (e, us.length) := by
  induction h generalizing rest with
  | number v s => exact node_number v
  | string t s => exact node_string t
  | identifier x s => exact node_identifier x (hs x s rfl)
  | assign x s t hu ih =>
    rw [separate_cons _ (List.cons_ne_nil _ _), separate_cons _ hu.ne_nil] at hs
    rw [List.cons_append, List.cons_append, node_assign, ih hs]
    rfl
  | print s hu ih =>
    rw [separate_cons _ hu.ne_nil] at hs
    rw [List.cons_append, node_print, ih hs]
    rfl
  | wrap w s hu ih =>
    rw [separate_cons _ hu.ne_nil] at hs
    rw [List.cons_append, node_wrap, ih hs]
    rfl
  | paren s t _ ih =>
    have hclose : NoAssignment (⟨.rightParen, t⟩ :: rest) := by simp [NoAssignment]
    rw [List.cons_append, List.append_assoc, node_paren]
    simp [bind, Except.bind, pure, Except.pure, ih hclose.separate]
  | binary op s _ hr ihl ihr =>
    rw [← List.cons_append, separate_append hr.ne_nil] at hs
    rw [List.cons_append, List.append_assoc, node_binary, ihl (hr.no_assignment _).separate]
    simp [bind, Except.bind, pure, Except.pure, ihr hs]

theorem statements_append {tokens : List (Token Name)} {parts : List (List (Token Name))}
    {forest : Forest} (hd : Decomposition tokens parts forest) (hs : Separate tokens rest) :
    statements stop (tokens ++ rest) = (statements stop rest).map (forest ++ ·) := by
  obtain ⟨rfl, hd⟩ := hd
  induction hd with
  | nil =>
    rw [List.flatten_nil, List.nil_append]
    rcases statements stop rest with e | more <;> rfl
  | @cons us e parts forest hu hd ih =>
    have hstart (hne : parts.flatten ≠ []) : NoAssignment (parts.flatten ++ rest) :=
      (Decomposition.mk rfl hd).no_assignment_of_ne_nil hne rest
    obtain ⟨hnext, hs⟩ := hs.of_append hstart
    obtain ⟨token, more, hcons⟩ := List.exists_cons_of_ne_nil hu.ne_nil
    have he : node stop (us ++ (parts.flatten ++ rest)) = .ok (e, us.length) :=
      node_of_derives hu hnext
    rw [List.flatten_cons, List.append_assoc]
    rw [hcons] at he ⊢
    rw [List.cons_append, statements_cons, ← List.cons_append, he]
    simp only [bind, Except.bind, List.drop_left, ih hs]
    rcases statements stop rest with e | more <;> rfl

theorem statements_ok_iff {ahead : List (Token Name)} {forest : Forest} :
    statements stop ahead = .ok forest ↔ ∃ parts, Decomposition ahead parts forest := by
  constructor
  · intro h
    induction ahead using statements_induction generalizing forest with
    | nil =>
      rw [statements] at h
      cases h
      exact ⟨[], rfl, .nil⟩
    | cons token rest ih =>
      rw [statements_cons] at h
      obtain ⟨⟨e, k⟩, he, h⟩ := ok_of_bind h
      obtain ⟨more, hm, h⟩ := ok_of_bind h
      cases h
      obtain ⟨us, hu, -, hs, -⟩ := derives_of_node he
      obtain ⟨parts, hp, hd⟩ := ih k (node_pos he) hm
      exact ⟨us :: parts, by rw [List.flatten_cons, hp, ← hs], .cons hu hd⟩
  · rintro ⟨parts, hd⟩
    have hnil : NoAssignment [] := by simp [NoAssignment]
    have happend : statements stop (ahead ++ []) = _ := statements_append hd hnil.separate
    rw [List.append_nil, statements] at happend
    rw [happend, Except.map, List.append_nil]

theorem decomposition_unique {tokens : List (Token Name)} {ps qs : List (List (Token Name))}
    {f g : Forest} (hp : Decomposition tokens ps f) (hq : Decomposition tokens qs g) :
    ps = qs ∧ f = g := by
  obtain ⟨rfl, hp⟩ := hp
  induction hp generalizing qs g with
  | nil =>
    obtain ⟨hw, hq⟩ := hq
    cases hq with
    | nil => exact ⟨rfl, rfl⟩
    | cons hu _ => exact absurd (List.append_eq_nil_iff.1 hw).1 hu.ne_nil
  | @cons us e ps f hu hp ih =>
    obtain ⟨hw, hq⟩ := hq
    have hn : NoAssignment ps.flatten := (Decomposition.mk rfl hp).no_assignment
    cases hq with
    | nil => exact absurd (List.append_eq_nil_iff.1 hw.symm).1 hu.ne_nil
    | @cons vs e' qs g hv hq =>
      have hm : NoAssignment qs.flatten := (Decomposition.mk rfl hq).no_assignment
      have hread : node Span.nowhere (vs ++ qs.flatten) = .ok (e', vs.length) :=
        node_of_derives hv hm.separate
      rw [← List.flatten_cons, hw, List.flatten_cons, node_of_derives hu hn.separate] at hread
      obtain ⟨rfl, hlen⟩ : e = e' ∧ us.length = vs.length := by simpa using hread
      obtain ⟨rfl, hrest⟩ := List.append_inj hw hlen.symm
      obtain ⟨rfl, rfl⟩ := ih ⟨hrest, hq⟩
      exact ⟨rfl, rfl⟩

end PrefixLang.Forest
