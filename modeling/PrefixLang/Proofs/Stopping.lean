import PrefixLang.Proofs.Descent
/-!
Where the descent stops with an error. Before the error stands the start of an expression, up to an
operand that is due or to the end of a parenthesis, and what comes behind it has no say.
-/

namespace PrefixLang

/-- The start of an expression up to where an operand is due; before its first token, the expression
itself is due. -/
inductive Due : List (Token Name) → Prop where
  | whole : Due []
  | assign (x s t) {us} : Due us → Due (⟨.identifier x, s⟩ :: ⟨.equals, t⟩ :: us)
  | print (s) {us} : Due us → Due (⟨.printWord, s⟩ :: us)
  | wrap (w s) {us} : Due us → Due (⟨.wrapper w, s⟩ :: us)
  | paren (s) {us} : Due us → Due (⟨.leftParen, s⟩ :: us)
  | left (op s) {us} : Due us → Due (⟨.operator op, s⟩ :: us)
  | right (op s) {us vs l} : Derives us l → Due vs → Due (⟨.operator op, s⟩ :: (us ++ vs))

variable {us vs before rest ahead : List (Token Name)} {stop : Span} {error : ParseError}

theorem Due.append (h : Due us) (hv : Due vs) : Due (us ++ vs) := by
  induction h with
  | whole => exact hv
  | assign x s t _ ih => exact .assign x s t ih
  | print s _ ih => exact .print s ih
  | wrap w s _ ih => exact .wrap w s ih
  | paren s _ ih => exact .paren s ih
  | left op s _ ih => exact .left op s ih
  | right op s hl _ ih =>
    rw [List.cons_append, List.append_assoc]
    exact .right op s hl ih

namespace Forest

/-- What was read before an error, and what is ahead that it does not go on to. -/
inductive Stops (stop : Span) (before ahead : List (Token Name)) : ParseError → Prop where
  | refused {kind} : Due before → Separate before ahead →
      refusal? (Cursor.mk ahead stop).current.kind = some kind →
      Stops stop before ahead ⟨kind, (Cursor.mk ahead stop).current.span⟩
  | unclosed {outer us e paren} : before = outer ++ ⟨.leftParen, paren⟩ :: us → Due outer →
      Derives us e → Separate us ahead → (Cursor.mk ahead stop).current.kind ≠ .rightParen →
      Stops stop before ahead (Forest.unclosed paren (Cursor.mk ahead stop).current)

theorem Stops.behind (h : Stops stop before ahead error) (hdue : Due us)
    (hs : Separate us (before ++ ahead)) : Stops stop (us ++ before) ahead error := by
  cases h with
  | refused hbefore hsep hk => exact .refused (hdue.append hbefore) (hs.append hsep) hk
  | unclosed hsplit houter hu hsep hk =>
    refine .unclosed ?_ (hdue.append houter) hu hsep hk
    rw [hsplit, List.append_assoc]

theorem stops_of_node (h : node stop ahead = .error error) :
    ∃ before rest, ahead = before ++ rest ∧ Stops stop before rest error := by
  induction ahead using node_induction generalizing error with
  | nil =>
    rw [node_nil] at h
    cases h
    exact ⟨[], [], rfl, .refused .whole (separate_nil _) rfl⟩
  | number v s rest => rw [node_number] at h; cases h
  | string t s rest => rw [node_string] at h; cases h
  | identifier x s rest hn => rw [node_identifier x hn] at h; cases h
  | assign x s t rest ih =>
    rw [node_assign] at h
    rcases error_of_bind h with h | ⟨_, -, h⟩
    · obtain ⟨before, after, rfl, hstops⟩ := ih h
      exact ⟨_, after, rfl, hstops.behind (.assign x s t .whole) (by simp [Separate])⟩
    · cases h
  | print s rest ih =>
    rw [node_print] at h
    rcases error_of_bind h with h | ⟨_, -, h⟩
    · obtain ⟨before, after, rfl, hstops⟩ := ih h
      exact ⟨_, after, rfl, hstops.behind (.print s .whole) (by simp [Separate])⟩
    · cases h
  | wrap w s rest ih =>
    rw [node_wrap] at h
    rcases error_of_bind h with h | ⟨_, -, h⟩
    · obtain ⟨before, after, rfl, hstops⟩ := ih h
      exact ⟨_, after, rfl, hstops.behind (.wrap w s .whole) (by simp [Separate])⟩
    · cases h
  | paren s rest ih =>
    rw [node_paren] at h
    rcases error_of_bind h with h | ⟨⟨e, k⟩, he, h⟩
    · obtain ⟨before, after, rfl, hstops⟩ := ih h
      exact ⟨_, after, rfl, hstops.behind (.paren s .whole) (by simp [Separate])⟩
    obtain ⟨us, hu, -, hrest, hsep⟩ := derives_of_node he
    refine ⟨⟨.leftParen, s⟩ :: us, rest.drop k, by rw [List.cons_append, ← hrest], ?_⟩
    rcases hd : rest.drop k with _ | ⟨close, more⟩
    · rw [hd] at hsep
      simp only [hd] at h
      cases h
      have hk : (Cursor.mk [] stop).current.kind ≠ .rightParen := by
        simp [Cursor.current, Cursor.endToken]
      exact .unclosed (List.nil_append _).symm .whole hu hsep hk
    · rw [hd] at hsep
      simp only [hd] at h
      split at h
      · cases h
      · next hk =>
        cases h
        exact .unclosed (List.nil_append _).symm .whole hu hsep hk
  | binary op s rest ihl ihr =>
    rw [node_binary] at h
    rcases error_of_bind h with h | ⟨⟨l, j⟩, hl, h⟩
    · obtain ⟨before, after, rfl, hstops⟩ := ihl h
      exact ⟨_, after, rfl, hstops.behind (.left op s .whole) (by simp [Separate])⟩
    rcases error_of_bind h with h | ⟨_, -, h⟩
    · obtain ⟨us, hu, -, hrest, hsep⟩ := derives_of_node hl
      obtain ⟨before, after, hdrop, hstops⟩ := ihr j h
      have hdue := Due.right op s hu .whole
      rw [List.append_nil] at hdue
      rw [hdrop] at hrest hsep
      refine ⟨_, after, ?_, hstops.behind hdue ((separate_cons _ hu.ne_nil).2 hsep)⟩
      rw [List.cons_append, List.cons_append, List.append_assoc, ← hrest]
    · cases h
  | refused token rest kind hr =>
    rw [node_refused hr] at h
    cases h
    exact ⟨[], token :: rest, rfl, .refused .whole (separate_nil _) hr⟩

theorem noAssignment_of_due (h : Due us) (hne : us ≠ []) : NoAssignment (us ++ rest) := by
  cases h with
  | whole => exact absurd rfl hne
  | _ => simp [NoAssignment]

/-- An operand that cannot be read makes the whole unreadable. -/
theorem node_append_of_due (hdue : Due us) (hs : Separate us ahead)
    (h : node stop ahead = .error error) : node stop (us ++ ahead) = .error error := by
  induction hdue with
  | whole => exact h
  | assign x s t _ ih =>
    rw [List.cons_append, List.cons_append, node_assign, ih hs.tail.tail]
    rfl
  | print s _ ih =>
    rw [List.cons_append, node_print, ih hs.tail]
    rfl
  | wrap w s _ ih =>
    rw [List.cons_append, node_wrap, ih hs.tail]
    rfl
  | paren s _ ih =>
    rw [List.cons_append, node_paren, ih hs.tail]
    rfl
  | left op s _ ih =>
    rw [List.cons_append, node_binary, ih hs.tail]
    rfl
  | @right op s us vs l hu hdue ih =>
    rw [← List.cons_append] at hs
    obtain ⟨hleft, hright⟩ := hs.of_append (noAssignment_of_due hdue)
    rw [List.cons_append, List.append_assoc, node_binary, node_of_derives hu hleft.tail]
    simp [bind, Except.bind, ih hright]

theorem node_of_stops {t : Token Name} (h : Stops stop before (t :: rest) error)
    (stop' : Span) (more : List (Token Name)) :
    node stop' (before ++ t :: more) = .error error := by
  cases h with
  | refused hdue hs hk => exact node_append_of_due hdue (hs.congr rfl) (node_refused hk)
  | @unclosed outer us e paren hsplit hdue hu hs hk =>
    have hopen : NoAssignment (⟨.leftParen, paren⟩ :: (us ++ t :: more)) := by
      simp [NoAssignment]
    have hsep : Separate us (t :: more) := hs.congr rfl
    rw [hsplit, List.append_assoc, List.cons_append]
    apply node_append_of_due hdue hopen.separate
    rw [node_paren, node_of_derives hu hsep]
    simp only [bind, Except.bind, List.drop_left]
    exact if_neg hk

theorem stops_of_statements (h : statements stop ahead = .error error) :
    ∃ done parts trees before rest, ahead = done ++ (before ++ rest) ∧
      Decomposition done parts trees ∧ Separate done (before ++ rest) ∧
      Stops stop before rest error := by
  induction ahead using statements_induction with
  | nil =>
    rw [statements] at h
    cases h
  | cons token rest ih =>
    rw [statements_cons] at h
    rcases error_of_bind h with h | ⟨⟨e, k⟩, he, h⟩
    · obtain ⟨before, after, hsplit, hstops⟩ := stops_of_node h
      exact ⟨[], [], [], before, after, hsplit, ⟨rfl, .nil⟩, separate_nil _, hstops⟩
    rcases error_of_bind h with h | ⟨_, -, h⟩
    · obtain ⟨us, hu, -, hrest, hsep⟩ := derives_of_node he
      obtain ⟨done, parts, trees, before, after, hsplit, hd, hs, hstops⟩ := ih k (node_pos he) h
      rw [hsplit] at hrest hsep
      refine ⟨us ++ done, us :: parts, e :: trees, before, after, ?_, ?_, hsep.append hs, hstops⟩
      · rw [hrest, List.append_assoc]
      · exact ⟨by rw [List.flatten_cons, hd.whole], .cons hu hd.derived⟩
    · cases h

theorem statements_of_stops {done : List (Token Name)} {parts : List (List (Token Name))}
    {trees : Forest} {t : Token Name} (hd : Decomposition done parts trees)
    (hs : Separate done (before ++ t :: rest)) (h : Stops stop before (t :: rest) error)
    (stop' : Span) (more : List (Token Name)) :
    statements stop' (done ++ (before ++ t :: more)) = .error error := by
  have hnode := node_of_stops h stop' more
  have hhead : (before ++ t :: more).head? = (before ++ t :: rest).head? := by
    cases before <;> rfl
  rw [statements_append hd (hs.congr hhead)]
  obtain ⟨token, tail, hcons⟩ := List.exists_cons_of_ne_nil
    (List.append_ne_nil_of_right_ne_nil before (List.cons_ne_nil t more))
  rw [hcons] at hnode ⊢
  rw [statements_cons, hnode]
  rfl

end Forest

end PrefixLang
