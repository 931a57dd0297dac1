import PrefixLang.Proofs.PlainText
/-!
Trees as nested lists, and how much of a tree can be told from its list. A string is written without
escapes and may hold line feeds, parentheses and what looks like other trees. Yet the text of a tree
says where it ends and what it is made of, since a string of a source holds no quote but behind a
backslash and neither words nor numbers hold what ends them: `dumps_tell_trees_apart`.
-/

namespace PrefixLang

theorem Binary64.mem_numeralChars_of_mem_listingText {x : Binary64} {c : Char}
    (h : c ∈ x.listingText.toList) : c ∈ numeralChars := by
  have htext : ∀ text ∈ ["NaN", "inf", "0"], text.toList ⊆ numeralChars := by decide
  unfold listingText at h
  split at h
  · exact htext "NaN" (by decide) h
  split at h
  · exact mem_numeralChars_of_mem_signed (fun _ hd => htext "inf" (by decide) hd) h
  split at h
  · exact mem_numeralChars_of_mem_signed (fun _ hd => htext "0" (by decide) hd) h
  · exact mem_numeralChars_of_mem_signed
      (fun _ hd => Decimal.mem_numeralChars_of_mem_positional hd) h

namespace Expr

open PlainText (laterLines forall₂_of_laterLines)

variable {ρ σ : Type} {names names' : NameTable}

/-- A list with its first word. -/
def inParens (word : String) (items : List Char) : List Char :=
  '(' :: (word.toList ++ ' ' :: (items ++ [')']))

def written (names : NameTable) : Expr ρ → List Char
  | number v _ => inParens "number" v.listingText.toList
  | string s _ => inParens "string" ('"' :: ((names.lookup s).toList ++ ['"']))
  | identifier x _ => inParens "ident" (names.lookup x).toList
  | assign x e _ => inParens "assign" ((names.lookup x).toList ++ ' ' :: e.written names)
  | print e _ => inParens "print" (e.written names)
  | wrap w e _ => inParens "wrapper" (w.word.toList ++ ' ' :: e.written names)
  | binary op l r _ =>
    inParens "binary" (op.symbol.toList ++ ' ' :: (l.written names ++ ' ' :: r.written names))
  | hole _ => []

def writtenLines (names : NameTable) : List (Expr ρ) → List Char
  | [] => []
  | e :: rest => e.written names ++ laterLines (written names) rest

def unlessMissing (text : List Char) : List ρ → Except ρ String
  | [] => .ok (String.ofList text)
  | reason :: _ => .error reason

theorem ok_eq_unlessMissing {text : String} {chars : List Char} (h : text.toList = chars) :
    (.ok text : Except ρ String) = unlessMissing chars [] := by
  rw [unlessMissing, ← h, String.ofList_toList]

theorem unlessMissing_bind {part chars : List Char} {missing more : List ρ}
    {rest : String → Except ρ String} (h : rest (String.ofList part) = unlessMissing chars more) :
    unlessMissing part missing >>= rest = unlessMissing chars (missing ++ more) := by
  cases missing with
  | nil => exact h
  | cons reason later => rfl

theorem text_eq (names : NameTable) (e : Expr ρ) :
    e.text names = unlessMissing (e.written names) e.holes := by
  induction e with
  | number v s | string t s | identifier x s =>
    refine ok_eq_unlessMissing ?_
    simp [written, inParens]
  | assign x e s ih | print e s ih | wrap w e s ih =>
    conv_rhs => rw [holes, ← List.append_nil e.holes]
    rw [text, ih]
    refine unlessMissing_bind (ok_eq_unlessMissing ?_)
    simp [written, inParens]
  | binary op l r s ihl ihr =>
    conv_rhs => rw [holes, ← List.append_nil r.holes]
    rw [text, ihl, ihr]
    refine unlessMissing_bind (unlessMissing_bind (ok_eq_unlessMissing ?_))
    simp [written, inParens]
  | hole reason => rfl

theorem dump_eq (names : NameTable) (trees : List (Expr ρ)) :
    dump names trees = unlessMissing (writtenLines names trees) (trees.flatMap holes) := by
  induction trees with
  | nil => rfl
  | cons e rest ih =>
    cases rest with
    | nil => simp [dump, writtenLines, laterLines, text_eq]
    | cons e' rest =>
      conv_rhs => rw [List.flatMap_cons, ← List.append_nil ((e' :: rest).flatMap holes)]
      rw [dump, ih, text_eq]
      · refine unlessMissing_bind (unlessMissing_bind (ok_eq_unlessMissing ?_))
        simp [writtenLines, laterLines]
      · exact List.cons_ne_nil _ _

/-- Trees that look alike: places are not seen, names by their texts only and numbers by what they
are written as. -/
inductive Resembles (names names' : NameTable) : Expr ρ → Expr σ → Prop where
  | number {v w s t} : v.listingText = w.listingText →
      Resembles names names' (.number v s) (.number w t)
  | string {x y s t} : names.lookup x = names'.lookup y →
      Resembles names names' (.string x s) (.string y t)
  | identifier {x y s t} : names.lookup x = names'.lookup y →
      Resembles names names' (.identifier x s) (.identifier y t)
  | assign {x y e e' s t} : names.lookup x = names'.lookup y → Resembles names names' e e' →
      Resembles names names' (.assign x e s) (.assign y e' t)
  | print {e e' s t} : Resembles names names' e e' →
      Resembles names names' (.print e s) (.print e' t)
  | wrap {w e e' s t} : Resembles names names' e e' →
      Resembles names names' (.wrap w e s) (.wrap w e' t)
  | binary {op l l' r r' s t} : Resembles names names' l l' → Resembles names names' r r' →
      Resembles names names' (.binary op l r s) (.binary op l' r' t)

/-- The names in a tree are spelled as the lexer reads them. -/
def Legible (names : NameTable) : Expr ρ → Prop
  | number _ _ | hole _ => True
  | string x _ => (names.lookup x).toList ∈ Pattern.contents
  | identifier x _ => (names.lookup x).toList.all isWordPart = true
  | assign x e _ => (names.lookup x).toList.all isWordPart = true ∧ e.Legible names
  | print e _ | wrap _ e _ => e.Legible names
  | binary _ l r _ => l.Legible names ∧ r.Legible names

def heading : Expr ρ → String
  | number _ _ => "number"
  | string _ _ => "string"
  | identifier _ _ => "ident"
  | assign _ _ _ => "assign"
  | print _ _ => "print"
  | wrap _ _ _ => "wrapper"
  | binary _ _ _ _ => "binary"
  | hole _ => ""

theorem Resembles.written_eq {e : Expr ρ} {e' : Expr σ} (h : Resembles names names' e e') :
    e.written names = e'.written names' := by
  induction h with
  | number hv => rw [written, written, hv]
  | string hx | identifier hx => rw [written, written, hx]
  | assign hx _ ih => rw [written, written, hx, ih]
  | print _ ih | wrap _ ih => rw [written, written, ih]
  | binary _ _ ihl ihr => rw [written, written, ihl, ihr]

theorem run_append_inj {p : Char → Bool} {a b rest rest' : List Char} {c : Char}
    (ha : a.all p = true) (hb : b.all p = true) (hc : p c = false)
    (h : a ++ c :: rest = b ++ c :: rest') : a = b ∧ rest = rest' := by
  have hends (rest : List Char) : ∀ x ∈ (c :: rest).head?, p x = false := by
    rintro x ⟨⟩
    exact hc
  have hleft := Piece.run_ends (List.all_eq_true.1 ha) (hends rest)
  have hright := Piece.run_ends (List.all_eq_true.1 hb) (hends rest')
  rw [h] at hleft
  exact ⟨hleft.1.symm.trans hright.1, (List.cons.inj (hleft.2.symm.trans hright.2)).2⟩

/-- No word, number or operator holds what ends it in a list. -/
def isPlain (c : Char) : Bool := c ∉ [' ', ')']

theorem plain_append_inj {a b : String} {rest rest' : List Char} {c : Char}
    (ha : a.toList.all isPlain = true) (hb : b.toList.all isPlain = true) (hc : isPlain c = false)
    (h : a.toList ++ c :: rest = b.toList ++ c :: rest') : a = b ∧ rest = rest' := by
  obtain ⟨htext, hrest⟩ := run_append_inj ha hb hc h
  exact ⟨String.toList_inj.1 htext, hrest⟩

theorem plain_of_word {word : String} (h : word.toList.all isWordPart = true) :
    word.toList.all isPlain = true := by
  rw [List.all_eq_true] at h ⊢
  intro c hc
  have hrange := wordPart_range (h c hc)
  simp only [isPlain, List.mem_cons, List.not_mem_nil, or_false, not_or, decide_eq_true_eq]
  constructor <;> rintro rfl <;> revert hrange <;> decide

theorem plain_listingText (v : Binary64) : v.listingText.toList.all isPlain = true := by
  have hall : numeralChars.all isPlain = true := by decide
  rw [List.all_eq_true]
  intro c hc
  exact List.all_eq_true.1 hall c (Binary64.mem_numeralChars_of_mem_listingText hc)

theorem plain_heading (e : Expr ρ) : e.heading.toList.all isPlain = true := by
  cases e <;> (simp only [heading]; decide)

theorem inParens_append (word : String) (items rest : List Char) :
    inParens word items ++ rest = '(' :: (word.toList ++ ' ' :: (items ++ ')' :: rest)) := by
  simp [inParens]

theorem heading_eq {e e' : Expr Empty} {rest rest' : List Char}
    (h : e.written names ++ rest = e'.written names' ++ rest') : e.heading = e'.heading := by
  have hlist : ∀ (names : NameTable) (e : Expr Empty),
      ∃ items, e.written names = inParens e.heading items := by
    intro names e
    cases e with
    | hole reason => exact reason.elim
    | _ => exact ⟨_, rfl⟩
  obtain ⟨items, hitems⟩ := hlist names e
  obtain ⟨items', hitems'⟩ := hlist names' e'
  rw [hitems, hitems', inParens_append, inParens_append] at h
  exact (plain_append_inj (plain_heading e) (plain_heading e') (by decide) (List.cons.inj h).2).1

theorem inParens_inj {word : String} {items items' rest rest' : List Char}
    (h : inParens word items ++ rest = inParens word items' ++ rest') :
    items ++ ')' :: rest = items' ++ ')' :: rest' := by
  rw [inParens_append, inParens_append] at h
  exact (List.cons.inj (List.append_cancel_left (List.cons.inj h).2)).2

/-- The text of a tree tells what the tree looks like, and where the text ends. -/
theorem written_append_inj {e e' : Expr Empty} {rest rest' : List Char}
    (he : e.Legible names) (he' : e'.Legible names')
    (h : e.written names ++ rest = e'.written names' ++ rest') :
    Resembles names names' e e' ∧ rest = rest' := by
  -- The first word tells which rule wrote the other tree, and the items tell the rest.
  induction e generalizing e' rest rest' with
  | number v s =>
    cases e' with
    | number w t =>
      obtain ⟨hv, hrest⟩ :=
        plain_append_inj (plain_listingText v) (plain_listingText w) (by decide) (inParens_inj h)
      exact ⟨.number hv, hrest⟩
    | _ => exact absurd (heading_eq h) (by simp [heading])
  | string x s =>
    cases e' with
    | string y t =>
      have hitems := inParens_inj h
      simp only [List.cons_append, List.append_assoc, List.nil_append] at hitems
      have hread := congrArg (Piece.closeString []) (List.cons.inj hitems).2
      rw [Pattern.closeString_append he, Pattern.closeString_append he'] at hread
      obtain ⟨hx, hrest⟩ := Prod.mk.inj (Option.some.inj hread)
      exact ⟨.string (String.toList_inj.1 hx), (List.cons.inj hrest).2⟩
    | _ => exact absurd (heading_eq h) (by simp [heading])
  | identifier x s =>
    cases e' with
    | identifier y t =>
      obtain ⟨hx, hrest⟩ := plain_append_inj (plain_of_word he) (plain_of_word he') (by decide)
        (inParens_inj h)
      exact ⟨.identifier hx, hrest⟩
    | _ => exact absurd (heading_eq h) (by simp [heading])
  | assign x e s ih =>
    cases e' with
    | assign y e' t =>
      have hitems := inParens_inj h
      simp only [List.append_assoc, List.cons_append] at hitems
      obtain ⟨hx, hvalue⟩ :=
        plain_append_inj (plain_of_word he.1) (plain_of_word he'.1) (by decide) hitems
      obtain ⟨hsame, hrest⟩ := ih he.2 he'.2 hvalue
      exact ⟨.assign hx hsame, (List.cons.inj hrest).2⟩
    | _ => exact absurd (heading_eq h) (by simp [heading])
  | print e s ih =>
    cases e' with
    | print e' t =>
      have he' : e'.Legible names' := he'
      obtain ⟨hsame, hrest⟩ := ih he he' (inParens_inj h)
      exact ⟨.print hsame, (List.cons.inj hrest).2⟩
    | _ => exact absurd (heading_eq h) (by simp [heading])
  | wrap w e s ih =>
    cases e' with
    | wrap w' e' t =>
      have hwords : ∀ w : Wrapper, w.word.toList.all isPlain = true := by
        intro w
        cases w <;> decide
      have hitems := inParens_inj h
      simp only [List.append_assoc, List.cons_append] at hitems
      obtain ⟨hw, hvalue⟩ := plain_append_inj (hwords w) (hwords w') (by decide) hitems
      obtain rfl : w = w' := by cases w <;> cases w' <;> first | rfl | simp [Wrapper.word] at hw
      have he' : e'.Legible names' := he'
      obtain ⟨hsame, hrest⟩ := ih he he' hvalue
      exact ⟨.wrap hsame, (List.cons.inj hrest).2⟩
    | _ => exact absurd (heading_eq h) (by simp [heading])
  | binary op l r s ihl ihr =>
    cases e' with
    | binary op' l' r' t =>
      have hsymbols : ∀ op : Operator, op.symbol.toList.all isPlain = true := by
        intro op
        cases op <;> decide
      have hitems := inParens_inj h
      simp only [List.append_assoc, List.cons_append] at hitems
      obtain ⟨hop, hleft⟩ := plain_append_inj (hsymbols op) (hsymbols op') (by decide) hitems
      obtain rfl : op = op' := by
        cases op <;> cases op' <;> first | rfl | simp [Operator.symbol] at hop
      obtain ⟨hl, hright⟩ := ihl he.1 he'.1 hleft
      obtain ⟨hr, hrest⟩ := ihr he.2 he'.2 (List.cons.inj hright).2
      exact ⟨.binary hl hr, (List.cons.inj hrest).2⟩
    | _ => exact absurd (heading_eq h) (by simp [heading])
  | hole reason => exact reason.elim

theorem written_ne_nil (e : Expr Empty) (names : NameTable) : e.written names ≠ [] := by
  cases e with
  | hole reason => exact reason.elim
  | _ => exact List.cons_ne_nil _ _

theorem writtenLines_eq_iff {forest forest' : Forest} (h : ∀ e ∈ forest, e.Legible names)
    (h' : ∀ e ∈ forest', e.Legible names') :
    writtenLines names forest = writtenLines names' forest'
      ↔ List.Forall₂ (Resembles names names') forest forest' := by
  constructor
  · intro htext
    cases forest with
    | nil =>
      cases forest' with
      | nil => exact .nil
      | cons e' rest' => exact absurd (List.append_eq_nil_iff.1 htext.symm).1 (written_ne_nil e' _)
    | cons e rest =>
      cases forest' with
      | nil => exact absurd (List.append_eq_nil_iff.1 htext).1 (written_ne_nil e _)
      | cons e' rest' =>
        -- A line feed in front makes the first lines later ones.
        exact forall₂_of_laterLines
          (fun e he e' he' _ _ => written_append_inj (h e he) (h' e' he'))
          (congrArg (List.cons '\n') htext)
  · intro hsame
    have hlater : ∀ {rest rest' : Forest}, List.Forall₂ (Resembles names names') rest rest' →
        laterLines (written names) rest = laterLines (written names') rest' := by
      intro rest rest' h
      induction h with
      | nil => rfl
      | cons he _ ih =>
        rw [laterLines, laterLines] at ih ⊢
        rw [List.flatMap_cons, List.flatMap_cons, he.written_eq, ih]
    cases hsame with
    | nil => rfl
    | cons he hrest => rw [writtenLines, writtenLines, he.written_eq, hlater hrest]

theorem dump_forest (names : NameTable) (forest : Forest) :
    dump names forest = .ok (String.ofList (writtenLines names forest)) := by
  rw [dump_eq]
  rcases forest.flatMap holes with _ | ⟨reason, _⟩
  · rfl
  · exact reason.elim

theorem dump_unfold_ofForest (names : NameTable) (forest : Forest) :
    dump names (Program.ofForest forest).unfold
      = .ok (String.ofList (writtenLines names forest)) := by
  rw [← Program.dump_eq, Program.dump_ofForest, dump_forest]
  rfl

end Expr

/-- The name of a token is spelled as the lexer reads it. -/
def Token.Legible (names : NameTable) (t : Token Name) : Prop :=
  match t.kind with
  | .string x => (names.lookup x).toList ∈ Pattern.contents
  | .identifier x => (names.lookup x).toList.all isWordPart = true
  | _ => True

theorem Derives.legible {names : NameTable} {us : List (Token Name)} {e : Expr Empty}
    (h : Derives us e) (ht : ∀ t ∈ us, t.Legible names) : e.Legible names := by
  induction h with
  | number v s => trivial
  | string x s | identifier x s => exact ht _ List.mem_cons_self
  | assign x s t _ ih =>
    have hvalue := fun u hu => ht u (List.mem_cons_of_mem _ (List.mem_cons_of_mem _ hu))
    exact ⟨ht _ List.mem_cons_self, ih hvalue⟩
  | print s _ ih | wrap w s _ ih => exact ih fun u hu => ht u (List.mem_cons_of_mem _ hu)
  | paren s t _ ih =>
    exact ih fun u hu => ht u (List.mem_cons_of_mem _ (List.mem_append_left _ hu))
  | binary op s _ _ ihl ihr =>
    have hleft := fun u hu => ht u (List.mem_cons_of_mem _ (List.mem_append_left _ hu))
    have hright := fun u hu => ht u (List.mem_cons_of_mem _ (List.mem_append_right _ hu))
    exact ⟨ihl hleft, ihr hright⟩

theorem Matches.identifier_all {text : List Char} {word : String}
    (h : Matches text (.token (.identifier word))) : word.toList.all isWordPart = true := by
  rw [← h.eq_of_identifier]
  generalize hk : TokenKind.identifier word = kind at h
  cases h with
  | fixed hmem =>
    have hfixed : ∀ p ∈ Pattern.fixed, p.2.contents? = none := by decide
    have hnone := hfixed _ hmem
    rw [← hk] at hnone
    cases hnone
  | number _ | string _ => cases hk
  | identifier hword _ =>
    obtain ⟨c, tail, rfl, hc, htail⟩ := Pattern.mem_run.1 hword
    rw [List.all_eq_true]
    intro d hd
    rcases List.mem_cons.1 hd with rfl | hd
    · exact wordPart_of_wordStart hc
    · exact htail d hd

namespace Session

variable {names names' : NameTable} {source : String} {forest : Forest}

theorem legible_of_mem (hn : names.WellFormed) {t : Token Name}
    (ht : t ∈ (tokens names source).1) : t.Legible (tokens names source).2 := by
  obtain ⟨l, hl, hkind, -⟩ := exists_lexeme hn ht
  have hmatch := (Lexeme.covers_text hl).1
  rw [hkind] at hmatch
  obtain ⟨kind, s⟩ := t
  cases kind with
  | string x => exact hmatch.contents_mem rfl
  | identifier x => exact hmatch.identifier_all
  | _ => trivial

theorem exists_of_read (hn : names.WellFormed) (h : read names source = (.ok forest, names')) :
    names' = (tokens names source).2 ∧
      ∃ n, Forest.statements (Span.point n) (tokens names source).1 = .ok forest := by
  rw [read_eq hn] at h
  obtain ⟨hresult, rfl⟩ := Prod.mk.inj h
  obtain ⟨n, -, hforest⟩ := Forest.ok_of_bind hresult
  refine ⟨rfl, n, ?_⟩
  rcases hread : Forest.statements (Span.point n) (tokens names source).1 with e | read
  all_goals
    rw [hread] at hforest
    cases hforest
  rfl

theorem legible_of_read (hn : names.WellFormed) (h : read names source = (.ok forest, names')) :
    ∀ e ∈ forest, e.Legible names' := by
  obtain ⟨rfl, n, hforest⟩ := exists_of_read hn h
  obtain ⟨parts, hd⟩ := Forest.statements_ok_iff.1 hforest
  intro e he
  obtain ⟨us, hus, hderives⟩ := hd.exists_derives he
  exact hderives.legible fun t ht => legible_of_mem hn (hus.subset ht)

end Session

theorem exists_of_dumpSource {source text : String} (h : dumpSource source = .ok text) :
    ∃ forest names, Session.read NameTable.initial source = (.ok forest, names) ∧
      text = String.ofList (Expr.writtenLines names forest) := by
  rw [dumpSource_eq] at h
  rcases hread : Session.read NameTable.initial source with ⟨failure | forest, names⟩
  · rw [hread] at h
    cases h
  · refine ⟨forest, names, rfl, ?_⟩
    simp only [hread, Except.map, Expr.dump_forest] at h
    exact (Except.ok.inj h).symm

/-- A dump determines the program: two sources that can be dumped have the same dump if and only if
their statements look alike one by one. The table of a source's program is dumped as its trees
are. -/
theorem dumps_tell_trees_apart {a b s t : String} (ha : dumpSource a = .ok s)
    (hb : dumpSource b = .ok t) :
    ∃ forest names forest' names', Session.read NameTable.initial a = (.ok forest, names) ∧
      Session.read NameTable.initial b = (.ok forest', names') ∧
      Expr.dump names (Program.ofForest forest).unfold = .ok s ∧
      Expr.dump names' (Program.ofForest forest').unfold = .ok t ∧
      (s = t ↔ List.Forall₂ (Expr.Resembles names names') forest forest') := by
  obtain ⟨forest, names, hread, rfl⟩ := exists_of_dumpSource ha
  obtain ⟨forest', names', hread', rfl⟩ := exists_of_dumpSource hb
  refine ⟨forest, names, forest', names', hread, hread', Expr.dump_unfold_ofForest names forest,
    Expr.dump_unfold_ofForest names' forest', ?_⟩
  rw [String.ofList_inj]
  exact Expr.writtenLines_eq_iff (Session.legible_of_read NameTable.initial_wellFormed hread)
    (Session.legible_of_read NameTable.initial_wellFormed hread')

/-- The string holds the text of a tree with its quotes, and neither the parentheses of the first
source nor the zero in front of its number is told by the dump. -/
theorem quotedTree_dumps_alike :
    dumpSource "x = (+ 07 \"(string \\\"a\\\")\")"
      = .ok "(assign x (binary + (number 7) (string \"(string \\\"a\\\")\")))" ∧
    dumpSource "x=+ 7\"(string \\\"a\\\")\"//"
      = .ok "(assign x (binary + (number 7) (string \"(string \\\"a\\\")\")))" ∧
    ∃ forest names forest' names',
      Session.read NameTable.initial "x = (+ 07 \"(string \\\"a\\\")\")"
        = (.ok forest, names) ∧
      Session.read NameTable.initial "x=+ 7\"(string \\\"a\\\")\"//" = (.ok forest', names') ∧
      List.Forall₂ (Expr.Resembles names names') forest forest' := by
  have ha : dumpSource "x = (+ 07 \"(string \\\"a\\\")\")"
      = .ok "(assign x (binary + (number 7) (string \"(string \\\"a\\\")\")))" := by decide +kernel
  have hb : dumpSource "x=+ 7\"(string \\\"a\\\")\"//"
      = .ok "(assign x (binary + (number 7) (string \"(string \\\"a\\\")\")))" := by decide +kernel
  obtain ⟨forest, names, forest', names', hread, hread', -, -, hiff⟩ :=
    dumps_tell_trees_apart ha hb
  exact ⟨ha, hb, forest, names, forest', names', hread, hread', hiff.1 rfl⟩

end PrefixLang
