import PrefixLang.Proofs.Joining
import PrefixLang.Proofs.Places
import PrefixLang.Proofs.Rendering
/-!
Results as plain text. Nothing is escaped in it, and a string may hold line feeds and what looks
like other outputs. The outputs can be told apart all the same: a string of a source holds no quote
but behind a backslash, and neither numbers nor keywords hold what ends them. So plain text can be
read back into the marks that markup shows, one output after the other, and both formats show as
much: `formats_tell_the_same_apart`.
-/

namespace PrefixLang

/-- A value that a source can have: if it is a text, it could stand between quotes. -/
def Value.Quotable : Value → Prop
  | .string s => s.toList ∈ Pattern.contents
  | .number _ | .empty => True

def Output.Quotable : Output → Prop
  | .empty => True
  | .value v => v.Quotable
  | .keyword word v => word.toList.all isWordPart = true ∧ v.Quotable

namespace PlainText

open Markup

/-- The characters of numbers and keywords. What may follow those is another character. -/
def isBare (c : Char) : Bool := c ∉ [' ', '"', '\n']

/-- What may follow an output: another line, or nothing. -/
def AtLineEnd (rest : List Char) : Prop := ∀ c ∈ rest.head?, c = '\n'

/-- The marks of the value at the front of a text, and what follows it. -/
def readValue (text : List Char) : List Mark × List Char :=
  match text with
  | '"' :: quoted =>
    match Piece.closeString [] quoted with
    | some (body, rest) => (span .string ('"' :: (body ++ ['"'])), rest)
    | none => ([], text)
  | _ =>
    let bare := text.takeWhile isBare
    (if bare.isEmpty then [] else span .number bare, text.dropWhile isBare)

/-- The marks of the output at the front of a text: what a space follows is a keyword. -/
def readOutput (text : List Char) : List Mark × List Char :=
  match text.dropWhile isBare with
  | ' ' :: behind =>
    let (marks, rest) := readValue behind
    (span .keyword (text.takeWhile isBare) ++ .char ' ' :: marks, rest)
  | _ => readValue text

variable {bare rest : List Char}

theorem isBare_of_wordPart {c : Char} (h : isWordPart c = true) : isBare c = true := by
  have hrange := wordPart_range h
  simp only [isBare, List.mem_cons, List.not_mem_nil, or_false, not_or, decide_eq_true_eq]
  refine ⟨?_, ?_, ?_⟩ <;> rintro rfl <;> revert hrange <;> decide

theorem isBare_of_mem_resultText {n : Binary64} {c : Char} (h : c ∈ n.resultText.toList) :
    isBare c = true := by
  have hall : numeralChars.all isBare = true := by decide
  exact List.all_eq_true.1 hall c (Binary64.mem_numeralChars_of_mem_resultText h)

theorem AtLineEnd.not_bare (h : AtLineEnd rest) : ∀ c ∈ rest.head?, isBare c = false := by
  intro c hc
  rw [h c hc]
  decide

theorem readValue_bare (hbare : ∀ c ∈ bare, isBare c = true) (hrest : AtLineEnd rest) :
    readValue (bare ++ rest) = (if bare.isEmpty then [] else span .number bare, rest) := by
  obtain ⟨htake, hdrop⟩ := Piece.run_ends hbare hrest.not_bare
  unfold readValue
  split
  · next quoted hq =>
    exfalso
    cases bare with
    | nil =>
      rw [List.nil_append] at hq
      exact absurd (hrest '"' (by rw [hq]; rfl)) (by decide)
    | cons c bare =>
      obtain ⟨rfl, -⟩ := List.cons.inj hq
      exact absurd (hbare _ List.mem_cons_self) (by decide)
  · rw [htake, hdrop]

theorem readOutput_eq_readValue {text : List Char}
    (h : (text.dropWhile isBare).head? ≠ some ' ') : readOutput text = readValue text := by
  unfold readOutput
  split
  · next behind hb =>
    rw [hb] at h
    exact absurd rfl h
  · rfl

theorem value_number (n : Binary64) :
    (Format.plain.value (.number n)).toList = n.resultText.toList := rfl

theorem value_string (s : String) :
    (Format.plain.value (.string s)).toList = '"' :: (s.toList ++ ['"']) := by
  simp [Format.value, Format.string, String.toList_append]

theorem readValue_append {v : Value} (hv : v.Quotable) (hrest : AtLineEnd rest) :
    readValue ((Format.plain.value v).toList ++ rest) = (v.marks, rest) := by
  cases v with
  | number n =>
    have hne : n.resultText.toList.isEmpty = false :=
      List.isEmpty_eq_false_iff.2 n.resultText_ne_nil
    rw [value_number, readValue_bare (fun _ => isBare_of_mem_resultText) hrest, hne]
    rfl
  | string s =>
    rw [value_string, List.cons_append, List.append_assoc, readValue, List.singleton_append,
      Pattern.closeString_append hv]
    rfl
  | empty => exact readValue_bare (List.forall_mem_nil _) hrest

theorem readOutput_value (v : Value) (hrest : AtLineEnd rest) :
    readOutput ((Format.plain.value v).toList ++ rest)
      = readValue ((Format.plain.value v).toList ++ rest) := by
  have hspace : rest.head? ≠ some ' ' := fun h => absurd (hrest ' ' h) (by decide)
  apply readOutput_eq_readValue
  cases v with
  | number n =>
    rwa [value_number, (Piece.run_ends (fun _ => isBare_of_mem_resultText) hrest.not_bare).2]
  | string s =>
    have hquote : isBare '"' = false := by decide
    rw [value_string, List.cons_append, List.dropWhile_cons, hquote]
    simp
  | empty =>
    rw [← List.nil_append rest] at hspace
    rwa [← (Piece.run_ends (List.forall_mem_nil _) hrest.not_bare).2] at hspace

/-- An output is read back whatever lines follow it. -/
theorem readOutput_append {x : Output} (hx : x.Quotable) (hrest : AtLineEnd rest) :
    readOutput ((Format.plain.output x).toList ++ rest) = (x.marks, rest) := by
  cases x with
  | empty =>
    exact (readOutput_value .empty hrest).trans (readValue_append (v := .empty) trivial hrest)
  | value v => exact (readOutput_value v hrest).trans (readValue_append hx hrest)
  | keyword word v =>
    obtain ⟨hword, hv⟩ := hx
    have hline : (Format.plain.output (.keyword word v)).toList ++ rest
        = word.toList ++ (' ' :: ((Format.plain.value v).toList ++ rest)) := by
      simp [Format.output, Format.keyword, String.toList_append]
    have hspace : ∀ c ∈ (' ' :: ((Format.plain.value v).toList ++ rest)).head?,
        isBare c = false := by
      rintro c ⟨⟩
      decide
    have hbare : ∀ c ∈ word.toList, isBare c = true := fun c hc =>
      isBare_of_wordPart (List.all_eq_true.1 hword c hc)
    obtain ⟨htake, hdrop⟩ := Piece.run_ends hbare hspace
    rw [hline, readOutput, htake, hdrop]
    simp only [readValue_append hv hrest]
    rfl

-- A string that holds a line feed and what looks like a number.
example : readOutput "print \"a\n3\"\n4".toList
    = (span .keyword "print".toList ++ .char ' ' :: span .string "\"a\n3\"".toList,
      "\n4".toList) := by decide

/-- What follows the first line. -/
def laterLines {α : Type} (line : α → List Char) (xs : List α) : List Char :=
  xs.flatMap fun x => '\n' :: line x

theorem atLineEnd_laterLines {α : Type} (line : α → List Char) (xs : List α) :
    AtLineEnd (laterLines line xs) := by
  cases xs with
  | nil => simp [AtLineEnd, laterLines]
  | cons x xs => simp [AtLineEnd, laterLines]

/-- Lines can be told apart one by one, if each of them says where it ends. -/
theorem forall₂_of_laterLines {α β : Type} {R : α → β → Prop} {line : α → List Char}
    {line' : β → List Char} {xs : List α} {ys : List β}
    (hline : ∀ x ∈ xs, ∀ y ∈ ys, ∀ xs' ys',
      line x ++ laterLines line xs' = line' y ++ laterLines line' ys' →
        R x y ∧ laterLines line xs' = laterLines line' ys')
    (h : laterLines line xs = laterLines line' ys) : List.Forall₂ R xs ys := by
  induction xs generalizing ys with
  | nil =>
    cases ys with
    | nil => exact .nil
    | cons y ys => cases h
  | cons x xs ih =>
    cases ys with
    | nil => cases h
    | cons y ys =>
      obtain ⟨hfirst, hlater⟩ :=
        hline x List.mem_cons_self y List.mem_cons_self xs ys (List.cons.inj h).2
      refine .cons hfirst (ih (fun x hx y hy => ?_) hlater)
      exact hline x (List.mem_cons_of_mem _ hx) y (List.mem_cons_of_mem _ hy)

def outputChars (x : Output) : List Char := (Format.plain.output x).toList

theorem render_cons (x : Output) (outputs : List Output) :
    (Format.plain.render (x :: outputs)).toList
      = outputChars x ++ laterLines outputChars outputs := by
  induction outputs generalizing x with
  | nil =>
    rw [laterLines, List.flatMap_nil, List.append_nil, Format.render, List.map_singleton,
      String.intercalate_singleton, outputChars]
  | cons y outputs ih =>
    have hline : laterLines outputChars (y :: outputs)
        = '\n' :: (outputChars y ++ laterLines outputChars outputs) := rfl
    rw [hline, ← ih, ← List.singleton_append,
      Format.render_append .plain (List.cons_ne_nil _ _) (List.cons_ne_nil _ _)]
    simp [Format.render, Format.separator, String.toList_append, outputChars]

theorem render_slots (outputs : List Output) :
    Format.plain.render (Output.slots outputs) = Format.plain.render outputs := by
  cases outputs <;> rfl

theorem marks_of_lines {x y : Output} {xs ys : List Output} (hx : x.Quotable) (hy : y.Quotable)
    (h : outputChars x ++ laterLines outputChars xs = outputChars y ++ laterLines outputChars ys) :
    x.marks = y.marks ∧ laterLines outputChars xs = laterLines outputChars ys := by
  have hread := congrArg readOutput h
  rw [outputChars, outputChars, readOutput_append hx (atLineEnd_laterLines _ xs),
    readOutput_append hy (atLineEnd_laterLines _ ys)] at hread
  exact Prod.ext_iff.1 hread

theorem quotable_slots {outputs : List Output} (h : ∀ x ∈ outputs, x.Quotable) :
    ∀ x ∈ Output.slots outputs, x.Quotable := by
  cases outputs with
  | nil =>
    intro x hx
    rw [List.mem_singleton.1 hx]
    trivial
  | cons y outputs => exact h

theorem output_eq_of_resembles {x y : Output} (h : x.Resembles y) :
    Format.plain.output x = Format.plain.output y := by
  have hvalue : ∀ {v w : Value}, v.Resembles w → Format.plain.value v = Format.plain.value w := by
    rintro v w (h | s | _)
    · exact h
    · rfl
    · rfl
  cases h with
  | value h => exact hvalue h
  | keyword word h => rw [Format.output, Format.output, hvalue h]
  | empty | emptyValue | valueEmpty => rfl

end PlainText

open PlainText

theorem Format.plain_render_eq_iff {xs ys : List Output} (hxs : ∀ x ∈ xs, x.Quotable)
    (hys : ∀ y ∈ ys, y.Quotable) :
    plain.render xs = plain.render ys
      ↔ List.Forall₂ Output.Resembles (Output.slots xs) (Output.slots ys) := by
  constructor
  · intro h
    rw [← render_slots xs, ← render_slots ys, ← String.toList_inj] at h
    rw [← Output.map_marks_eq_iff]
    have hxs' := quotable_slots hxs
    have hys' := quotable_slots hys
    obtain ⟨x, xs', hx⟩ := List.exists_cons_of_ne_nil (Output.slots_ne_nil xs)
    obtain ⟨y, ys', hy⟩ := List.exists_cons_of_ne_nil (Output.slots_ne_nil ys)
    rw [hx] at h hxs' ⊢
    rw [hy] at h hys' ⊢
    -- A line feed in front makes the first lines later ones.
    rw [render_cons, render_cons] at h
    have hmarks := forall₂_of_laterLines
      (fun x hx y hy _ _ => marks_of_lines (hxs' x hx) (hys' y hy)) (congrArg (List.cons '\n') h)
    rwa [← List.forall₂_eq_eq_eq, List.forall₂_map_left_iff, List.forall₂_map_right_iff]
  · intro h
    rw [← render_slots xs, ← render_slots ys, render, render]
    have hlines : (Output.slots xs).map plain.output = (Output.slots ys).map plain.output := by
      rw [← List.forall₂_eq_eq_eq, List.forall₂_map_left_iff, List.forall₂_map_right_iff]
      exact h.imp fun _ _ => output_eq_of_resembles
    rw [hlines]

theorem Format.render_eq_iff (format : Format) {xs ys : List Output}
    (hxs : ∀ x ∈ xs, x.Quotable) (hys : ∀ y ∈ ys, y.Quotable) :
    format.render xs = format.render ys
      ↔ List.Forall₂ Output.Resembles (Output.slots xs) (Output.slots ys) := by
  cases format with
  | html => exact html_render_eq_iff
  | plain => exact plain_render_eq_iff hxs hys

theorem Pattern.mem_contents_of_word {s : List Char} (h : ∀ c ∈ s, isWordPart c = true) :
    s ∈ contents := by
  induction s with
  | nil => exact nil_mem_contents
  | cons c s ih =>
    have hc := h c List.mem_cons_self
    refine plain_mem_contents ?_ ?_ (ih fun d hd => h d (List.mem_cons_of_mem _ hd))
    · rintro rfl
      exact absurd hc (by decide)
    · rintro rfl
      exact absurd hc (by decide)

theorem Matches.contents_mem {text : List Char} {kind : TokenKind String} {s : String}
    (h : Matches text (.token kind)) (hs : kind.contents? = some s) :
    s.toList ∈ Pattern.contents := by
  have hfixed : ∀ p ∈ Pattern.fixed, p.2.contents? = none := by decide
  cases h with
  | fixed hmem =>
    rw [hfixed _ hmem] at hs
    cases hs
  | number _ => cases hs
  | @string body hbody =>
    obtain ⟨body', hb, he⟩ := Pattern.mem_string.1 hbody
    obtain rfl := List.append_cancel_right (List.cons.inj he).2
    obtain rfl := Option.some.inj hs
    rwa [String.toList_ofList]
  | identifier hword _ =>
    obtain ⟨c, tail, rfl, hc, htail⟩ := Pattern.mem_run.1 hword
    obtain rfl := Option.some.inj hs
    rw [String.toList_ofList]
    apply Pattern.mem_contents_of_word
    rintro d hd
    rcases List.mem_cons.1 hd with rfl | hd
    · exact wordPart_of_wordStart hc
    · exact htail d hd

namespace Environment

def Quotable (env : Environment) : Prop := ∀ x v, env.lookup x = some v → v.Quotable

theorem quotable_empty : empty.Quotable := by
  intro x v h
  rw [lookup_empty] at h
  cases h

theorem Quotable.define {env : Environment} (h : env.Quotable) (x : Name) {v : Value}
    (hv : v.Quotable) : (env.define x v).Quotable := by
  intro y w hw
  rw [lookup_define] at hw
  split at hw
  · exact Option.some.inj hw ▸ hv
  · exact h y w hw

end Environment

namespace Evaluation

variable {ρ α β : Type} {names : NameTable} {env : Environment}

/-- A result, if there is one, and bindings that a source can have. -/
def Keeps (P : α → Prop) (r : Outcome ρ α) : Prop := (∀ v, r.1 = .ok v → P v) ∧ r.2.Quotable

theorem Keeps.ok {P : α → Prop} {v : α} (hv : P v) (henv : env.Quotable) :
    Keeps (ρ := ρ) P (.ok v, env) := by
  refine ⟨?_, henv⟩
  rintro w ⟨⟩
  exact hv

theorem Keeps.error {P : α → Prop} (stop : Stop ρ) (henv : env.Quotable) :
    Keeps P (.error stop, env) := by
  refine ⟨?_, henv⟩
  rintro w ⟨⟩

theorem Keeps.andThen {P : α → Prop} {Q : β → Prop} {r : Outcome ρ α}
    {next : α → Environment → Outcome ρ β} (h : Keeps P r)
    (hn : ∀ v env, P v → env.Quotable → Keeps Q (next v env)) : Keeps Q (andThen r next) := by
  obtain ⟨stop | v, env⟩ := r
  · exact .error stop h.2
  · exact hn v env (h.1 v rfl) h.2

theorem quotable_of_apply {op : Operator} {left right v : Value}
    (h : op.apply left right = .ok v) : v.Quotable := by
  unfold Operator.apply at h
  split at h
  · cases h
  · cases h
  · next x y _ _ =>
    rcases hn : op.onNumbers x y with e | n
    · rw [hn] at h
      cases h
    · rw [hn] at h
      obtain rfl := Except.ok.inj h
      trivial

theorem keeps_operate (op : Operator) (leftSpan rightSpan : Span) (v w : Value)
    (henv : env.Quotable) : Keeps (ρ := ρ) Value.Quotable
      (operate op leftSpan rightSpan v w, env) := by
  rw [operate]
  rcases happly : op.apply v w with e | result
  · exact .error _ henv
  · exact .ok (quotable_of_apply happly) henv

theorem keeps_value {e : Expr ρ}
    (hn : ∀ x ∈ e.names, (names.lookup x).toList ∈ Pattern.contents) (henv : env.Quotable) :
    Keeps Value.Quotable (value names e env) := by
  induction e generalizing env with
  | number v s => exact .ok trivial henv
  | string t s => exact .ok (hn t List.mem_cons_self) henv
  | identifier x s =>
    rw [value]
    rcases hx : env.lookup x with _ | v
    · exact .error _ henv
    · exact .ok (henv x v hx) henv
  | assign x e s ih =>
    refine (ih (fun y hy => hn y (List.mem_cons_of_mem _ hy)) henv).andThen ?_
    intro v env hv henv
    exact .ok trivial (henv.define x hv)
  | print e s ih | wrap w e s ih => exact ih hn henv
  | binary op l r s ihl ihr =>
    refine (ihl (fun x hx => hn x (List.mem_append_left _ hx)) henv).andThen ?_
    intro v env _ henv
    refine (ihr (fun x hx => hn x (List.mem_append_right _ hx)) henv).andThen ?_
    intro w env _ henv
    exact keeps_operate op _ _ v w henv
  | hole reason => exact .error _ henv

theorem quotable_shows (e : Expr ρ) {v : Value} (hv : v.Quotable) : (shows e v).Quotable := by
  cases e with
  | print e s => exact ⟨by decide, hv⟩
  | wrap w e s => exact ⟨by cases w <;> decide, hv⟩
  | _ => cases v <;> exact hv

theorem keeps_evaluate {trees : List (Expr ρ)}
    (hn : ∀ e ∈ trees, ∀ x ∈ e.names, (names.lookup x).toList ∈ Pattern.contents)
    (henv : env.Quotable) :
    Keeps (fun outputs => ∀ x ∈ outputs, x.Quotable) (evaluate names trees env) := by
  induction trees generalizing env with
  | nil =>
    rw [evaluate]
    exact .ok (List.forall_mem_nil _) henv
  | cons e rest ih =>
    rw [evaluate]
    refine (keeps_value (hn e List.mem_cons_self) henv).andThen ?_
    intro v env hv henv
    refine (ih (fun e he => hn e (List.mem_cons_of_mem _ he)) henv).andThen ?_
    intro outputs env houtputs henv
    exact .ok (List.forall_mem_cons.2 ⟨quotable_shows e hv, houtputs⟩) henv

end Evaluation

namespace Session

theorem keeps_run {s : Session} (h : s.WellFormed) (hs : s.bindings.Quotable) (source : String) :
    (∀ outputs, (s.evaluate source).1 = .ok outputs → ∀ x ∈ outputs, x.Quotable) ∧
      (s.evaluate source).2.bindings.Quotable := by
  obtain ⟨failure, he⟩ | ⟨n, forest, outputs, env, hscan, hread, hrun, he⟩ :=
    evaluate_cases h source
  · rw [he]
    exact ⟨fun _ h => (by cases h), hs⟩
  · have hnames : ∀ e ∈ forest, ∀ x ∈ e.names,
        ((tokens s.names source).2.lookup x).toList ∈ Pattern.contents := by
      intro e he x hx
      obtain ⟨t, ht, hc⟩ := Forest.names_of_statements hread e he x hx
      obtain ⟨l, hl, hkind, -⟩ := exists_lexeme h.names ht
      apply (Lexeme.covers_text hl).1.contents_mem
      rw [hkind, TokenKind.contents?_map, hc, Option.map_some]
    have hkeeps := Evaluation.keeps_evaluate hnames hs
    rw [hrun] at hkeeps
    rw [he]
    refine ⟨?_, hkeeps.2⟩
    rintro _ ⟨⟩
    exact hkeeps.1 outputs rfl

/-- Results between which no format tells: the same failure, or outputs that look alike one by
one. -/
inductive ShowTheSame : Except Failure (List Output) → Except Failure (List Output) → Prop where
  | failed (failure : Failure) : ShowTheSame (.error failure) (.error failure)
  | shown {xs ys : List Output} :
      List.Forall₂ Output.Resembles (Output.slots xs) (Output.slots ys) →
      ShowTheSame (.ok xs) (.ok ys)

theorem run_eq_iff {s t : Session} (hs : s.WellFormed) (ht : t.WellFormed)
    (hbound : s.bindings.Quotable) (hbound' : t.bindings.Quotable) (format : Format)
    (a b : String) :
    (s.run format a).1 = (t.run format b).1 ↔ ShowTheSame (s.evaluate a).1 (t.evaluate b).1 := by
  have hleft := (keeps_run hs hbound a).1
  have hright := (keeps_run ht hbound' b).1
  have hrun : ∀ (u : Session) (source : String),
      (u.run format source).1 = (u.evaluate source).1.map format.render := fun _ _ => rfl
  rw [hrun, hrun]
  rcases hxs : (s.evaluate a).1 with e | xs <;> rcases hys : (t.evaluate b).1 with e' | ys
  · constructor
    · rintro ⟨⟩
      exact .failed e
    · rintro ⟨⟩
      rfl
  · constructor <;> rintro ⟨⟩
  · constructor <;> rintro ⟨⟩
  · -- Only here is there anything to read.
    have hiff := format.render_eq_iff (hleft xs hxs) (hright ys hys)
    constructor
    · intro h
      exact .shown (hiff.1 (Except.ok.inj h))
    · rintro (_ | h)
      exact congrArg Except.ok (hiff.2 h)

end Session

/-- Both formats carry the same information: the runs of two sources that are told apart by their
markup are told apart by their plain text, and the other way round. Each format tells apart all but
what looks alike one by one. -/
theorem formats_tell_the_same_apart (a b : String) :
    (runSource .plain a = runSource .plain b ↔ runSource .html a = runSource .html b) ∧
    ∀ format, runSource format a = runSource format b ↔
      Session.ShowTheSame (Session.initial.evaluate a).1 (Session.initial.evaluate b).1 := by
  have hiff : ∀ format, runSource format a = runSource format b ↔
      Session.ShowTheSame (Session.initial.evaluate a).1 (Session.initial.evaluate b).1 :=
    fun format => Session.run_eq_iff Session.initial_wellFormed Session.initial_wellFormed
      Environment.quotable_empty Environment.quotable_empty format a b
  exact ⟨(hiff .plain).trans (hiff .html).symm, hiff⟩

end PrefixLang
