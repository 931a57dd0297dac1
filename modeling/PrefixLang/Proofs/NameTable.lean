import PrefixLang.Token
import Mathlib.Tactic.Common
import Mathlib.Data.List.Infix
/-!
Name tables over time. A table grows only at its end, so a name keeps its text, and tokens that were
named one after the other can all be spelled again with the last table.
-/

namespace PrefixLang

namespace NameTable

variable {t u v : NameTable} {x y : Name} {text : String}

/-- The numbers are those of the texts. -/
def WellFormed (t : NameTable) : Prop :=
  ∀ (text : String) (i : ℕ), t.numbers[text]? = some i ↔ t.texts[i]? = some text

/-- Whether a table has given out a name. -/
def Knows (t : NameTable) (x : Name) : Prop := x.index < t.texts.size

def name? (t : NameTable) (text : String) : Option Name := t.numbers[text]?.map Name.mk

/-- Whether a table is a later state of another one. -/
def Extends (u t : NameTable) : Prop := t.texts.toList <+: u.texts.toList

theorem knows_of_name? (h : t.WellFormed) (hx : t.name? text = some x) :
    t.Knows x ∧ t.lookup x = text := by
  obtain ⟨i, hi, rfl⟩ := Option.map_eq_some_iff.1 hx
  have hget := (h text i).1 hi
  obtain ⟨hlt, -⟩ := Array.getElem?_eq_some_iff.1 hget
  exact ⟨hlt, by simp [lookup, hget]⟩

theorem name?_lookup (h : t.WellFormed) (hx : t.Knows x) : t.name? (t.lookup x) = some x := by
  have hget : t.texts[x.index]? = some (t.lookup x) := by
    simp [lookup, Array.getElem?_eq_getElem hx]
  simp [name?, (h _ _).2 hget]

theorem lookup_injective (h : t.WellFormed) (hx : t.Knows x) (hy : t.Knows y)
    (he : t.lookup x = t.lookup y) : x = y := by
  have hname := name?_lookup h hx
  rw [he, name?_lookup h hy] at hname
  exact (Option.some.inj hname).symm

theorem Extends.refl (t : NameTable) : t.Extends t := List.prefix_rfl

theorem Extends.trans (h : v.Extends u) (k : u.Extends t) : v.Extends t := List.IsPrefix.trans k h

theorem Extends.knows (h : u.Extends t) (hx : t.Knows x) : u.Knows x := by
  have hle := h.length_le
  simp only [Knows, Array.length_toList] at *
  omega

theorem Extends.lookup (h : u.Extends t) (hx : t.Knows x) : u.lookup x = t.lookup x := by
  obtain ⟨more, hm⟩ := h
  rw [NameTable.lookup, NameTable.lookup, ← Array.getElem?_toList, ← Array.getElem?_toList, ← hm,
    List.getElem?_append_left (by simpa [Knows] using hx)]

theorem Extends.name? (h : u.Extends t) (ht : t.WellFormed) (hu : u.WellFormed)
    (hx : t.name? text = some x) : u.name? text = some x := by
  obtain ⟨hk, rfl⟩ := knows_of_name? ht hx
  rw [← h.lookup hk]
  exact name?_lookup hu (h.knows hk)

theorem intern_of_some (h : t.name? text = some x) : t.intern text = (x, t) := by
  obtain ⟨i, hi, rfl⟩ := Option.map_eq_some_iff.1 h
  rw [intern, hi]

theorem intern_of_none (h : t.name? text = none) : t.intern text = (⟨t.texts.size⟩,
    ⟨t.texts.push text, t.numbers.insert text t.texts.size⟩) := by
  rw [intern, Option.map_eq_none_iff.1 h]

theorem intern_extends (t : NameTable) (text : String) : (t.intern text).2.Extends t := by
  rcases h : t.name? text with _ | x
  · rw [intern_of_none h]
    exact ⟨[text], by simp⟩
  · rw [intern_of_some h]
    exact Extends.refl t

theorem name?_intern (t : NameTable) (text other : String) :
    (t.intern text).2.name? other = if text = other then some (t.intern text).1
      else t.name? other := by
  rcases h : t.name? text with _ | x
  · rw [intern_of_none h]
    simp only [name?, Std.TreeMap.getElem?_insert, Std.compare_eq_iff_eq]
    split <;> rfl
  · rw [intern_of_some h]
    split
    · next he => rw [← he, h]
    · rfl

theorem intern_wellFormed (h : t.WellFormed) (text : String) : (t.intern text).2.WellFormed := by
  rcases hn : t.name? text with _ | x
  · rw [intern_of_none hn]
    intro s i
    have hnew : t.texts[i]? ≠ some text := by
      intro hi
      rw [name?, (h text i).2 hi] at hn
      cases hn
    simp only [Std.TreeMap.getElem?_insert, Std.compare_eq_iff_eq, Array.getElem?_push]
    by_cases hs : text = s
    · subst hs
      simp only [↓reduceIte, Option.some.injEq]
      constructor
      · rintro rfl
        rw [if_pos rfl]
      · intro hi
        by_contra hne
        rw [if_neg (Ne.symm hne)] at hi
        exact hnew hi
    · rw [if_neg hs, h s i]
      by_cases hi : i = t.texts.size
      · simp [hi, hs]
      · rw [if_neg hi]
  · rwa [intern_of_some hn]

theorem intern_knows (h : t.WellFormed) (text : String) :
    (t.intern text).2.Knows (t.intern text).1 ∧
      (t.intern text).2.lookup (t.intern text).1 = text := by
  have hn := name?_intern t text text
  rw [if_pos rfl] at hn
  exact knows_of_name? (intern_wellFormed h text) hn

theorem initial_wellFormed : initial.WellFormed := by
  have main : ∀ (texts : List String) (t : NameTable), t.WellFormed →
      (texts.foldl (fun table text => (table.intern text).2) t).WellFormed := by
    intro texts
    induction texts with
    | nil => exact fun t h => h
    | cons text rest ih => exact fun t h => ih _ (intern_wellFormed h text)
  refine main reserved empty fun text i => ?_
  simp [empty]

end NameTable

def TokenKind.map {τ σ : Type} (f : τ → σ) : TokenKind τ → TokenKind σ
  | .number v => .number v
  | .string s => .string (f s)
  | .identifier x => .identifier (f x)
  | .letWord => .letWord
  | .printWord => .printWord
  | .wrapper w => .wrapper w
  | .arrow => .arrow
  | .operator op => .operator op
  | .equals => .equals
  | .leftParen => .leftParen
  | .rightParen => .rightParen
  | .endOfInput => .endOfInput

def TokenKind.contents? {τ : Type} : TokenKind τ → Option τ
  | .string s | .identifier s => some s
  | _ => none

def Token.map {τ σ : Type} (f : τ → σ) (g : Span → Span) (token : Token τ) : Token σ :=
  ⟨token.kind.map f, g token.span⟩

namespace Token

/-- A token with the texts of its names. -/
def spell (names : NameTable) (token : Token Name) : Token String := token.map names.lookup id

def NamedBy (names : NameTable) (token : Token Name) : Prop :=
  ∀ x, token.kind.contents? = some x → names.Knows x

def internOne (names : NameTable) (token : Token String) : Token Name × NameTable :=
  (⟨(token.kind.intern names).1, token.span⟩, (token.kind.intern names).2)

def internStep (acc : Array (Token Name) × NameTable) (token : Token String) :
    Array (Token Name) × NameTable :=
  (acc.1.push (internOne acc.2 token).1, (internOne acc.2 token).2)

theorem internAll_eq_foldl (names : NameTable) (tokens : List (Token String)) :
    internAll names tokens = ((tokens.foldl internStep (#[], names)).1.toList,
      (tokens.foldl internStep (#[], names)).2) := rfl

theorem foldl_internStep (done : Array (Token Name)) (names : NameTable)
    (tokens : List (Token String)) :
    tokens.foldl internStep (done, names) = (done ++ (internAll names tokens).1.toArray,
      (internAll names tokens).2) := by
  induction tokens generalizing done names with
  | nil => simp [internAll_eq_foldl]
  | cons token rest ih =>
    have hfirst := ih (#[].push (internOne names token).1) (internOne names token).2
    rw [internAll_eq_foldl names]
    simp only [List.foldl_cons, internStep]
    rw [ih, hfirst]
    simp

theorem internAll_nil (names : NameTable) : internAll names [] = ([], names) := rfl

theorem internAll_cons (names : NameTable) (token : Token String) (rest : List (Token String)) :
    internAll names (token :: rest) =
      ((internOne names token).1 :: (internAll (internOne names token).2 rest).1,
        (internAll (internOne names token).2 rest).2) := by
  rw [internAll_eq_foldl, List.foldl_cons, internStep, foldl_internStep]
  simp

theorem internAll_append (names : NameTable) (tokens more : List (Token String)) :
    internAll names (tokens ++ more) =
      ((internAll names tokens).1 ++ (internAll (internAll names tokens).2 more).1,
        (internAll (internAll names tokens).2 more).2) := by
  induction tokens generalizing names with
  | nil => simp [internAll_nil]
  | cons token rest ih => simp [internAll_cons, ih]

theorem length_internAll (names : NameTable) (tokens : List (Token String)) :
    (internAll names tokens).1.length = tokens.length := by
  induction tokens generalizing names with
  | nil => rfl
  | cons token rest ih => rw [internAll_cons, List.length_cons, ih, List.length_cons]

theorem internOne_extends (names : NameTable) (token : Token String) :
    (internOne names token).2.Extends names := by
  obtain ⟨kind, s⟩ := token
  cases kind with
  | string text | identifier text => exact NameTable.intern_extends names text
  | _ => exact .refl names

theorem internOne_wellFormed {names : NameTable} (h : names.WellFormed) (token : Token String) :
    (internOne names token).2.WellFormed := by
  obtain ⟨kind, s⟩ := token
  cases kind with
  | string text | identifier text => exact NameTable.intern_wellFormed h text
  | _ => exact h

theorem internAll_extends (names : NameTable) (tokens : List (Token String)) :
    (internAll names tokens).2.Extends names := by
  induction tokens generalizing names with
  | nil => exact .refl names
  | cons token rest ih =>
    rw [internAll_cons]
    exact (ih _).trans (internOne_extends names token)

theorem internAll_wellFormed {names : NameTable} (h : names.WellFormed)
    (tokens : List (Token String)) : (internAll names tokens).2.WellFormed := by
  induction tokens generalizing names with
  | nil => exact h
  | cons token rest ih =>
    rw [internAll_cons]
    exact ih (internOne_wellFormed h token)

theorem spell_of_extends {names later : NameTable} {token : Token Name}
    (h : later.Extends names) (hn : token.NamedBy names) :
    token.NamedBy later ∧ token.spell later = token.spell names := by
  refine ⟨fun x hx => h.knows (hn x hx), ?_⟩
  obtain ⟨kind, s⟩ := token
  cases kind with
  | string x | identifier x => simp [spell, map, TokenKind.map, h.lookup (hn x rfl)]
  | _ => rfl

theorem spell_internOne {names : NameTable} (h : names.WellFormed) (token : Token String) :
    (internOne names token).1.NamedBy (internOne names token).2 ∧
      (internOne names token).1.spell (internOne names token).2 = token := by
  obtain ⟨kind, s⟩ := token
  cases kind with
  | string text | identifier text =>
    obtain ⟨hk, hl⟩ := NameTable.intern_knows h text
    refine ⟨?_, ?_⟩
    · rintro x ⟨rfl⟩
      exact hk
    · simp only [spell, internOne, map, TokenKind.intern, TokenKind.map, hl, id]
  | _ => exact ⟨fun x hx => (nomatch hx), rfl⟩

theorem spell_internAll {names : NameTable} (h : names.WellFormed) (tokens : List (Token String)) :
    (∀ t ∈ (internAll names tokens).1, t.NamedBy (internAll names tokens).2) ∧
      (internAll names tokens).1.map (spell (internAll names tokens).2) = tokens := by
  induction tokens generalizing names with
  | nil => exact ⟨fun t ht => (nomatch ht), rfl⟩
  | cons token rest ih =>
    obtain ⟨hn, hs⟩ := spell_internOne h token
    obtain ⟨hnamed, hspell⟩ := ih (internOne_wellFormed h token)
    obtain ⟨hn', hs'⟩ := spell_of_extends (internAll_extends _ rest) hn
    rw [internAll_cons]
    refine ⟨?_, ?_⟩
    · intro t ht
      rcases List.mem_cons.1 ht with rfl | ht
      · exact hn'
      · exact hnamed t ht
    · rw [List.map_cons, hspell, hs', hs]

end Token

end PrefixLang
