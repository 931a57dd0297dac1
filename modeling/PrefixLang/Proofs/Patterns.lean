import PrefixLang.Lexeme
import Mathlib.Computability.Language
import Mathlib.Data.List.TakeWhile
/-!
The texts of pieces as regular languages. A piece is the longest text at its place that lies in one
of them, and the reader of pieces finds it: `longest_iff_read?`.
-/

namespace PrefixLang

open Computability

namespace Pattern

def one (p : Char → Prop) : Language Char := {s | ∃ c, p c ∧ s = [c]}

/-- One character of a first class, then any number of a second one. -/
def run (p q : Char → Prop) : Language Char := one p * (one q)∗

def exactly (word : String) : Language Char := {word.toList}

def separator : Language Char := run (isSeparator ·) (isSeparator ·)
def comment : Language Char := exactly "//" * (one (· ≠ '\n'))∗
def digits : Language Char := run (·.isDigit) (·.isDigit)
def word : Language Char := run (isWordStart ·) (isWordPart ·)

/-- What may stand between quotes: a backslash with any character but a line feed behind it, or one
character that is neither a backslash nor a quote; and any number of these. -/
def contents : Language Char :=
  (exactly "\\" * one (· ≠ '\n') + one (fun c => c ≠ '\\' ∧ c ≠ '"'))∗

def string : Language Char := exactly "\"" * contents * exactly "\""

def fixed : List (String × TokenKind String) :=
  [("=>", .arrow), ("+", .operator .add), ("-", .operator .sub), ("*", .operator .mul),
    ("/", .operator .div), ("=", .equals), ("(", .leftParen), (")", .rightParen)] ++ Piece.keywords

theorem append_mem_kstar {l : Language Char} {part rest : List Char} (hp : part ∈ l)
    (hr : rest ∈ l∗) : part ++ rest ∈ l∗ := by
  rw [← Language.one_add_self_mul_kstar_eq_kstar]
  exact .inr ⟨part, hp, rest, hr, rfl⟩

theorem kstar_induction {l : Language Char} {motive : List Char → Prop} (nil : motive [])
    (append : ∀ part rest, part ∈ l → motive rest → motive (part ++ rest)) {s : List Char}
    (h : s ∈ l∗) : motive s := by
  obtain ⟨parts, rfl, hparts⟩ := Language.mem_kstar.1 h
  clear h
  induction parts with
  | nil => exact nil
  | cons part parts ih =>
    exact append part _ (hparts part List.mem_cons_self)
      (ih fun y hy => hparts y (List.mem_cons_of_mem _ hy))

theorem mem_kstar_one {p : Char → Prop} {s : List Char} : s ∈ (one p)∗ ↔ ∀ c ∈ s, p c := by
  rw [Language.mem_kstar]
  constructor
  · rintro ⟨parts, rfl, h⟩ c hc
    obtain ⟨part, hp, hc⟩ := List.mem_flatten.1 hc
    obtain ⟨d, hd, rfl⟩ := h part hp
    rwa [List.mem_singleton.1 hc]
  · intro h
    refine ⟨s.map ([·]), by simp [← List.flatMap_def], fun part hp => ?_⟩
    obtain ⟨c, hc, rfl⟩ := List.mem_map.1 hp
    exact ⟨c, h c hc, rfl⟩

theorem mem_run {p q : Char → Prop} {s : List Char} :
    s ∈ run p q ↔ ∃ c tail, s = c :: tail ∧ p c ∧ ∀ d ∈ tail, q d := by
  rw [run, Language.mem_mul]
  constructor
  · rintro ⟨_, ⟨c, hc, rfl⟩, tail, ht, rfl⟩
    exact ⟨c, tail, rfl, hc, mem_kstar_one.1 ht⟩
  · rintro ⟨c, tail, rfl, hc, ht⟩
    exact ⟨[c], ⟨c, hc, rfl⟩, tail, mem_kstar_one.2 ht, rfl⟩

theorem mem_comment {s : List Char} :
    s ∈ comment ↔ ∃ tail, s = '/' :: '/' :: tail ∧ ∀ c ∈ tail, c ≠ '\n' := by
  rw [comment, Language.mem_mul]
  constructor
  · rintro ⟨_, rfl, tail, ht, rfl⟩
    exact ⟨tail, rfl, mem_kstar_one.1 ht⟩
  · rintro ⟨tail, rfl, ht⟩
    exact ⟨_, rfl, tail, mem_kstar_one.2 ht, rfl⟩

theorem mem_string {s : List Char} :
    s ∈ string ↔ ∃ body ∈ contents, s = '"' :: (body ++ ['"']) := by
  rw [string, Language.mem_mul]
  constructor
  · rintro ⟨_, hq, _, rfl, rfl⟩
    obtain ⟨_, rfl, body, hb, rfl⟩ := Language.mem_mul.1 hq
    exact ⟨body, hb, rfl⟩
  · rintro ⟨body, hb, rfl⟩
    exact ⟨'"' :: body, Language.mem_mul.2 ⟨_, rfl, body, hb, rfl⟩, _, rfl, rfl⟩

theorem nil_mem_contents : [] ∈ contents := Language.nil_mem_kstar _

theorem escape_mem_contents {c : Char} {body : List Char} (hc : c ≠ '\n') (hb : body ∈ contents) :
    '\\' :: c :: body ∈ contents :=
  append_mem_kstar (.inl (Language.mem_mul.2 ⟨_, rfl, _, ⟨c, hc, rfl⟩, rfl⟩)) hb

theorem plain_mem_contents {c : Char} {body : List Char} (hs : c ≠ '\\') (hq : c ≠ '"')
    (hb : body ∈ contents) : c :: body ∈ contents :=
  append_mem_kstar (.inr ⟨c, ⟨hs, hq⟩, rfl⟩) hb

theorem contents_induction {motive : List Char → Prop} (nil : motive [])
    (escape : ∀ c body, c ≠ '\n' → motive body → motive ('\\' :: c :: body))
    (plain : ∀ c body, c ≠ '\\' → c ≠ '"' → motive body → motive (c :: body))
    {body : List Char} (hb : body ∈ contents) : motive body := by
  refine kstar_induction nil ?_ hb
  rintro part rest (he | ⟨c, ⟨hs, hq⟩, rfl⟩) hrest
  · obtain ⟨_, rfl, _, ⟨c, hc, rfl⟩, rfl⟩ := Language.mem_mul.1 he
    exact escape c _ hc hrest
  · exact plain c _ hs hq hrest

theorem closeString_append {body : List Char} (h : body ∈ contents) (seen rest : List Char) :
    Piece.closeString seen (body ++ '"' :: rest) = some (seen.reverse ++ body, rest) := by
  revert seen
  refine contents_induction (motive := fun body => ∀ seen, Piece.closeString seen
    (body ++ '"' :: rest) = some (seen.reverse ++ body, rest)) ?nil ?escape ?plain h
  case nil =>
    intro seen
    simp [Piece.closeString]
  case escape =>
    intro c body hc ih seen
    simp [Piece.closeString, hc, ih]
  case plain =>
    intro c body hs hq ih seen
    rw [List.cons_append, Piece.closeString]
    · simp [ih]
    all_goals simp_all

theorem mem_contents_of_closeString {seen s found rest : List Char}
    (h : Piece.closeString seen s = some (found, rest)) :
    ∃ body ∈ contents, found = seen.reverse ++ body := by
  fun_induction Piece.closeString seen s with
  | case1 => simp at h
  | case2 seen rest' =>
    obtain ⟨rfl, rfl⟩ := by simpa using h
    exact ⟨[], nil_mem_contents, by simp⟩
  | case3 => simp at h
  | case4 seen c rest' hc ih =>
    obtain ⟨body, hb, rfl⟩ := ih h
    exact ⟨_, escape_mem_contents hc hb, by simp⟩
  | case5 => simp at h
  | case6 seen c rest' hq he hs ih =>
    obtain ⟨body, hb, rfl⟩ := ih h
    refine ⟨_, plain_mem_contents (fun hc => ?_) hq hb, by simp⟩
    cases rest' with
    | nil => exact hs hc rfl
    | cons d more => exact he d more hc rfl

end Pattern

theorem separator_range {c : Char} (h : isSeparator c = true) :
    c.toNat ≤ 32 ∨ 128 ≤ c.toNat := by
  simp only [isSeparator, Text.isBlank, Text.CharClass.has, Text.whiteSpace, Bool.or_eq_true,
    List.any_cons, List.any_nil, Bool.and_eq_true, decide_eq_true_eq, Bool.false_eq_true,
    or_false] at h
  rcases h with h | rfl
  · omega
  · decide

theorem alpha_range {c : Char} (h : c.isAlpha = true) :
    65 ≤ c.toNat ∧ c.toNat ≤ 90 ∨ 97 ≤ c.toNat ∧ c.toNat ≤ 122 := by
  have hcases : decide (c.val ≥ 'A'.val ∧ c.val ≤ 'Z'.val) = true ∨
      (decide (c.val ≥ 'a'.val) && decide (c.val ≤ 'z'.val)) = true := Bool.or_eq_true _ _ ▸ h
  simpa only [Bool.and_eq_true, decide_eq_true_eq, ge_iff_le, UInt32.le_iff_toNat_le,
    Char.toNat_val, Char.reduceToNat] using hcases

theorem wordPart_range {c : Char} (h : isWordPart c = true) : 48 ≤ c.toNat ∧ c.toNat ≤ 122 := by
  simp only [isWordPart, Char.isAlphanum, Bool.or_eq_true, decide_eq_true_eq] at h
  rcases h with (h | h) | rfl
  · have := alpha_range h
    omega
  · have := Char.isDigit_iff_toNat.1 h
    simp only [Char.reduceToNat] at this
    omega
  · decide

theorem wordPart_of_wordStart {c : Char} (h : isWordStart c = true) : isWordPart c = true := by
  simp only [isWordStart, isWordPart, Char.isAlphanum, Bool.or_eq_true] at h ⊢
  tauto

theorem wordPart_of_digit {c : Char} (h : c.isDigit = true) : isWordPart c = true := by
  simp [isWordPart, Char.isAlphanum, h]

theorem not_separator_of_wordPart {c : Char} (h : isWordPart c = true) :
    isSeparator c = false := by
  by_contra hs
  have hw := wordPart_range h
  have hr := separator_range (Bool.eq_true_of_not_eq_false hs)
  omega

theorem not_wordStart_of_digit {c : Char} (h : c.isDigit = true) : isWordStart c = false := by
  by_contra hs
  have hd := Char.isDigit_iff_toNat.1 h
  simp only [Char.reduceToNat] at hd
  simp only [isWordStart, Bool.not_eq_false, Bool.or_eq_true, decide_eq_true_eq] at hs
  rcases hs with hs | rfl
  · have := alpha_range hs
    omega
  · simp at h

/-- The texts of each piece. The word of a keyword is no identifier. -/
inductive Matches : List Char → Piece → Prop where
  | separator {s} : s ∈ Pattern.separator → Matches s .separator
  | comment {s} : s ∈ Pattern.comment → Matches s .comment
  | fixed {word kind} : (word, kind) ∈ Pattern.fixed → Matches word.toList (.token kind)
  | number {s} : s ∈ Pattern.digits → Matches s (.token (Piece.ofDigits s))
  | string {body} : '"' :: (body ++ ['"']) ∈ Pattern.string →
      Matches ('"' :: (body ++ ['"'])) (.token (.string (String.ofList body)))
  | identifier {s} : s ∈ Pattern.word → String.ofList s ∉ Piece.keywords.map Prod.fst →
      Matches s (.token (.identifier (String.ofList s)))

/-- The lexeme at the front of a text: no longer front matches anything. -/
structure Longest (s text : List Char) (piece : Piece) : Prop where
  front : text <+: s
  matched : Matches text piece
  longest : ∀ other piece', Matches other piece' → other <+: s → other.length ≤ text.length

namespace Piece

theorem read?_cons {c : Char} (rest : List Char) (he : c ≠ '=') (hs : c ≠ '/') (hq : c ≠ '"') :
    read? (c :: rest) =
      if isSeparator c then
        some (.separator, c :: rest.takeWhile isSeparator, rest.dropWhile isSeparator)
      else if isWordStart c then
        some (.token (ofWord (c :: rest.takeWhile isWordPart)), c :: rest.takeWhile isWordPart,
          rest.dropWhile isWordPart)
      else if c.isDigit then
        some (.token (ofDigits (c :: rest.takeWhile Char.isDigit)),
          c :: rest.takeWhile Char.isDigit, rest.dropWhile Char.isDigit)
      else (symbol? c).map fun kind => (.token kind, [c], rest) := by
  unfold read?
  split <;> simp_all

theorem read?_separator {c : Char} (rest : List Char) (h : isSeparator c = true) :
    read? (c :: rest)
      = some (.separator, c :: rest.takeWhile isSeparator, rest.dropWhile isSeparator) := by
  rw [read?_cons, if_pos h]
  all_goals rintro rfl; revert h; decide

theorem read?_word {c : Char} (rest : List Char) (h : isWordStart c = true) :
    read? (c :: rest) = some (.token (ofWord (c :: rest.takeWhile isWordPart)),
      c :: rest.takeWhile isWordPart, rest.dropWhile isWordPart) := by
  have hs := not_separator_of_wordPart (wordPart_of_wordStart h)
  rw [read?_cons, hs, if_neg Bool.false_ne_true, if_pos h]
  all_goals rintro rfl; revert h; decide

theorem read?_digits {c : Char} (rest : List Char) (h : c.isDigit = true) :
    read? (c :: rest) = some (.token (ofDigits (c :: rest.takeWhile Char.isDigit)),
      c :: rest.takeWhile Char.isDigit, rest.dropWhile Char.isDigit) := by
  have hs := not_separator_of_wordPart (wordPart_of_digit h)
  have hw := not_wordStart_of_digit h
  rw [read?_cons, hs, hw, if_neg Bool.false_ne_true, if_neg Bool.false_ne_true, if_pos h]
  all_goals rintro rfl; revert h; decide

theorem read?_string (rest : List Char) :
    read? ('"' :: rest) = (closeString [] rest).map fun (contents, rest) =>
      (.token (.string (String.ofList contents)), '"' :: (contents ++ ['"']), rest) := by
  rw [read?]

theorem ofWord_identifier {word : List Char} (h : String.ofList word ∉ keywords.map Prod.fst) :
    ofWord word = .identifier (String.ofList word) := by
  have hl : keywords.lookup (String.ofList word) = none := by
    rw [List.lookup_eq_none_iff]
    intro p hp
    refine bne_iff_ne.2 fun he => h ?_
    exact he ▸ List.mem_map_of_mem hp
  rw [ofWord, hl, Option.getD_none]

theorem run_append {p : Char → Bool} {t : List Char} (ht : ∀ c ∈ t.head?, p c = false)
    (s : List Char) : (s ++ t).takeWhile p = s.takeWhile p ∧
      (s ++ t).dropWhile p = s.dropWhile p ++ t := by
  induction s with
  | nil =>
    cases t with
    | nil => exact ⟨rfl, rfl⟩
    | cons c more => simp [ht c rfl]
  | cons c more ih =>
    by_cases hc : p c
    · simp [hc, ih]
    · simp [hc]

theorem run_ends {p : Char → Bool} {s t : List Char} (hs : ∀ c ∈ s, p c = true)
    (ht : ∀ c ∈ t.head?, p c = false) :
    (s ++ t).takeWhile p = s ∧ (s ++ t).dropWhile p = t := by
  obtain ⟨htake, hdrop⟩ := run_append ht s
  rw [List.takeWhile_eq_self_iff.2 hs] at htake
  rw [List.dropWhile_eq_nil_iff.2 hs, List.nil_append] at hdrop
  exact ⟨htake, hdrop⟩

private theorem run_grows {p : Char → Bool} {tail : List Char} (h : ∀ c ∈ tail, p c = true)
    (rest : List Char) : tail.length < ((tail ++ rest).takeWhile p).length ∨
      (tail ++ rest).takeWhile p = tail := by
  rw [List.takeWhile_append_of_pos h]
  rcases ht : rest.takeWhile p with _ | ⟨c, more⟩
  · right; simp
  · left; simp

/-- Something is read in front of `rest`: more than `text`, or just that and as `piece`. -/
def ReadsAtLeast (text : List Char) (piece : Piece) (rest : List Char) : Prop :=
  ∃ piece' text' rest', read? (text ++ rest) = some (piece', text', rest') ∧
    (text.length < text'.length ∨ text' = text ∧ piece' = piece)

theorem readsAtLeast_run {c : Char} {tail : List Char} {p : Char → Bool}
    (piece : List Char → Piece)
    (hread : ∀ rest, read? (c :: rest) = some (piece (c :: rest.takeWhile p),
      c :: rest.takeWhile p, rest.dropWhile p))
    (ht : ∀ d ∈ tail, p d = true) (rest : List Char) :
    ReadsAtLeast (c :: tail) (piece (c :: tail)) rest := by
  refine ⟨_, _, _, hread (tail ++ rest), ?_⟩
  rcases run_grows ht rest with hg | hg
  · left
    simpa using hg
  · right
    rw [hg]
    exact ⟨rfl, rfl⟩

theorem readsAtLeast_word {c : Char} {tail : List Char} (hc : isWordStart c = true)
    (ht : ∀ d ∈ tail, isWordPart d = true) (rest : List Char) :
    ReadsAtLeast (c :: tail) (.token (ofWord (c :: tail))) rest :=
  readsAtLeast_run (fun word => .token (ofWord word)) (fun _ => read?_word _ hc) ht rest

theorem symbol?_classes {c : Char} {kind : TokenKind String} (h : symbol? c = some kind) :
    isSeparator c = false ∧ isWordStart c = false ∧ c.isDigit = false := by
  unfold symbol? at h
  split at h
  case h_8 => cases h
  all_goals decide

theorem read?_symbol {c : Char} {kind : TokenKind String} {rest : List Char}
    (h : symbol? c = some kind) (ha : ¬(c = '=' ∧ rest.head? = some '>'))
    (hc : ¬(c = '/' ∧ rest.head? = some '/')) :
    read? (c :: rest) = some (.token kind, [c], rest) := by
  obtain ⟨hs, hw, hd⟩ := symbol?_classes h
  unfold read?
  split
  case h_1 he => cases he
  case h_2 he => obtain ⟨rfl, rfl⟩ := List.cons.inj he; simp at ha
  case h_3 he => obtain ⟨rfl, rfl⟩ := List.cons.inj he; simp at hc
  case h_4 he => obtain ⟨rfl, rfl⟩ := List.cons.inj he; cases h
  case h_5 he =>
    obtain ⟨rfl, rfl⟩ := List.cons.inj he
    simp [hs, hw, hd, h]

theorem readsAtLeast_symbol {c : Char} {kind : TokenKind String} (h : symbol? c = some kind)
    (rest : List Char) : ReadsAtLeast [c] (.token kind) rest := by
  by_cases ha : c = '=' ∧ rest.head? = some '>'
  · obtain ⟨rfl, hr⟩ := ha
    obtain ⟨more, rfl⟩ := List.head?_eq_some_iff.1 hr
    exact ⟨_, _, _, rfl, .inl (by simp)⟩
  by_cases hc : c = '/' ∧ rest.head? = some '/'
  · obtain ⟨rfl, hr⟩ := hc
    obtain ⟨more, rfl⟩ := List.head?_eq_some_iff.1 hr
    exact ⟨_, _, _, rfl, .inl (by simp)⟩
  exact ⟨_, _, _, read?_symbol h ha hc, .inr ⟨rfl, rfl⟩⟩

theorem keyword_word {word : String} {kind : TokenKind String} (h : (word, kind) ∈ keywords) :
    word.toList ∈ Pattern.word ∧ ofWord word.toList = kind := by
  have hall : ∀ p ∈ keywords, p.1.toList.head?.any isWordStart = true ∧
      p.1.toList.all isWordPart = true ∧ ofWord p.1.toList = p.2 := by decide
  obtain ⟨hs, ht, hk⟩ := hall _ h
  refine ⟨?_, hk⟩
  rcases hl : word.toList with _ | ⟨c, tail⟩
  · simp [hl] at hs
  · simp only [hl, List.head?_cons, Option.any_some, List.all_cons, Bool.and_eq_true,
      List.all_eq_true] at hs ht
    exact Pattern.mem_run.2 ⟨c, tail, rfl, hs, ht.2⟩

theorem read?_of_matches {text : List Char} {piece : Piece} (h : Matches text piece)
    (rest : List Char) : ReadsAtLeast text piece rest := by
  cases h with
  | separator h =>
    obtain ⟨c, tail, rfl, hc, ht⟩ := Pattern.mem_run.1 h
    exact readsAtLeast_run (fun _ => .separator) (fun _ => read?_separator _ hc) ht rest
  | comment h =>
    obtain ⟨tail, rfl, ht⟩ := Pattern.mem_comment.1 h
    have ht' : ∀ c ∈ tail, decide (c ≠ '\n') = true := by simpa using ht
    refine ⟨_, _, _, by rw [List.cons_append, List.cons_append, read?], ?_⟩
    rcases run_grows ht' rest with hg | hg
    · left
      simpa using hg
    · right
      rw [hg]
      exact ⟨rfl, rfl⟩
  | fixed h =>
    rcases List.mem_append.1 h with h | h
    · simp only [List.mem_cons, Prod.mk.injEq, List.not_mem_nil, or_false] at h
      rcases h with ⟨rfl, rfl⟩ | ⟨rfl, rfl⟩ | ⟨rfl, rfl⟩ | ⟨rfl, rfl⟩ | ⟨rfl, rfl⟩ | ⟨rfl, rfl⟩ |
        ⟨rfl, rfl⟩ | ⟨rfl, rfl⟩
      · exact ⟨_, _, _, rfl, .inr ⟨rfl, rfl⟩⟩
      all_goals exact readsAtLeast_symbol rfl rest
    · obtain ⟨hw, rfl⟩ := keyword_word h
      obtain ⟨c, tail, he, hc, ht⟩ := Pattern.mem_run.1 hw
      rw [he]
      exact readsAtLeast_word hc ht rest
  | number h =>
    obtain ⟨c, tail, rfl, hc, ht⟩ := Pattern.mem_run.1 h
    exact readsAtLeast_run (fun digits => .token (ofDigits digits))
      (fun _ => read?_digits _ hc) ht rest
  | @string body h =>
    obtain ⟨body', hb, he⟩ := Pattern.mem_string.1 h
    obtain rfl : body = body' := by simpa using he
    refine ⟨.token (.string (String.ofList body)), '"' :: (body ++ ['"']), rest, ?_,
      .inr ⟨rfl, rfl⟩⟩
    rw [List.cons_append, List.append_assoc, read?_string]
    simp [Pattern.closeString_append hb]
  | identifier h hk =>
    obtain ⟨c, tail, rfl, hc, ht⟩ := Pattern.mem_run.1 h
    have hword := readsAtLeast_word hc ht rest
    rwa [ofWord_identifier hk] at hword

theorem matches_ofWord {word : List Char} (h : word ∈ Pattern.word) :
    Matches word (.token (ofWord word)) := by
  by_cases hk : String.ofList word ∈ keywords.map Prod.fst
  · obtain ⟨⟨w, kind⟩, hmem, hw⟩ := List.mem_map.1 hk
    obtain rfl : w.toList = word := by
      rw [show w = String.ofList word from hw, String.toList_ofList]
    rw [(keyword_word hmem).2]
    exact .fixed (List.mem_append_right _ hmem)
  · rw [ofWord_identifier hk]
    exact .identifier h hk

theorem matches_symbol {c : Char} {kind : TokenKind String} (h : symbol? c = some kind) :
    Matches [c] (.token kind) := by
  have hmem : (String.ofList [c], kind) ∈ Pattern.fixed := by
    unfold symbol? at h
    split at h
    case h_8 => cases h
    all_goals
      obtain rfl := Option.some.inj h
      decide
  have hm := Matches.fixed hmem
  rwa [String.toList_ofList] at hm

theorem matches_of_read? {s text rest : List Char} {piece : Piece}
    (h : read? s = some (piece, text, rest)) : Matches text piece := by
  unfold read? at h
  split at h
  · simp at h
  · obtain ⟨rfl, rfl, rfl⟩ := by simpa using h
    exact @Matches.fixed "=>" .arrow (by decide)
  · obtain ⟨rfl, rfl, rfl⟩ := by simpa using h
    refine .comment (Pattern.mem_comment.2 ⟨_, rfl, fun c hc => ?_⟩)
    simpa using List.mem_takeWhile_imp hc
  · obtain ⟨⟨contents, more⟩, hc, he⟩ := Option.map_eq_some_iff.1 h
    obtain ⟨rfl, rfl, rfl⟩ := by simpa using he
    obtain ⟨body, hb, rfl⟩ := Pattern.mem_contents_of_closeString hc
    exact .string (Pattern.mem_string.2 ⟨_, hb, rfl⟩)
  · next c rest' _ _ _ =>
    split at h
    · next hs =>
      obtain ⟨rfl, rfl, rfl⟩ := by simpa using h
      exact .separator (Pattern.mem_run.2 ⟨c, _, rfl, hs, fun _ hd => List.mem_takeWhile_imp hd⟩)
    split at h
    · next hw =>
      obtain ⟨rfl, rfl, rfl⟩ := by simpa using h
      exact matches_ofWord
        (Pattern.mem_run.2 ⟨c, _, rfl, hw, fun _ hd => List.mem_takeWhile_imp hd⟩)
    split at h
    · next hd =>
      obtain ⟨rfl, rfl, rfl⟩ := by simpa using h
      exact .number (Pattern.mem_run.2 ⟨c, _, rfl, hd, fun _ hd => List.mem_takeWhile_imp hd⟩)
    · obtain ⟨kind, hk, he⟩ := Option.map_eq_some_iff.1 h
      obtain ⟨rfl, rfl, rfl⟩ := by simpa using he
      exact matches_symbol hk

end Piece

/-- The reader of pieces finds the longest one. -/
theorem longest_iff_read? {s text : List Char} {piece : Piece} :
    Longest s text piece ↔ ∃ rest, Piece.read? s = some (piece, text, rest) := by
  constructor
  · rintro ⟨⟨rest, rfl⟩, hm, hmax⟩
    obtain ⟨piece', text', rest', hread, hcase⟩ := Piece.read?_of_matches hm rest
    have hfront : text' <+: text ++ rest := ⟨rest', (Piece.append_of_read? hread).1.symm⟩
    have hle := hmax text' piece' (Piece.matches_of_read? hread) hfront
    rcases hcase with hlt | ⟨rfl, rfl⟩
    · omega
    · exact ⟨rest', hread⟩
  · rintro ⟨rest, hread⟩
    refine ⟨⟨rest, (Piece.append_of_read? hread).1.symm⟩, Piece.matches_of_read? hread, ?_⟩
    rintro other piece' hm ⟨rest', rfl⟩
    obtain ⟨_, _, _, hread', hcase⟩ := Piece.read?_of_matches hm rest'
    obtain ⟨rfl, rfl, rfl⟩ := by simpa [hread] using hread'
    rcases hcase with hlt | ⟨rfl, rfl⟩
    · exact hlt.le
    · exact le_rfl

theorem read?_eq_none_iff {s : List Char} :
    Piece.read? s = none ↔ ∀ text piece, Matches text piece → ¬ text <+: s := by
  constructor
  · rintro hnone text piece hm ⟨rest, rfl⟩
    obtain ⟨_, _, _, hread, -⟩ := Piece.read?_of_matches hm rest
    rw [hnone] at hread
    cases hread
  · intro h
    rcases hread : Piece.read? s with _ | ⟨piece, text, rest⟩
    · rfl
    · exact absurd ⟨rest, (Piece.append_of_read? hread).1.symm⟩
        (h text piece (Piece.matches_of_read? hread))

end PrefixLang
