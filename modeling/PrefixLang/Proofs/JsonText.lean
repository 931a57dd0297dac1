import PrefixLang.Text.Json
import PrefixLang.Proofs.Numerals
import PrefixLang.Proofs.Patterns
/-!
JSON texts and what they stand for. `Reads` has a rule for each way to write a value, with spaces
wherever they may stand. A text is read in one way only (`Reads.unique`), and the text that is
written for an object is read as that object (`denotes_encodeObject_iff`).
-/

namespace PrefixLang.Text.Json

/-- What a JSON text stands for. Numbers are kept as they are written. -/
inductive Tree where
  | null
  | bool (b : Bool)
  | number (literal : List Char)
  | string (s : String)
  | array (items : List Tree)
  | object (members : List (String × Tree))

def isSpace (c : Char) : Bool := c ∈ [' ', '\t', '\n', '\r']

def skip (s : List Char) : List Char := s.dropWhile isSpace

def unescape? : Char → Option Char
  | '"' => some '"'
  | '\\' => some '\\'
  | '/' => some '/'
  | 'b' => some '\x08'
  | 'f' => some '\x0c'
  | 'n' => some '\n'
  | 'r' => some '\r'
  | 't' => some '\t'
  | _ => none

def hexDigit? (c : Char) : Option ℕ :=
  if c.isDigit then some (c.toNat - '0'.toNat)
  else if 'a' ≤ c ∧ c ≤ 'f' then some (c.toNat - 'a'.toNat + 10)
  else if 'A' ≤ c ∧ c ≤ 'F' then some (c.toNat - 'A'.toNat + 10)
  else none

def hexCode? (a b c d : Char) : Option ℕ :=
  match hexDigit? a, hexDigit? b, hexDigit? c, hexDigit? d with
  | some a, some b, some c, some d => some (((a * 16 + b) * 16 + c) * 16 + d)
  | _, _, _, _ => none

def inFront (c : Char) (read : Option (List Char × List Char)) : Option (List Char × List Char) :=
  read.map fun (s, rest) => (c :: s, rest)

/-- The characters up to the quote that ends a string, and what follows that quote. A character
beyond the codes of four digits is written as two of them, neither of which stands alone. -/
def readString : List Char → Option (List Char × List Char)
  | [] => none
  | '"' :: rest => some ([], rest)
  | '\\' :: 'u' :: a :: b :: c :: d :: rest =>
    match hexCode? a b c d with
    | none => none
    | some n =>
      if n < 0xD800 ∨ 0xE000 ≤ n then inFront (Char.ofNat n) (readString rest)
      else
        match rest with
        | '\\' :: 'u' :: e :: f :: g :: h :: more =>
          match hexCode? e f g h with
          | none => none
          | some m =>
            if n < 0xDC00 ∧ 0xDC00 ≤ m ∧ m < 0xE000 then
              inFront (Char.ofNat (0x10000 + (n - 0xD800) * 0x400 + (m - 0xDC00))) (readString more)
            else none
        | _ => none
  | '\\' :: letter :: rest =>
    match unescape? letter with
    | some c => inFront c (readString rest)
    | none => none
  | c :: rest => if c < ' ' ∨ c = '\\' then none else inFront c (readString rest)

def Digits (s : List Char) : Prop := s ≠ [] ∧ ∀ c ∈ s, c.isDigit = true

/-- Numbers: the whole part has no zero in front of other digits; a fraction and a power of ten may
follow it. -/
inductive Number : List Char → Prop where
  | mk {sign whole fraction power : List Char} : sign ∈ [[], ['-']] → Digits whole →
      (whole.head? = some '0' → whole = ['0']) →
      (fraction = [] ∨ ∃ digits, Digits digits ∧ fraction = '.' :: digits) →
      (power = [] ∨ ∃ e ∈ ['e', 'E'], ∃ sign ∈ [[], ['+'], ['-']], ∃ digits, Digits digits ∧
        power = e :: (sign ++ digits)) →
      Number (sign ++ whole ++ fraction ++ power)

def numberChars : List Char := "0123456789+-.eE".toList

/-- What is read at a time: a value, a member, or what is left of an array or an object up to the
bracket that closes it. -/
inductive Part where
  | value (v : Tree)
  | member (m : String × Tree)
  | items (vs : List Tree)
  | moreItems (vs : List Tree)
  | members (ms : List (String × Tree))
  | moreMembers (ms : List (String × Tree))

/-- How a part is read from the front of a text, and what follows it. -/
inductive Reads : Part → List Char → List Char → Prop where
  | null {s r} : skip s = "null".toList ++ r → Reads (.value .null) s r
  | bool {b : Bool} {s r} : skip s = (if b then "true" else "false").toList ++ r →
      Reads (.value (.bool b)) s r
  | number {literal s r} : skip s = literal ++ r → Number literal →
      (∀ c ∈ r.head?, c ∉ numberChars) → Reads (.value (.number literal)) s r
  | string {cs s t r} : skip s = '"' :: t → readString t = some (cs, r) →
      Reads (.value (.string (String.ofList cs))) s r
  | array {vs s t r} : skip s = '[' :: t → Reads (.items vs) t r → Reads (.value (.array vs)) s r
  | object {ms s t r} : skip s = '\x7b' :: t → Reads (.members ms) t r →
      Reads (.value (.object ms)) s r
  | member {cs v s t u w r} : skip s = '"' :: t → readString t = some (cs, u) →
      skip u = ':' :: w → Reads (.value v) w r → Reads (.member (String.ofList cs, v)) s r
  | noItems {s r} : skip s = ']' :: r → Reads (.items []) s r
  | items {v vs s t r} : Reads (.value v) s t → Reads (.moreItems vs) t r →
      Reads (.items (v :: vs)) s r
  | lastItem {s r} : skip s = ']' :: r → Reads (.moreItems []) s r
  | nextItem {v vs s t u r} : skip s = ',' :: t → Reads (.value v) t u →
      Reads (.moreItems vs) u r → Reads (.moreItems (v :: vs)) s r
  | noMembers {s r} : skip s = '\x7d' :: r → Reads (.members []) s r
  | members {m ms s t r} : Reads (.member m) s t → Reads (.moreMembers ms) t r →
      Reads (.members (m :: ms)) s r
  | lastMember {s r} : skip s = '\x7d' :: r → Reads (.moreMembers []) s r
  | nextMember {m ms s t u r} : skip s = ',' :: t → Reads (.member m) t u →
      Reads (.moreMembers ms) u r → Reads (.moreMembers (m :: ms)) s r

/-- A whole text is one value, with nothing but spaces around it. -/
def Denotes (text : List Char) (v : Tree) : Prop := ∃ r, Reads (.value v) text r ∧ skip r = []

/-- What the first character of a value tells of it. -/
inductive Shape where
  | null
  | bool (b : Bool)
  | number
  | string
  | array
  | object
  deriving DecidableEq

def Tree.shape : Tree → Shape
  | .null => .null
  | .bool b => .bool b
  | .number _ => .number
  | .string _ => .string
  | .array _ => .array
  | .object _ => .object

def shape? (c : Char) : Option Shape :=
  match c with
  | 'n' => some .null
  | 't' => some (.bool true)
  | 'f' => some (.bool false)
  | '"' => some .string
  | '[' => some .array
  | '\x7b' => some .object
  | _ => if c ∈ numberChars then some .number else none

theorem Digits.subset {s : List Char} (h : Digits s) : s ⊆ numberChars := by
  have hdigits : "0123456789".toList ⊆ numberChars := by decide
  intro c hc
  exact hdigits (Decimal.mem_digits_of_isDigit (h.2 c hc))

theorem Number.subset {literal : List Char} (h : Number literal) : literal ⊆ numberChars := by
  cases h with
  | @mk sign whole fraction power hsign hwhole _ hfraction hpower =>
    have hsigns : ∀ s ∈ [[], ['+'], ['-']], s ⊆ numberChars := by decide
    have hsign' : sign ⊆ numberChars := by
      apply hsigns
      have hmore : [[], ['-']] ⊆ [[], ['+'], ['-']] := by decide
      exact hmore hsign
    have hfraction' : fraction ⊆ numberChars := by
      rcases hfraction with rfl | ⟨digits, hdigits, rfl⟩
      · exact List.nil_subset _
      · exact List.cons_subset.2 ⟨by decide, hdigits.subset⟩
    have hpower' : power ⊆ numberChars := by
      rcases hpower with rfl | ⟨e, he, sign, hs, digits, hdigits, rfl⟩
      · exact List.nil_subset _
      · have hes : ['e', 'E'] ⊆ numberChars := by decide
        exact List.cons_subset.2 ⟨hes he, List.append_subset.2 ⟨hsigns sign hs, hdigits.subset⟩⟩
    simp only [List.append_subset]
    exact ⟨⟨⟨hsign', hwhole.subset⟩, hfraction'⟩, hpower'⟩

theorem Number.ne_nil {literal : List Char} (h : Number literal) : literal ≠ [] := by
  cases h with
  | mk _ hwhole _ _ _ => simp [hwhole.1]

theorem shape?_number {c : Char} (h : c ∈ numberChars) : shape? c = some .number := by
  have hall : numberChars.all (fun c => shape? c = some .number) = true := by decide
  simpa using List.all_eq_true.1 hall c h

theorem Reads.exists_shape {v : Tree} {s r : List Char} (h : Reads (.value v) s r) :
    ∃ c t, skip s = c :: t ∧ shape? c = some v.shape := by
  cases h with
  | null h => exact ⟨_, _, h, rfl⟩
  | @bool b _ _ h =>
    cases b
    · exact ⟨_, _, h, rfl⟩
    · exact ⟨_, _, h, rfl⟩
  | @number literal _ _ h hnumber _ =>
    obtain ⟨c, t, rfl⟩ := List.exists_cons_of_ne_nil hnumber.ne_nil
    exact ⟨c, _, h, shape?_number (hnumber.subset List.mem_cons_self)⟩
  | string h _ | array h _ | object h _ => exact ⟨_, _, h, rfl⟩

theorem Reads.shape_unique {v w : Tree} {s r t : List Char} (hv : Reads (.value v) s r)
    (hw : Reads (.value w) s t) : v.shape = w.shape := by
  obtain ⟨c, u, hs, hc⟩ := hv.exists_shape
  obtain ⟨d, x, ht, hd⟩ := hw.exists_shape
  obtain ⟨rfl, -⟩ := List.cons.inj (hs.symm.trans ht)
  exact Option.some.inj (hc.symm.trans hd)

theorem Reads.value_ne_close {v : Tree} {s r t : List Char} (h : Reads (.value v) s r) :
    skip s ≠ ']' :: t := by
  intro hclose
  have hnone : shape? ']' = none := by decide
  obtain ⟨c, u, hs, hc⟩ := h.exists_shape
  obtain ⟨rfl, -⟩ := List.cons.inj (hclose.symm.trans hs)
  rw [hnone] at hc
  cases hc

theorem Reads.member_ne_close {m : String × Tree} {s r t : List Char} (h : Reads (.member m) s r) :
    skip s ≠ '\x7d' :: t := by
  intro hclose
  cases h with
  | member h _ _ _ =>
    rw [h] at hclose
    exact absurd (List.cons.inj hclose).1 (by decide)

theorem number_unique {literal more r t : List Char} (h : literal ++ r = more ++ t)
    (hl : literal ⊆ numberChars) (hm : more ⊆ numberChars)
    (hr : ∀ c ∈ r.head?, c ∉ numberChars) (ht : ∀ c ∈ t.head?, c ∉ numberChars) :
    literal = more ∧ r = t := by
  have hread : ∀ {l u : List Char}, l ⊆ numberChars → (∀ c ∈ u.head?, c ∉ numberChars) →
      (l ++ u).takeWhile (· ∈ numberChars) = l := by
    intro l u hl hu
    exact (Piece.run_ends (fun c hc => decide_eq_true (hl hc))
      fun c hc => decide_eq_false (hu c hc)).1
  have hliteral : literal = more := by
    rw [← hread hl hr, h, hread hm ht]
  rw [hliteral] at h ⊢
  exact ⟨rfl, List.append_cancel_left h⟩

theorem Reads.atom_unique {v w : Tree} {s r t : List Char} (hv : Reads (.value v) s r)
    (hw : Reads (.value w) s t) (ha : v.shape ≠ .array ∧ v.shape ≠ .object) :
    Part.value v = .value w ∧ r = t := by
  have hshape := hv.shape_unique hw
  cases hv with
  | null h =>
    cases hw with
    | null h' => exact ⟨rfl, List.append_cancel_left (h.symm.trans h')⟩
    | _ => cases hshape
  | bool h =>
    cases hw with
    | bool h' =>
      obtain rfl := Shape.bool.inj hshape
      exact ⟨rfl, List.append_cancel_left (h.symm.trans h')⟩
    | _ => cases hshape
  | number h hnumber hr =>
    cases hw with
    | number h' hnumber' hr' =>
      obtain ⟨rfl, rfl⟩ :=
        number_unique (h.symm.trans h') hnumber.subset hnumber'.subset hr hr'
      exact ⟨rfl, rfl⟩
    | _ => cases hshape
  | string h hread =>
    cases hw with
    | string h' hread' =>
      obtain ⟨-, rfl⟩ := List.cons.inj (h.symm.trans h')
      obtain ⟨rfl, rfl⟩ := Prod.mk.inj (Option.some.inj (hread.symm.trans hread'))
      exact ⟨rfl, rfl⟩
    | _ => cases hshape
  | array _ _ => exact absurd rfl ha.1
  | object _ _ => exact absurd rfl ha.2

def Part.kind : Part → ℕ
  | .value _ => 0
  | .member _ => 1
  | .items _ => 2
  | .moreItems _ => 3
  | .members _ => 4
  | .moreMembers _ => 5

theorem Part.exists_value {v : Tree} {q : Part} (h : (Part.value v).kind = q.kind) :
    ∃ w, q = .value w := by
  cases q with
  | value w => exact ⟨w, rfl⟩
  | _ => cases h

theorem Reads.unique {p q : Part} {s r t : List Char} (hp : Reads p s r) (hq : Reads q s t)
    (hk : p.kind = q.kind) : p = q ∧ r = t := by
  induction hp generalizing q t with
  | null h =>
    obtain ⟨w, rfl⟩ := Part.exists_value hk
    exact (Reads.null h).atom_unique hq (by simp [Tree.shape])
  | bool h =>
    obtain ⟨w, rfl⟩ := Part.exists_value hk
    exact (Reads.bool h).atom_unique hq (by simp [Tree.shape])
  | number h hnumber hr =>
    obtain ⟨w, rfl⟩ := Part.exists_value hk
    exact (Reads.number h hnumber hr).atom_unique hq (by simp [Tree.shape])
  | string h hread =>
    obtain ⟨w, rfl⟩ := Part.exists_value hk
    exact (Reads.string h hread).atom_unique hq (by simp [Tree.shape])
  | array h hitems ih =>
    obtain ⟨w, rfl⟩ := Part.exists_value hk
    have hshape := (Reads.array h hitems).shape_unique hq
    cases hq with
    | array h' hitems' =>
      obtain ⟨-, rfl⟩ := List.cons.inj (h.symm.trans h')
      obtain ⟨hvs, rfl⟩ := ih hitems' rfl
      rw [Part.items.inj hvs]
      exact ⟨rfl, rfl⟩
    | _ => cases hshape
  | object h hmembers ih =>
    obtain ⟨w, rfl⟩ := Part.exists_value hk
    have hshape := (Reads.object h hmembers).shape_unique hq
    cases hq with
    | object h' hmembers' =>
      obtain ⟨-, rfl⟩ := List.cons.inj (h.symm.trans h')
      obtain ⟨hms, rfl⟩ := ih hmembers' rfl
      rw [Part.members.inj hms]
      exact ⟨rfl, rfl⟩
    | _ => cases hshape
  | member h hread hcolon hv ih =>
    cases hq with
    | member h' hread' hcolon' hv' =>
      obtain ⟨-, rfl⟩ := List.cons.inj (h.symm.trans h')
      obtain ⟨rfl, rfl⟩ := Prod.mk.inj (Option.some.inj (hread.symm.trans hread'))
      obtain ⟨-, rfl⟩ := List.cons.inj (hcolon.symm.trans hcolon')
      obtain ⟨hvalue, rfl⟩ := ih hv' rfl
      rw [Part.value.inj hvalue]
      exact ⟨rfl, rfl⟩
    | _ => cases hk
  | noItems h =>
    cases hq with
    | noItems h' => exact ⟨rfl, (List.cons.inj (h.symm.trans h')).2⟩
    | items hv' _ => exact absurd h hv'.value_ne_close
    | _ => cases hk
  | items hv hmore ihv ih =>
    cases hq with
    | noItems h' => exact absurd h' hv.value_ne_close
    | items hv' hmore' =>
      obtain ⟨hvalue, rfl⟩ := ihv hv' rfl
      obtain ⟨hvs, rfl⟩ := ih hmore' rfl
      rw [Part.value.inj hvalue, Part.moreItems.inj hvs]
      exact ⟨rfl, rfl⟩
    | _ => cases hk
  | lastItem h =>
    cases hq with
    | lastItem h' => exact ⟨rfl, (List.cons.inj (h.symm.trans h')).2⟩
    | nextItem h' _ _ => exact absurd (List.cons.inj (h.symm.trans h')).1 (by decide)
    | _ => cases hk
  | nextItem h hv hmore ihv ih =>
    cases hq with
    | lastItem h' => exact absurd (List.cons.inj (h.symm.trans h')).1 (by decide)
    | nextItem h' hv' hmore' =>
      obtain ⟨-, rfl⟩ := List.cons.inj (h.symm.trans h')
      obtain ⟨hvalue, rfl⟩ := ihv hv' rfl
      obtain ⟨hvs, rfl⟩ := ih hmore' rfl
      rw [Part.value.inj hvalue, Part.moreItems.inj hvs]
      exact ⟨rfl, rfl⟩
    | _ => cases hk
  | noMembers h =>
    cases hq with
    | noMembers h' => exact ⟨rfl, (List.cons.inj (h.symm.trans h')).2⟩
    | members hm' _ => exact absurd h hm'.member_ne_close
    | _ => cases hk
  | members hm hmore ihm ih =>
    cases hq with
    | noMembers h' => exact absurd h' hm.member_ne_close
    | members hm' hmore' =>
      obtain ⟨hmember, rfl⟩ := ihm hm' rfl
      obtain ⟨hms, rfl⟩ := ih hmore' rfl
      rw [Part.member.inj hmember, Part.moreMembers.inj hms]
      exact ⟨rfl, rfl⟩
    | _ => cases hk
  | lastMember h =>
    cases hq with
    | lastMember h' => exact ⟨rfl, (List.cons.inj (h.symm.trans h')).2⟩
    | nextMember h' _ _ => exact absurd (List.cons.inj (h.symm.trans h')).1 (by decide)
    | _ => cases hk
  | nextMember h hm hmore ihm ih =>
    cases hq with
    | lastMember h' => exact absurd (List.cons.inj (h.symm.trans h')).1 (by decide)
    | nextMember h' hm' hmore' =>
      obtain ⟨-, rfl⟩ := List.cons.inj (h.symm.trans h')
      obtain ⟨hmember, rfl⟩ := ihm hm' rfl
      obtain ⟨hms, rfl⟩ := ih hmore' rfl
      rw [Part.member.inj hmember, Part.moreMembers.inj hms]
      exact ⟨rfl, rfl⟩
    | _ => cases hk

theorem Denotes.unique {text : List Char} {v w : Tree} (hv : Denotes text v) (hw : Denotes text w) :
    v = w := by
  obtain ⟨r, hr, -⟩ := hv
  obtain ⟨t, ht, -⟩ := hw
  exact Part.value.inj (hr.unique ht rfl).1

def Value.tree : Value → Tree
  | .null => .null
  | .bool b => .bool b
  | .string s => .string s
  | .numbers ns => .array (ns.map fun n => .number (Nat.toDigits 10 n))

theorem hexDigit?_digitChar {n : ℕ} (h : n < 16) : hexDigit? n.digitChar = some n := by
  have hall : ∀ n < 16, hexDigit? n.digitChar = some n := by decide
  exact hall n h

theorem readString_plain {c : Char} (h : ¬c < ' ') (hq : c ≠ '"') (hb : c ≠ '\\')
    (rest : List Char) : readString (c :: rest) = inFront c (readString rest) := by
  rw [readString]
  · simp [h, hb]
  all_goals simp_all

theorem readString_encodeChar (c : Char) (rest : List Char) :
    readString (encodeChar c ++ rest) = inFront c (readString rest) := by
  unfold encodeChar
  split
  · next letter hletter =>
    unfold shortEscape? at hletter
    split at hletter
    case h_8 => cases hletter
    all_goals
      obtain rfl := Option.some.inj hletter
      rfl
  · next hnone =>
    split
    · next hlt =>
      have hcode : c.toNat < 32 := hlt
      have hread : hexCode? '0' '0' (c.toNat / 16).digitChar (c.toNat % 16).digitChar
          = some c.toNat := by
        have hzero : hexDigit? '0' = some 0 := rfl
        rw [hexCode?, hzero, hexDigit?_digitChar (by omega), hexDigit?_digitChar (by omega)]
        simp only [Option.some.injEq]
        omega
      rw [List.cons_append, List.cons_append, List.cons_append, List.cons_append,
        List.cons_append, List.cons_append, List.nil_append, readString, hread]
      simp only
      rw [if_pos (.inl (by omega)), Char.ofNat_toNat]
    · next hlt =>
      apply readString_plain hlt
      · rintro rfl
        cases hnone
      · rintro rfl
        cases hnone

theorem readString_encodeString (s rest : List Char) :
    readString (s.flatMap encodeChar ++ '"' :: rest) = some (s, rest) := by
  induction s with
  | nil => rfl
  | cons c s ih =>
    rw [List.flatMap_cons, List.append_assoc, readString_encodeChar, ih]
    rfl

-- Escapes that are read but never written.
example :
    readString "\\u00e9\\/\\ud83d\\ude00\", 1".toList = some ("é/😀".toList, ", 1".toList) := by
  decide +kernel

theorem encodeString_append (s : String) (r : List Char) :
    encodeString s ++ r = '"' :: (s.toList.flatMap encodeChar ++ '"' :: r) := by
  simp [encodeString]

theorem number_toDigits (n : ℕ) : Number (Nat.toDigits 10 n) := by
  have hdigits : Digits (Nat.toDigits 10 n) :=
    ⟨Nat.toDigits_ne_nil, fun _ => Nat.isDigit_of_mem_toDigits (by decide) (by decide)⟩
  have hnumber : Number ([] ++ Nat.toDigits 10 n ++ [] ++ []) := by
    refine .mk List.mem_cons_self hdigits ?_ (.inl rfl) (.inl rfl)
    intro hhead
    rw [Decimal.eq_zero_of_head?_toDigits hhead]
    exact Nat.toDigits_zero 10
  simpa using hnumber

theorem skip_cons {c : Char} (h : isSpace c = false) (s : List Char) : skip (c :: s) = c :: s := by
  rw [skip, List.dropWhile_cons, h]
  rfl

theorem reads_number (n : ℕ) {r : List Char} (hr : ∀ c ∈ r.head?, c ∉ numberChars) :
    Reads (.value (.number (Nat.toDigits 10 n))) (Nat.toDigits 10 n ++ r) r := by
  have hnumber := number_toDigits n
  have hskip : skip (Nat.toDigits 10 n ++ r) = Nat.toDigits 10 n ++ r := by
    have hall : numberChars.all (!isSpace ·) = true := by decide
    obtain ⟨c, t, ht⟩ := List.exists_cons_of_ne_nil hnumber.ne_nil
    have hc : c ∈ numberChars := hnumber.subset (by rw [ht]; exact List.mem_cons_self)
    rw [ht]
    exact skip_cons (by simpa using List.all_eq_true.1 hall c hc) _
  exact .number hskip hnumber hr

theorem intercalate_cons (part : List Char) (parts : List (List Char)) :
    [','].intercalate (part :: parts) = part ++ parts.flatMap (',' :: ·) := by
  induction parts generalizing part with
  | nil => simp
  | cons next parts ih =>
    rw [List.intercalate_cons_cons, ih, List.flatMap_cons]
    simp

theorem number_ends (ns : List ℕ) (r : List Char) :
    ∀ c ∈ ((ns.map (Nat.toDigits 10)).flatMap (',' :: ·) ++ ']' :: r).head?, c ∉ numberChars := by
  cases ns with
  | nil =>
    rintro c ⟨⟩
    decide
  | cons n ns =>
    rintro c ⟨⟩
    decide

theorem reads_moreNumbers (ns : List ℕ) (r : List Char) :
    Reads (.moreItems (ns.map fun n => .number (Nat.toDigits 10 n)))
      ((ns.map (Nat.toDigits 10)).flatMap (',' :: ·) ++ ']' :: r) r := by
  induction ns with
  | nil => exact .lastItem rfl
  | cons n ns ih =>
    rw [List.map_cons, List.map_cons, List.flatMap_cons, List.append_assoc]
    exact .nextItem rfl (reads_number n (number_ends ns r)) ih

theorem reads_value (v : Value) (r : List Char) :
    Reads (.value v.tree) (encodeValue v ++ r) r := by
  cases v with
  | null => exact .null rfl
  | bool b => cases b <;> exact .bool rfl
  | string s =>
    have hread := readString_encodeString s.toList r
    have hstring := Reads.string (skip_cons (c := '"') rfl _) hread
    rwa [String.ofList_toList, ← encodeString_append] at hstring
  | numbers ns =>
    cases ns with
    | nil => exact .array rfl (.noItems rfl)
    | cons n ns =>
      rw [encodeValue, List.map_cons, intercalate_cons, List.cons_append, List.append_assoc,
        List.append_assoc]
      exact .array rfl (.items (reads_number n (number_ends ns r)) (reads_moreNumbers ns r))

theorem reads_member (m : String × Value) (r : List Char) :
    Reads (.member (m.1, m.2.tree)) (encodeMember m ++ r) r := by
  have hread := readString_encodeString m.1.toList (':' :: (encodeValue m.2 ++ r))
  have hmember := Reads.member (skip_cons (c := '"') rfl _) hread (skip_cons (c := ':') rfl _)
    (reads_value m.2 r)
  rwa [String.ofList_toList, ← encodeString_append, ← List.cons_append, ← List.append_assoc]
    at hmember

theorem reads_moreMembers (ms : List (String × Value)) (r : List Char) :
    Reads (.moreMembers (ms.map fun m => (m.1, m.2.tree)))
      ((ms.map encodeMember).flatMap (',' :: ·) ++ '\x7d' :: r) r := by
  induction ms with
  | nil => exact .lastMember rfl
  | cons m ms ih =>
    rw [List.map_cons, List.map_cons, List.flatMap_cons, List.append_assoc]
    exact .nextMember rfl (reads_member m _) ih

theorem reads_object (ms : List (String × Value)) :
    Reads (.value (.object (ms.map fun m => (m.1, m.2.tree)))) (encodeObject ms).toList [] := by
  rw [encodeObject, String.toList_ofList]
  cases ms with
  | nil => exact .object rfl (.noMembers rfl)
  | cons m ms =>
    rw [List.map_cons, List.map_cons, intercalate_cons, List.append_assoc]
    exact .object rfl (.members (reads_member m _) (reads_moreMembers ms []))

/-- What is written of an object is a JSON text of that object, and of nothing else. -/
theorem denotes_encodeObject_iff (ms : List (String × Value)) (v : Tree) :
    Denotes (encodeObject ms).toList v ↔ v = .object (ms.map fun m => (m.1, m.2.tree)) := by
  have hobject : Denotes (encodeObject ms).toList (.object (ms.map fun m => (m.1, m.2.tree))) :=
    ⟨[], reads_object ms, rfl⟩
  constructor
  · intro h
    exact h.unique hobject
  · rintro rfl
    exact hobject

end PrefixLang.Text.Json
