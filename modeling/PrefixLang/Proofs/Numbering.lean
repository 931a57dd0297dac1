import PrefixLang.Proofs.NameTable
import Mathlib.Data.List.Nodup
/-!
What a table of names answers over time. After any calls its texts are those that were named, each
once and in the order in which they came first, so a name never changes its text and a text never
changes its name: `names_are_stable`.
-/

namespace PrefixLang.NameTable

inductive Call where
  | intern (text : String)
  | tryIntern (text : String)
  | lookup (name : Name)
  deriving DecidableEq, Repr

inductive Answer where
  | named (result : Except InternError Name)
  | text (text : String)
  deriving DecidableEq

def respond (t : NameTable) : Call → Answer × NameTable
  | .intern text => let (name, t) := t.intern text; (.named (.ok name), t)
  | .tryIntern text => let (result, t) := t.tryIntern text; (.named result, t)
  | .lookup name => (.text (t.lookup name), t)

def after (calls : List Call) : NameTable :=
  calls.foldl (fun t call => (t.respond call).2) initial

/-- The text for which a call asks a name. -/
def Call.text? : Call → Option String
  | .intern text | .tryIntern text => some text
  | .lookup _ => none

/-- All texts that were named, from the start or by calls, as often as they were. -/
def requested (calls : List Call) : List String := reserved ++ calls.filterMap Call.text?

/-- One of the calls was answered with the name of the text. -/
def Gives (calls : List Call) (text : String) (x : Name) : Prop :=
  ∃ before call rest, calls = before ++ call :: rest ∧ call.text? = some text ∧
    ((after before).respond call).1 = .named (.ok x)

/-- A table that has numbered the texts of a list in order, each where it comes first. -/
structure Numbered (texts : List String) (t : NameTable) : Prop where
  texts : t.texts.toList = texts.eraseDups
  numbers : t.WellFormed

variable {t : NameTable} {x y : Name} {s s' : String} {texts : List String} {calls : List Call}

theorem WellFormed.nodup (h : t.WellFormed) : t.texts.toList.Nodup := by
  rw [List.nodup_iff_getElem?_ne_getElem?]
  intro i j hij hj he
  rw [Array.length_toList] at hj
  rw [Array.getElem?_toList, Array.getElem?_toList, Array.getElem?_eq_getElem hj] at he
  have hi := (h _ _).2 he
  rw [(h _ _).2 (Array.getElem?_eq_getElem hj)] at hi
  have hsame : j = i := Option.some.inj hi
  omega

theorem name?_eq_none_iff (h : t.WellFormed) : t.name? s = none ↔ s ∉ t.texts.toList := by
  rw [name?, Option.map_eq_none_iff, Array.mem_toList_iff, Array.mem_iff_getElem?]
  constructor
  · rintro hnone ⟨i, hi⟩
    rw [(h s i).2 hi] at hnone
    cases hnone
  · intro hmem
    rcases hn : t.numbers[s]? with _ | i
    · rfl
    · exact absurd ⟨i, (h s i).1 hn⟩ hmem

theorem lookup_of_size_le (h : t.texts.size ≤ x.index) : t.lookup x = "" := by
  rw [lookup, Array.getElem?_eq_none h]
  rfl

theorem tryIntern_of_full (hnew : t.name? s = none) (hfull : Name.maxIndex < t.texts.size) :
    t.tryIntern s = (.error (.overflow t.texts.size), t) := by
  rw [tryIntern, Option.map_eq_none_iff.1 hnew]
  exact if_pos hfull

theorem tryIntern_of_room (h : t.name? s = none → t.texts.size ≤ Name.maxIndex) :
    t.tryIntern s = (.ok (t.intern s).1, (t.intern s).2) := by
  rcases hn : t.name? s with _ | x
  · rw [intern_of_none hn, tryIntern, Option.map_eq_none_iff.1 hn]
    exact if_neg (Nat.not_lt.2 (h hn))
  · rw [intern_of_some hn]
    obtain ⟨i, hi, rfl⟩ := Option.map_eq_some_iff.1 hn
    rw [tryIntern, hi]

theorem eraseDups_concat (texts : List String) (s : String) :
    (texts ++ [s]).eraseDups = texts.eraseDups ++ if s ∈ texts then [] else [s] := by
  rw [List.eraseDups_append]
  by_cases h : s ∈ texts
  · simp [List.removeAll, h]
  · simp [List.removeAll, h, List.eraseDups_cons]

theorem Numbered.name?_of_notMem (h : Numbered texts t) (hs : s ∉ texts) : t.name? s = none := by
  rwa [name?_eq_none_iff h.numbers, h.texts, List.mem_eraseDups]

theorem Numbered.intern_of_mem (h : Numbered texts t) (hs : s ∈ texts) : (t.intern s).2 = t := by
  rcases hn : t.name? s with _ | x
  · rw [name?_eq_none_iff h.numbers, h.texts, List.mem_eraseDups] at hn
    exact absurd hs hn
  · rw [intern_of_some hn]

/-- What becomes of a table when one more text is named. -/
theorem Numbered.intern (h : Numbered texts t) (s : String) :
    Numbered (texts ++ [s]) (t.intern s).2 := by
  refine ⟨?_, intern_wellFormed h.numbers s⟩
  rw [eraseDups_concat, ← h.texts]
  by_cases hs : s ∈ texts
  · rw [h.intern_of_mem hs, if_pos hs, List.append_nil]
  · rw [intern_of_none (h.name?_of_notMem hs), if_neg hs, Array.toList_push]

theorem Numbered.foldl_intern (h : Numbered texts t) (more : List String) :
    Numbered (texts ++ more) (more.foldl (fun table text => (table.intern text).2) t) := by
  induction more generalizing texts t with
  | nil => rwa [List.append_nil]
  | cons text more ih =>
    rw [List.append_cons]
    exact ih (h.intern text)

theorem numbered_initial : Numbered reserved initial := by
  have hempty : Numbered [] empty := ⟨rfl, fun text i => by simp [empty]⟩
  exact hempty.foldl_intern reserved

theorem requested_append (calls more : List Call) :
    requested (calls ++ more) = requested calls ++ more.filterMap Call.text? := by
  rw [requested, requested, List.filterMap_append, List.append_assoc]

theorem after_concat (calls : List Call) (call : Call) :
    after (calls ++ [call]) = ((after calls).respond call).2 := by
  rw [after, List.foldl_append]
  rfl

theorem room_of_append {calls more : List Call}
    (h : (requested (calls ++ more)).eraseDups.length ≤ Name.maxIndex) :
    (requested calls).eraseDups.length ≤ Name.maxIndex := by
  rw [requested_append, List.eraseDups_append, List.length_append] at h
  omega

theorem respond_of_room {call : Call} (h : Numbered texts t) (hs : call.text? = some s)
    (hroom : (texts ++ [s]).eraseDups.length ≤ Name.maxIndex) :
    t.respond call = (.named (.ok (t.intern s).1), (t.intern s).2) := by
  cases call with
  | intern text =>
    obtain rfl := Option.some.inj hs
    rfl
  | tryIntern text =>
    obtain rfl := Option.some.inj hs
    have hsize : t.name? text = none → t.texts.size ≤ Name.maxIndex := by
      intro hn
      rw [eraseDups_concat, List.length_append, ← h.texts, Array.length_toList] at hroom
      omega
    rw [respond, tryIntern_of_room hsize]
  | lookup name => cases hs

theorem numbered_after (hroom : (requested calls).eraseDups.length ≤ Name.maxIndex) :
    Numbered (requested calls) (after calls) := by
  induction calls using List.reverseRecOn with
  | nil =>
    rw [requested, List.filterMap_nil, List.append_nil]
    exact numbered_initial
  | append_singleton calls call ih =>
    have hbefore := ih (room_of_append hroom)
    rw [after_concat, requested_append] at *
    rcases hs : call.text? with _ | s
    · cases call with
      | lookup name => rwa [List.filterMap_cons_none hs, List.filterMap_nil, List.append_nil]
      | intern text => cases hs
      | tryIntern text => cases hs
    · rw [List.filterMap_cons_some hs, List.filterMap_nil] at *
      rw [respond_of_room hbefore hs hroom]
      exact hbefore.intern s

theorem Numbered.extends {more : List String} {u : NameTable} (h : Numbered texts t)
    (hu : Numbered (texts ++ more) u) : u.Extends t := by
  rw [Extends, h.texts, hu.texts, List.eraseDups_append]
  exact List.prefix_append _ _

theorem Gives.knows {calls : List Call} (h : Gives calls s x)
    (hroom : (requested calls).eraseDups.length ≤ Name.maxIndex) :
    (after calls).Knows x ∧ (after calls).lookup x = s := by
  have hlast := numbered_after hroom
  obtain ⟨first, call, later, rfl, hs, hx⟩ := h
  have hroom' := hroom
  rw [List.append_cons] at hroom'
  have hcall := room_of_append hroom'
  have hfirst := numbered_after (room_of_append hcall)
  rw [requested_append, List.filterMap_cons_some hs] at hcall
  rw [respond_of_room hfirst hs hcall] at hx
  obtain rfl : ((after first).intern s).1 = x := by simpa using hx
  obtain ⟨hknows, hlookup⟩ := intern_knows hfirst.numbers s
  rw [requested_append, List.filterMap_cons_some hs, List.append_cons] at hlast
  have hextends := (hfirst.intern s).extends hlast
  exact ⟨hextends.knows hknows, (hextends.lookup hknows).trans hlookup⟩

/-- What can be relied on after calls on a new table. -/
structure Stable (calls : List Call) : Prop where
  texts : (after calls).texts.toList = (requested calls).eraseDups
  nodup : (after calls).texts.toList.Nodup
  reserved : reserved <+: (after calls).texts.toList
  numbers : ∀ (s : String) (i : ℕ),
    (after calls).numbers[s]? = some i ↔ (after calls).texts[i]? = some s
  /-- Every call for a name is answered with the place that its text has at last. -/
  named : ∀ before call rest s, calls = before ++ call :: rest → call.text? = some s →
    ∃ x, ((after before).respond call).1 = .named (.ok x) ∧ (after calls).texts[x.index]? = some s
  /-- A text that was named before is nothing new to the table. -/
  again : ∀ before call rest s, calls = before ++ call :: rest → call.text? = some s →
    s ∈ requested before → ((after before).respond call).2 = after before
  /-- A new text gets the next number. -/
  fresh : ∀ before call rest s, calls = before ++ call :: rest → call.text? = some s →
    s ∉ requested before →
      ((after before).respond call).1 = .named (.ok ⟨(after before).texts.size⟩) ∧
      ((after before).respond call).2.texts = (after before).texts.push s
  injective : ∀ s s' x y, Gives calls s x → Gives calls s' y → (x = y ↔ s = s')
  lookup : ∀ s x, Gives calls s x → (after calls).respond (.lookup x) = (.text s, after calls)
  unknown : ∀ x : Name, (after calls).texts.size ≤ x.index →
    (after calls).respond (.lookup x) = (.text "", after calls)

theorem stable_of_room (hroom : (requested calls).eraseDups.length ≤ Name.maxIndex) :
    Stable calls := by
  have hlast := numbered_after hroom
  -- How each call for a name is answered, from the table that it meets.
  have hstep : ∀ before call rest s, calls = before ++ call :: rest → call.text? = some s →
      Numbered (requested before) (after before) ∧ (after before).respond call =
        (.named (.ok ((after before).intern s).1), ((after before).intern s).2) := by
    rintro before call rest s rfl hs
    have hbefore := numbered_after (room_of_append hroom)
    rw [List.append_cons] at hroom
    have hcall := room_of_append hroom
    rw [requested_append, List.filterMap_cons_some hs] at hcall
    exact ⟨hbefore, respond_of_room hbefore hs hcall⟩
  have hgives : ∀ s x, Gives calls s x → (after calls).Knows x ∧ (after calls).lookup x = s :=
    fun s x h => h.knows hroom
  constructor
  case texts => exact hlast.texts
  case nodup => exact hlast.numbers.nodup
  case reserved =>
    have hdistinct : reserved.eraseDups = reserved := by decide
    rw [hlast.texts, requested, List.eraseDups_append, hdistinct]
    exact List.prefix_append _ _
  case numbers => exact hlast.numbers
  case named =>
    intro before call rest s hsplit hs
    obtain ⟨-, hrespond⟩ := hstep before call rest s hsplit hs
    refine ⟨_, congrArg Prod.fst hrespond, ?_⟩
    obtain ⟨hknows, hlookup⟩ :=
      hgives s _ ⟨before, call, rest, hsplit, hs, congrArg Prod.fst hrespond⟩
    rw [NameTable.lookup, Array.getElem?_eq_getElem hknows, Option.getD_some] at hlookup
    rw [Array.getElem?_eq_getElem hknows, hlookup]
  case again =>
    intro before call rest s hsplit hs hmem
    obtain ⟨hbefore, hrespond⟩ := hstep before call rest s hsplit hs
    rw [hrespond, hbefore.intern_of_mem hmem]
  case fresh =>
    intro before call rest s hsplit hs hmem
    obtain ⟨hbefore, hrespond⟩ := hstep before call rest s hsplit hs
    rw [hrespond, intern_of_none (hbefore.name?_of_notMem hmem)]
    exact ⟨rfl, rfl⟩
  case injective =>
    intro s s' x y hx hy
    obtain ⟨hknows, rfl⟩ := hgives s x hx
    obtain ⟨hknows', rfl⟩ := hgives s' y hy
    constructor
    · rintro rfl
      rfl
    · exact lookup_injective hlast.numbers hknows hknows'
  case lookup =>
    intro s x h
    rw [respond, (hgives s x h).2]
  case unknown =>
    intro x h
    rw [respond, lookup_of_size_le h]

/-- As long as there are not more texts than names, a table of names is a stable bijection at every
point of a run: texts are numbered in the order in which they come first, each once, and both ways
lead back. -/
theorem names_are_stable (calls : List Call)
    (hroom : (requested calls).eraseDups.length ≤ Name.maxIndex) :
    ∀ front, front <+: calls → Stable front := by
  rintro front ⟨rest, rfl⟩
  exact stable_of_room (room_of_append hroom)

/-- Calls that name a text twice, and a reserved one. -/
def repeatedCalls : List Call :=
  [.intern "b", .tryIntern "print", .lookup ⟨6⟩, .tryIntern "a", .intern "b"]

theorem repeatedCalls_are_stable :
    (requested repeatedCalls).eraseDups.length ≤ Name.maxIndex ∧
    (after repeatedCalls).texts.toList = reserved ++ ["b", "a"] ∧
    ((after repeatedCalls).respond (.lookup ⟨7⟩)).1 = .text "a" := by
  have hroom : (requested repeatedCalls).eraseDups.length ≤ Name.maxIndex := by decide
  have hstable := names_are_stable repeatedCalls hroom repeatedCalls List.prefix_rfl
  have hgives : Gives repeatedCalls "a" ⟨7⟩ :=
    ⟨repeatedCalls.take 3, .tryIntern "a", [.intern "b"], rfl, rfl, by decide +kernel⟩
  refine ⟨hroom, ?_, congrArg Prod.fst (hstable.lookup _ _ hgives)⟩
  rw [hstable.texts]
  decide

end PrefixLang.NameTable
