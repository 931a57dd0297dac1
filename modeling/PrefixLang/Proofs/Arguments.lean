import PrefixLang.CommandLine.RunArguments
import Mathlib.Data.List.Induction
import Mathlib.Tactic.Common
/-!
What the arguments of a run say. Flags and the other arguments have nothing to do with each other:
the last flag decides the format, and whatever the flags are, the first argument that must not stand
where it stands is reported.
-/

namespace PrefixLang.RunArguments

/-- The format that a flag asks for. -/
def flag? : String → Option Format
  | "--plain" => some .plain
  | "--html" => some .html
  | _ => none

/-- An option that is no flag. -/
def IsUnknown (s : String) : Prop := flag? s = none ∧ "-".toList <+: s.toList ∧ s ≠ "-"

instance (s : String) : Decidable (IsUnknown s) :=
  inferInstanceAs (Decidable (_ ∧ _ <+: _ ∧ _))

/-- All else is a path, a dash alone included. -/
def IsPath (s : String) : Prop := flag? s = none ∧ ¬IsUnknown s

instance (s : String) : Decidable (IsPath s) := inferInstanceAs (Decidable (_ ∧ ¬_))

/-- The format of the last flag. Without a flag, results are shown as markup. -/
def lastFormat (arguments : List String) : Format := (arguments.filterMap flag?).getLastD .html

/-- No option is unknown, and there is one path at most. -/
def InOrder (arguments : List String) : Prop :=
  (∀ s ∈ arguments, ¬IsUnknown s) ∧ (arguments.filter (IsPath ·)).length ≤ 1

/-- The first argument that must not stand where it stands: an unknown option, or a path behind
another one. -/
inductive FirstOffence (arguments : List String) : Error → Prop where
  | unknown {before s after} : arguments = before ++ s :: after → InOrder before → IsUnknown s →
      FirstOffence arguments (.unknownOption s)
  | second {before s after} : arguments = before ++ s :: after → InOrder before → IsPath s →
      (∃ t ∈ before, IsPath t) → FirstOffence arguments (.unexpectedArgument s)

variable {s : String} {before rest arguments : List String} {error : Error} {format : Format}
  {path? : Option String}

theorem flag_or_unknown_or_path (s : String) :
    (∃ format, flag? s = some format) ∨ IsUnknown s ∨ IsPath s := by
  rcases hflag : flag? s with _ | format
  · by_cases h : IsUnknown s
    · exact .inr (.inl h)
    · exact .inr (.inr ⟨hflag, h⟩)
  · exact .inl ⟨format, rfl⟩

theorem ofText_of_flag (h : flag? s = some format) : Argument.ofText s = .format format := by
  unfold flag? at h
  split at h <;> cases h <;> rfl

theorem ne_of_flag_eq_none (h : flag? s = none) : s ≠ "--plain" ∧ s ≠ "--html" := by
  constructor <;> rintro rfl <;> cases h

theorem begins_iff : "-".toList <+: s.toList ↔ s.toList.head? = some '-' := by
  cases s.toList <;> simp [eq_comm]

theorem ofText_of_unknown (h : IsUnknown s) : Argument.ofText s = .unknown := by
  obtain ⟨hflag, hdash, hne⟩ := h
  obtain ⟨hplain, hhtml⟩ := ne_of_flag_eq_none hflag
  rw [Argument.ofText, if_neg hplain, if_neg hhtml, if_pos ⟨begins_iff.1 hdash, hne⟩]

theorem ofText_of_path (h : IsPath s) : Argument.ofText s = .path := by
  obtain ⟨hflag, hknown⟩ := h
  obtain ⟨hplain, hhtml⟩ := ne_of_flag_eq_none hflag
  rw [Argument.ofText, if_neg hplain, if_neg hhtml, if_neg]
  rintro ⟨hdash, hne⟩
  exact hknown ⟨hflag, begins_iff.2 hdash, hne⟩

theorem readFrom_flag {f : Format} (h : flag? s = some f) :
    readFrom path? format (s :: rest) = readFrom path? f rest := by
  rw [readFrom, ofText_of_flag h]

theorem readFrom_unknown (h : IsUnknown s) :
    readFrom path? format (s :: rest) = .error (.unknownOption s) := by
  rw [readFrom, ofText_of_unknown h]

theorem readFrom_path (h : IsPath s) :
    readFrom path? format (s :: rest) =
      if path?.isSome then .error (.unexpectedArgument s) else readFrom (some s) format rest := by
  rw [readFrom, ofText_of_path h]

theorem readFrom_eq_map (path? : Option String) (format : Format) (arguments : List String) :
    readFrom path? format arguments =
      (readFrom path? .html (arguments.filter (flag? · = none))).map fun found =>
        ⟨found.path, (arguments.filterMap flag?).getLastD format⟩ := by
  induction arguments generalizing path? format with
  | nil => cases path? <;> rfl
  | cons s rest ih =>
    rcases flag_or_unknown_or_path s with ⟨f, hflag⟩ | hunknown | hpath
    · rw [readFrom_flag hflag, ih, List.filter_cons_of_neg (by simp [hflag]),
        List.filterMap_cons_some hflag, List.getLastD_cons]
    · rw [readFrom_unknown hunknown, List.filter_cons_of_pos (by simp [hunknown.1]),
        readFrom_unknown hunknown]
      rfl
    · rw [readFrom_path hpath, List.filter_cons_of_pos (by simp [hpath.1]), readFrom_path hpath,
        List.filterMap_cons_none hpath.1]
      split
      · rfl
      · exact ih _ _

theorem InOrder.of_append (h : InOrder (before ++ rest)) : InOrder before := by
  obtain ⟨hknown, hpaths⟩ := h
  rw [List.filter_append, List.length_append] at hpaths
  exact ⟨fun s hs => hknown s (List.mem_append_left _ hs), by omega⟩

theorem InOrder.filter_eq_nil (h : InOrder (before ++ [s])) (hs : IsPath s) :
    before.filter (IsPath ·) = [] := by
  have hpaths := h.2
  rw [List.filter_append, List.filter_cons_of_pos (by simpa using hs), List.length_append] at hpaths
  exact List.eq_nil_of_length_eq_zero (Nat.le_zero.1 (Nat.le_of_succ_le_succ hpaths))

theorem not_isPath_of_flag {f : Format} (h : flag? s = some f) : ¬IsPath s := by
  intro hpath
  rw [hpath.1] at h
  cases h

/-- Arguments in order are read through: the path found is the only one among them, and the format
that of their last flag. -/
theorem readFrom_of_inOrder (h : InOrder before) (format : Format) (rest : List String) :
    ∃ path? : Option String, path?.toList = before.filter (IsPath ·) ∧
      readFrom none format (before ++ rest)
        = readFrom path? ((before.filterMap flag?).getLastD format) rest := by
  induction before using List.reverseRecOn generalizing rest with
  | nil => exact ⟨none, rfl, rfl⟩
  | append_singleton before s ih =>
    obtain ⟨path?, hpath?, hread⟩ := ih h.of_append (s :: rest)
    rw [List.append_assoc, List.singleton_append, hread, List.filter_append, List.filterMap_append]
    rcases flag_or_unknown_or_path s with ⟨f, hflag⟩ | hunknown | hpath
    · refine ⟨path?, ?_, ?_⟩
      · simp [hpath?, not_isPath_of_flag hflag]
      · rw [readFrom_flag hflag, List.filterMap_cons_some hflag]
        simp
    · exact absurd hunknown (h.1 s (by simp))
    · obtain rfl : path? = none := by
        rw [h.filter_eq_nil hpath] at hpath?
        exact Option.toList_eq_nil_iff.1 hpath?
      refine ⟨some s, ?_, ?_⟩
      · rw [← hpath?]
        simp [hpath]
      · rw [readFrom_path hpath, List.filterMap_cons_none hpath.1]
        simp

theorem ofList_of_inOrder (h : InOrder arguments) :
    ∃ path? : Option String, path?.toList = arguments.filter (IsPath ·) ∧
      ofList arguments = readFrom path? (lastFormat arguments) [] := by
  obtain ⟨path?, hpath?, hread⟩ := readFrom_of_inOrder h .html []
  rw [List.append_nil] at hread
  exact ⟨path?, hpath?, hread⟩

theorem ofList_of_firstOffence (h : FirstOffence arguments error) :
    ofList arguments = .error error := by
  cases h with
  | unknown hsplit hbefore hunknown =>
    obtain ⟨path?, -, hread⟩ := readFrom_of_inOrder hbefore .html (_ :: _)
    rw [ofList, hsplit, hread, readFrom_unknown hunknown]
  | second hsplit hbefore hpath hearlier =>
    obtain ⟨path?, hpath?, hread⟩ := readFrom_of_inOrder hbefore .html (_ :: _)
    have hsome : path?.isSome := by
      obtain ⟨t, ht, htpath⟩ := hearlier
      have hmem : t ∈ path?.toList := by
        rw [hpath?]
        exact List.mem_filter.2 ⟨ht, by simpa using htpath⟩
      cases path? <;> simp_all
    rw [ofList, hsplit, hread, readFrom_path hpath, if_pos hsome]

theorem FirstOffence.append (h : FirstOffence arguments error) (more : List String) :
    FirstOffence (arguments ++ more) error := by
  cases h with
  | unknown hsplit hbefore hunknown =>
    exact .unknown (by rw [hsplit, List.append_assoc, List.cons_append]) hbefore hunknown
  | second hsplit hbefore hpath hearlier =>
    exact .second (by rw [hsplit, List.append_assoc, List.cons_append]) hbefore hpath hearlier

theorem InOrder.concat (h : InOrder arguments) (hs : ¬IsUnknown s)
    (hpath : IsPath s → ∀ t ∈ arguments, ¬IsPath t) : InOrder (arguments ++ [s]) := by
  obtain ⟨hknown, hpaths⟩ := h
  refine ⟨?_, ?_⟩
  · rw [List.forall_mem_append, List.forall_mem_singleton]
    exact ⟨hknown, hs⟩
  · rw [List.filter_append, List.length_append]
    by_cases hp : IsPath s
    · have hnone : arguments.filter (IsPath ·) = [] := by
        simpa [List.filter_eq_nil_iff] using hpath hp
      simp [hnone, hp]
    · simpa [hp] using hpaths

theorem inOrder_or_firstOffence (arguments : List String) :
    InOrder arguments ∨ ∃ error, FirstOffence arguments error := by
  induction arguments using List.reverseRecOn with
  | nil => exact .inl ⟨nofun, Nat.zero_le _⟩
  | append_singleton before s ih =>
    rcases ih with hbefore | ⟨error, hoffence⟩
    · rcases flag_or_unknown_or_path s with ⟨f, hflag⟩ | hunknown | hpath
      · have hknown : ¬IsUnknown s := fun h => by rw [h.1] at hflag; cases hflag
        exact .inl (hbefore.concat hknown fun h => absurd h (not_isPath_of_flag hflag))
      · exact .inr ⟨_, .unknown rfl hbefore hunknown⟩
      · by_cases hearlier : ∃ t ∈ before, IsPath t
        · exact .inr ⟨_, .second rfl hbefore hpath hearlier⟩
        · refine .inl (hbefore.concat hpath.2 fun _ t ht h => hearlier ⟨t, ht, h⟩)
    · exact .inr ⟨error, hoffence.append [s]⟩

theorem FirstOffence.not_inOrder (h : FirstOffence arguments error) : ¬InOrder arguments := by
  intro horder
  cases h with
  | unknown hsplit _ hunknown => exact horder.1 _ (by simp [hsplit]) hunknown
  | @second before s after hsplit _ hpath hearlier =>
    rw [hsplit, ← List.singleton_append, ← List.append_assoc] at horder
    obtain ⟨t, ht, htpath⟩ := hearlier
    have hnone := List.filter_eq_nil_iff.1 (horder.of_append.filter_eq_nil hpath) t ht
    exact hnone (by simpa using htpath)

theorem ofList_cases (arguments : List String) :
    (InOrder arguments ∧ arguments.filter (IsPath ·) = [] ∧
      ofList arguments = .error .missingPath) ∨
    (∃ path, InOrder arguments ∧ arguments.filter (IsPath ·) = [path] ∧
      ofList arguments = .ok ⟨path, lastFormat arguments⟩) ∨
    ∃ error, FirstOffence arguments error ∧ ofList arguments = .error error := by
  rcases inOrder_or_firstOffence arguments with horder | ⟨error, hoffence⟩
  · obtain ⟨_ | path, hpath?, hread⟩ := ofList_of_inOrder horder
    · exact .inl ⟨horder, hpath?.symm, hread⟩
    · exact .inr (.inl ⟨path, horder, hpath?.symm, hread⟩)
  · exact .inr (.inr ⟨error, hoffence, ofList_of_firstOffence hoffence⟩)

theorem ofList_eq_ok_iff {path : String} : ofList arguments = .ok ⟨path, format⟩ ↔
    (∀ s ∈ arguments, ¬IsUnknown s) ∧ arguments.filter (IsPath ·) = [path] ∧
      format = lastFormat arguments := by
  rcases ofList_cases arguments with ⟨-, hpaths, hread⟩ | ⟨found, horder, hpaths, hread⟩ |
    ⟨error, hoffence, hread⟩
  · simp [hread, hpaths]
  · rw [hread, hpaths, Except.ok.injEq, mk.injEq, List.singleton_inj, eq_comm (a := format)]
    exact ⟨fun h => ⟨horder.1, h⟩, fun h => h.2⟩
  · rw [hread]
    refine ⟨nofun, fun ⟨hknown, hpaths, _⟩ => ?_⟩
    exact absurd ⟨hknown, by simp [hpaths]⟩ hoffence.not_inOrder

theorem ofList_eq_missingPath_iff : ofList arguments = .error .missingPath ↔
    (∀ s ∈ arguments, ¬IsUnknown s) ∧ ∀ s ∈ arguments, ¬IsPath s := by
  have hnone : arguments.filter (IsPath ·) = [] ↔ ∀ s ∈ arguments, ¬IsPath s := by
    simp [List.filter_eq_nil_iff]
  rw [← hnone]
  rcases ofList_cases arguments with ⟨horder, hpaths, hread⟩ | ⟨found, -, hpaths, hread⟩ |
    ⟨error, hoffence, hread⟩
  · exact ⟨fun _ => ⟨horder.1, hpaths⟩, fun _ => hread⟩
  · simp [hread, hpaths]
  · rw [hread]
    refine ⟨?_, fun ⟨hknown, hpaths⟩ => ?_⟩
    · rintro ⟨rfl⟩
      cases hoffence
    · exact absurd ⟨hknown, by simp [hpaths]⟩ hoffence.not_inOrder

theorem firstOffence_iff :
    FirstOffence arguments error ↔ ofList arguments = .error error ∧ error ≠ .missingPath := by
  constructor
  · intro h
    refine ⟨ofList_of_firstOffence h, ?_⟩
    rintro rfl
    cases h
  · rintro ⟨h, hne⟩
    rcases ofList_cases arguments with ⟨-, -, hread⟩ | ⟨found, -, -, hread⟩ |
      ⟨other, hoffence, hread⟩
    · rw [hread] at h
      cases h
      exact absurd rfl hne
    · rw [hread] at h
      cases h
    · rw [hread] at h
      cases h
      exact hoffence

theorem exists_firstOffence_iff : (∃ error, FirstOffence arguments error) ↔
    (∃ s ∈ arguments, IsUnknown s) ∨ 2 ≤ (arguments.filter (IsPath ·)).length := by
  have hdisorder : ¬InOrder arguments ↔
      (∃ s ∈ arguments, IsUnknown s) ∨ 2 ≤ (arguments.filter (IsPath ·)).length := by
    rw [InOrder, not_and_or, Nat.not_le]
    push Not
    exact Iff.rfl
  rw [← hdisorder]
  constructor
  · rintro ⟨error, h⟩
    exact h.not_inOrder
  · exact (inOrder_or_firstOffence arguments).resolve_left

/-- A path and a format are found if and only if no option is unknown and there is one path; they
are that path and the format of the last flag. Only the order of the flags among themselves and that
of the other arguments among themselves matter. If there is an unknown option or a second path, the
first of them is reported, and a missing path only if there is neither, and no path at all. -/
theorem ofList_reports_the_first_offence (arguments : List String) :
    (∀ path format, ofList arguments = .ok ⟨path, format⟩ ↔ (∀ s ∈ arguments, ¬IsUnknown s) ∧
      arguments.filter (IsPath ·) = [path] ∧ format = lastFormat arguments) ∧
    (∀ other, other.filterMap flag? = arguments.filterMap flag? →
      other.filter (flag? · = none) = arguments.filter (flag? · = none) →
        ofList other = ofList arguments) ∧
    ((∃ error, FirstOffence arguments error) ↔
      (∃ s ∈ arguments, IsUnknown s) ∨ 2 ≤ (arguments.filter (IsPath ·)).length) ∧
    (∀ error, FirstOffence arguments error ↔
      ofList arguments = .error error ∧ error ≠ .missingPath) ∧
    (ofList arguments = .error .missingPath ↔
      (∀ s ∈ arguments, ¬IsUnknown s) ∧ ∀ s ∈ arguments, ¬IsPath s) := by
  refine ⟨fun path format => ofList_eq_ok_iff, ?_, exists_firstOffence_iff,
    fun error => firstOffence_iff, ofList_eq_missingPath_iff⟩
  intro other hflags hothers
  rw [ofList, ofList, readFrom_eq_map, hflags, hothers, ← readFrom_eq_map]

/-- The path moves behind the first flag, and the last flag still wins. -/
theorem movedPath_is_read_alike :
    ["--html", "main.gl", "--plain"].filterMap flag?
        = ["main.gl", "--html", "--plain"].filterMap flag? ∧
      ["--html", "main.gl", "--plain"].filter (flag? · = none)
        = ["main.gl", "--html", "--plain"].filter (flag? · = none) ∧
      ofList ["--html", "main.gl", "--plain"] = .ok ⟨"main.gl", .plain⟩ := by
  obtain ⟨hok, hmoved, -⟩ := ofList_reports_the_first_offence ["main.gl", "--html", "--plain"]
  have hflags : ["--html", "main.gl", "--plain"].filterMap flag?
      = ["main.gl", "--html", "--plain"].filterMap flag? := by decide
  have hothers : ["--html", "main.gl", "--plain"].filter (flag? · = none)
      = ["main.gl", "--html", "--plain"].filter (flag? · = none) := by decide
  refine ⟨hflags, hothers, ?_⟩
  rw [hmoved _ hflags hothers, hok]
  decide

end PrefixLang.RunArguments
