import PrefixLang.Proofs.Bindings
/-!
What a session answers over time. Runs that fail, and texts that are named or looked up in between,
change the numbers of names but no later answer.
-/

namespace PrefixLang.Session

inductive Call where
  | evaluate (source : String)
  | run (format : Format) (source : String)
  | intern (text : String)
  | lookup (name : Name)
  deriving DecidableEq, Repr

inductive Answer where
  | outputs (result : Except Failure (List Output))
  | rendered (result : Except Failure String)
  | name (name : Name)
  | text (text : String)

def Call.isRun : Call → Bool
  | .evaluate _ | .run _ _ => true
  | .intern _ | .lookup _ => false

def Answer.failed : Answer → Bool
  | .outputs (.error _) | .rendered (.error _) => true
  | _ => false

def respond (s : Session) : Call → Answer × Session
  | .evaluate source => let (result, s) := s.evaluate source; (.outputs result, s)
  | .run format source => let (result, s) := s.run format source; (.rendered result, s)
  | .intern text => let (name, s) := s.intern text; (.name name, s)
  | .lookup name => (.text (s.names.lookup name), s)

def after (s : Session) (calls : List Call) : Session :=
  calls.foldl (fun s call => (s.respond call).2) s

variable {s t : Session}

theorem Alike.respond (h : s.Alike t) (call : Call) :
    (call.isRun → (s.respond call).1 = (t.respond call).1) ∧
      (s.respond call).2.Alike (t.respond call).2 := by
  cases call with
  | evaluate source =>
    obtain ⟨hresult, halike⟩ := h.evaluate source
    exact ⟨fun _ => congrArg Answer.outputs hresult, halike⟩
  | run format source =>
    obtain ⟨hresult, halike⟩ := h.evaluate source
    exact ⟨fun _ => congrArg (Answer.rendered ∘ Except.map format.render) hresult, halike⟩
  | intern text =>
    refine ⟨fun hr => (nomatch hr), ?_⟩
    exact (h.left.alike_intern text).symm.trans (h.trans (h.right.alike_intern text))
  | lookup name => exact ⟨fun hr => (nomatch hr), h⟩

theorem WellFormed.respond (h : s.WellFormed) (call : Call) : (s.respond call).2.WellFormed :=
  (h.alike.respond call).2.left

theorem WellFormed.after (h : s.WellFormed) (calls : List Call) : (s.after calls).WellFormed := by
  induction calls generalizing s with
  | nil => exact h
  | cons call rest ih => exact ih (h.respond call)

theorem WellFormed.alike_respond (h : s.WellFormed) {call : Call}
    (hc : call.isRun → (s.respond call).1.failed) : s.Alike (s.respond call).2 := by
  cases call with
  | evaluate source =>
    have hfailed := hc rfl
    rcases hs : (s.evaluate source).1 with failure | outputs
    · exact h.alike_of_error hs
    · simp [Session.respond, hs, Answer.failed] at hfailed
  | run format source =>
    have hfailed := hc rfl
    rcases hs : (s.evaluate source).1 with failure | outputs
    · exact h.alike_of_error hs
    · simp [Session.respond, run, hs, Except.map, Answer.failed] at hfailed
  | intern text => exact h.alike_intern text
  | lookup name => exact h.alike

/-- A call of a history, and whether it is kept when the history is thinned. -/
structure Entry where
  call : Call
  kept : Bool
  deriving DecidableEq, Repr

/-- All runs that are dropped are runs that fail. -/
def DropsOnlyFailures (s : Session) : List Entry → Prop
  | [] => True
  | entry :: rest => (entry.kept = false → entry.call.isRun → (s.respond entry.call).1.failed) ∧
      DropsOnlyFailures (s.respond entry.call).2 rest

def runAnswers (s : Session) : List Entry → List Answer
  | [] => []
  | entry :: rest =>
    let (answer, s) := s.respond entry.call
    if entry.kept && entry.call.isRun then answer :: s.runAnswers rest else s.runAnswers rest

theorem Alike.runAnswers (h : s.Alike t) {history : List Entry} (hd : s.DropsOnlyFailures history) :
    t.runAnswers (history.filter Entry.kept) = s.runAnswers history := by
  induction history generalizing s t with
  | nil => rfl
  | cons entry rest ih =>
    obtain ⟨hdropped, hrest⟩ := hd
    rcases hk : entry.kept with _ | _
    · have hsame := h.left.alike_respond (hdropped hk)
      rw [List.filter_cons_of_neg (by simp [hk]), Session.runAnswers, hk]
      exact ih (hsame.symm.trans h) hrest
    · obtain ⟨hanswer, halike⟩ := h.respond entry.call
      rw [List.filter_cons_of_pos hk, Session.runAnswers, Session.runAnswers, hk]
      simp only [Bool.true_and]
      rw [ih halike hrest]
      by_cases hr : entry.call.isRun
      · rw [if_pos hr, if_pos hr, hanswer hr]
      · rw [if_neg hr, if_neg hr]

/-- Failed runs leave no trace: without any of them, and without any of the texts named or looked up
in between, all other runs of a history answer as before. -/
theorem dropped_failures_leave_no_trace (history : List Entry)
    (h : initial.DropsOnlyFailures history) :
    initial.runAnswers (history.filter Entry.kept) = initial.runAnswers history :=
  initial_wellFormed.alike.runAnswers h

/-- The failed run binds `x` and names `y` before it fails, and all of it may be dropped. -/
def failingHistory : List Entry :=
  [⟨.run .plain "x = 1 y", false⟩, ⟨.intern "z", false⟩, ⟨.lookup ⟨7⟩, false⟩,
    ⟨.evaluate "print x", true⟩, ⟨.run .html "w = 2 w", true⟩]

theorem failingHistory_leaves_no_trace :
    initial.DropsOnlyFailures failingHistory ∧
    initial.runAnswers [⟨.evaluate "print x", true⟩, ⟨.run .html "w = 2 w", true⟩]
      = initial.runAnswers failingHistory := by
  have hfailed : (initial.respond (.run .plain "x = 1 y")).1.failed = true := by decide +kernel
  have hd : initial.DropsOnlyFailures failingHistory :=
    ⟨fun _ _ => hfailed, fun _ hr => (nomatch hr), fun _ hr => (nomatch hr),
      fun hk => (nomatch hk), fun hk => (nomatch hk), trivial⟩
  exact ⟨hd, dropped_failures_leave_no_trace failingHistory hd⟩

end PrefixLang.Session
