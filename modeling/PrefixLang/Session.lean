import PrefixLang.Failure
import PrefixLang.Lexeme.Spans
import PrefixLang.Program.Dump
import PrefixLang.Program.Evaluation
import PrefixLang.Program.Parsing
import PrefixLang.Render
/-!
Sources that are run one after the other. A run that succeeds leaves its bindings to the next one; a
run that fails leaves none. Names stay known in either case.
-/

namespace PrefixLang

structure Session where
  names : NameTable
  bindings : Environment

namespace Session

def initial : Session := ⟨NameTable.initial, Environment.empty⟩

def readProgram (names : NameTable) (source : String) : Except Failure Program × NameTable :=
  let (tokens, names) := lex names source
  (tokens.mapError Failure.lex >>= fun ts => (parseProgram ts).mapError Failure.parse, names)

/-- The statements of a source as trees. -/
def read (names : NameTable) (source : String) : Except Failure Forest × NameTable :=
  let (tokens, names) := lex names source
  (tokens.mapError Failure.lex >>= fun ts => (parse ts).mapError Failure.parse, names)

theorem readProgram_eq (names : NameTable) (source : String) :
    readProgram names source
      = ((read names source).1.map Program.ofForest, (read names source).2) := by
  rw [readProgram, read]
  rcases lex names source with ⟨error | tokens, names⟩
  · rfl
  · change ((parseProgram tokens).mapError Failure.parse, names)
      = (((parse tokens).mapError Failure.parse).map Program.ofForest, names)
    rw [parseProgram_eq]
    cases parse tokens <;> rfl

theorem exists_forest_of_readProgram {names names' : NameTable} {source : String} {p : Program}
    (h : readProgram names source = (.ok p, names')) :
    ∃ forest, read names source = (.ok forest, names') ∧ p = Program.ofForest forest := by
  rw [readProgram_eq] at h
  rcases hread : read names source with ⟨error | forest, table⟩
  · rw [hread] at h
    cases h
  · rw [hread] at h
    cases h
    exact ⟨forest, rfl, rfl⟩

theorem read_of_readProgram_error {names names' : NameTable} {source : String} {failure : Failure}
    (h : readProgram names source = (.error failure, names')) :
    read names source = (.error failure, names') := by
  rw [readProgram_eq] at h
  rcases hread : read names source with ⟨error | forest, table⟩
  · rw [hread] at h
    cases h
    rfl
  · rw [hread] at h
    cases h

/-- Every number in the table of a source leads to a node. -/
theorem evaluate_ne_hole {names names' : NameTable} {source : String} {p : Program}
    {env env' : Environment} {fault : Program.Fault}
    (h : readProgram names source = (.ok p, names')) :
    p.evaluate names' env ≠ (.error (.hole fault), env') := by
  obtain ⟨forest, -, rfl⟩ := exists_forest_of_readProgram h
  rw [Program.evaluate_ofForest]
  rcases PrefixLang.evaluate names' forest env with ⟨stop | outputs, final⟩ <;>
    exact fun heq => nomatch heq

theorem dump_ne_error {names names' : NameTable} {source : String} {p : Program}
    {fault : Program.Fault} (h : readProgram names source = (.ok p, names')) :
    p.dump names' ≠ .error fault := by
  obtain ⟨forest, -, rfl⟩ := exists_forest_of_readProgram h
  rw [Program.dump_ofForest]
  cases Expr.dump names' forest with
  | error reason => exact reason.elim
  | ok text => exact fun heq => nomatch heq

/-- Runs a source: what its statements show, and the session afterwards. -/
def evaluate (session : Session) (source : String) : Except Failure (List Output) × Session :=
  match hread : readProgram session.names source with
  | (.error failure, names) => (.error failure, { session with names })
  | (.ok program, names) =>
    match hrun : program.evaluate names session.bindings with
    | (.ok outputs, bindings) => (.ok outputs, ⟨names, bindings⟩)
    | (.error (.error e), _) => (.error (.eval e), { session with names })
    | (.error (.hole _), _) => absurd hrun (evaluate_ne_hole hread)

theorem evaluate_eq (session : Session) (source : String) :
    session.evaluate source =
      match read session.names source with
      | (.error failure, names) => (.error failure, { session with names })
      | (.ok forest, names) =>
        match PrefixLang.evaluate names forest session.bindings with
        | (.ok outputs, bindings) => (.ok outputs, ⟨names, bindings⟩)
        | (.error stop, _) => (.error (.eval stop.toError), { session with names }) := by
  rw [evaluate]
  split
  · next failure names hread => rw [read_of_readProgram_error hread]
  · next program names hread =>
    obtain ⟨forest, hforest, rfl⟩ := exists_forest_of_readProgram hread
    have hvalues := Program.evaluate_ofForest names forest session.bindings
    rw [hforest]
    simp only
    split
    · next outputs bindings hrun =>
      rw [hrun] at hvalues
      rcases hfinal : PrefixLang.evaluate names forest session.bindings with ⟨stop | shown, final⟩
      · rw [hfinal] at hvalues
        cases hvalues
      · rw [hfinal] at hvalues
        cases hvalues
        rfl
    · next e bindings hrun =>
      rw [hrun] at hvalues
      rcases hfinal : PrefixLang.evaluate names forest session.bindings with ⟨stop | shown, final⟩
      · rw [hfinal] at hvalues
        cases hvalues
        rfl
      · rw [hfinal] at hvalues
        cases hvalues
    · next fault bindings hrun => exact absurd hrun (evaluate_ne_hole hread)

def run (session : Session) (format : Format) (source : String) :
    Except Failure String × Session :=
  let (result, session) := session.evaluate source
  (result.map format.render, session)

def intern (session : Session) (text : String) : Name × Session :=
  let (name, names) := session.names.intern text
  (name, { session with names })

end Session

def runSource (format : Format) (source : String) : Except Failure String :=
  (Session.initial.run format source).1

/-- Runs a source on its own, unless a span in it cannot be made. -/
def runSourceBounded (format : Format) (source : String) :
    Except Span.RangeError (Except Failure String) :=
  (Lexeme.checkSpans source).map fun _ => runSource format source

theorem runSourceBounded_of_le {source : String} (format : Format)
    (h : source.utf8ByteSize ≤ Span.maxOffset) :
    runSourceBounded format source = .ok (runSource format source) := by
  rw [runSourceBounded, Lexeme.checkSpans_of_le h]
  rfl

def dumpSource (source : String) : Except Failure String :=
  match hread : Session.readProgram NameTable.initial source with
  | (.error failure, _) => .error failure
  | (.ok program, names) =>
    match hdump : program.dump names with
    | .ok text => .ok text
    | .error _ => absurd hdump (Session.dump_ne_error hread)

theorem dumpSource_eq (source : String) :
    dumpSource source = (Session.read NameTable.initial source).1.map fun forest =>
      match Expr.dump (Session.read NameTable.initial source).2 forest with
      | .ok text => text := by
  rw [dumpSource]
  split
  · next failure names hread =>
    rw [Session.read_of_readProgram_error hread]
    rfl
  · next program names hread =>
    obtain ⟨forest, hforest, rfl⟩ := Session.exists_forest_of_readProgram hread
    have htext := Program.dump_ofForest names forest
    rw [hforest]
    split
    · next text hdump =>
      rw [hdump] at htext
      rcases hlines : Expr.dump names forest with reason | lines
      · exact reason.elim
      · rw [hlines] at htext
        cases htext
        simp [Except.map, hlines]
    · next fault hdump => exact absurd hdump (Session.dump_ne_error hread)

end PrefixLang
