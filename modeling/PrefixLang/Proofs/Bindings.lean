import PrefixLang.Session
import PrefixLang.Proofs.Lexing
import PrefixLang.Proofs.Parsing
import PrefixLang.Proofs.Renaming
/-!
Bindings seen through their texts. Two sessions may number the same texts differently; as long as
they bind the same texts to the same values, no source tells them apart.
-/

namespace PrefixLang

namespace Environment

variable {names names' : NameTable} {env : Environment} {x : Name} {text : String}

def binding (env : Environment) (names : NameTable) (text : String) : Option Value :=
  (names.name? text).bind env.lookup

/-- All that is bound are names of a table. -/
def Within (env : Environment) (names : NameTable) : Prop :=
  ∀ x v, env.lookup x = some v → names.Knows x

theorem within_empty (names : NameTable) : empty.Within names := by
  intro x v h
  rw [lookup_empty] at h
  cases h

theorem Within.extend (h : env.Within names) (he : names'.Extends names) : env.Within names' :=
  fun x v hv => he.knows (h x v hv)

theorem Within.define (h : env.Within names) (hx : names.Knows x) (value : Value) :
    (env.define x value).Within names := by
  intro y v hv
  rw [lookup_define] at hv
  by_cases hy : x = y
  · exact hy ▸ hx
  · rw [if_neg hy] at hv
    exact h y v hv

theorem lookup_eq_binding (hn : names.WellFormed) (hx : names.Knows x) :
    env.lookup x = env.binding names (names.lookup x) := by
  rw [binding, NameTable.name?_lookup hn hx, Option.bind_some]

theorem binding_of_extends (hn : names.WellFormed) (hn' : names'.WellFormed)
    (he : names'.Extends names) (h : env.Within names) :
    env.binding names' text = env.binding names text := by
  rcases hx : names.name? text with _ | x
  · rw [binding, binding, hx]
    rcases hy : names'.name? text with _ | y
    · rfl
    rcases hv : env.lookup y with _ | v
    · exact hv
    -- `y` is bound, so the earlier table knew it already, and its text with it.
    have hk := h y v hv
    have htext := (NameTable.knows_of_name? hn' hy).2
    rw [he.lookup hk] at htext
    rw [← htext, NameTable.name?_lookup hn hk] at hx
    cases hx
  · rw [binding, binding, hx, he.name? hn hn' hx]

theorem binding_define (hn : names.WellFormed) (hx : names.Knows x) (value : Value) :
    (env.define x value).binding names text
      = if names.lookup x = text then some value else env.binding names text := by
  rw [binding, binding]
  rcases hy : names.name? text with _ | y
  · rw [if_neg]
    · rfl
    rintro rfl
    rw [NameTable.name?_lookup hn hx] at hy
    cases hy
  · obtain ⟨hk, rfl⟩ := NameTable.knows_of_name? hn hy
    rw [Option.bind_some, Option.bind_some, lookup_define]
    by_cases h : x = y
    · rw [if_pos h, if_pos (h ▸ rfl)]
    · rw [if_neg h, if_neg fun he => h (NameTable.lookup_injective hn hx hk he)]

end Environment

namespace NameTable

variable {names names' : NameTable}

def nameOf (names : NameTable) (text : String) : Name := (names.name? text).getD ⟨0⟩

/-- Whether two tables both have a name for the text of `x`. -/
def Shares (names names' : NameTable) (x : Name) : Prop :=
  names.Knows x ∧ ∃ y, names'.name? (names.lookup x) = some y

structure BoundAlike (names names' : NameTable) (env env' : Environment) : Prop where
  within : env.Within names
  within' : env'.Within names'
  bound : ∀ text, env.binding names text = env'.binding names' text

theorem Shares.nameOf (hn' : names'.WellFormed) {x : Name} (h : names.Shares names' x) :
    names'.Knows (names'.nameOf (names.lookup x)) ∧
      names'.lookup (names'.nameOf (names.lookup x)) = names.lookup x := by
  obtain ⟨-, y, hy⟩ := h
  rw [NameTable.nameOf, hy, Option.getD_some]
  exact knows_of_name? hn' hy

theorem simulation (hn : names.WellFormed) (hn' : names'.WellFormed) :
    Evaluation.Simulation names names' (names'.nameOf ∘ names.lookup) (names.Shares names')
      (BoundAlike names names') where
  spelled := fun x hx => (hx.nameOf hn').2
  bound := by
    intro env env' x hx h
    obtain ⟨hk, hl⟩ := hx.nameOf hn'
    rw [Function.comp_apply, Environment.lookup_eq_binding hn' hk, hl, ← h.bound,
      Environment.lookup_eq_binding hn hx.1]
  define := by
    intro env env' x v hx h
    obtain ⟨hk, hl⟩ := hx.nameOf hn'
    refine ⟨h.within.define hx.1 v, h.within'.define hk v, ?_⟩
    intro text
    rw [Environment.binding_define hn hx.1, Function.comp_apply,
      Environment.binding_define hn' hk, hl, h.bound]

end NameTable

theorem TokenKind.contents?_map {τ σ : Type} (f : τ → σ) (kind : TokenKind τ) :
    (kind.map f).contents? = kind.contents?.map f := by
  cases kind <;> rfl

namespace Token

variable {names names' : NameTable}

theorem map_nameOf_spell (hn : names.WellFormed) {t : Token Name} (ht : t.NamedBy names) :
    (t.spell names).map names.nameOf id = t := by
  have hname : ∀ x, t.kind.contents? = some x → names.nameOf (names.lookup x) = x := by
    intro x hx
    rw [NameTable.nameOf, NameTable.name?_lookup hn (ht x hx), Option.getD_some]
  obtain ⟨kind, s⟩ := t
  cases kind with
  | string x | identifier x =>
    simp only [spell, Token.map, TokenKind.map, hname x rfl, id]
  | _ => rfl

theorem renamed_of_spelled (hn' : names'.WellFormed)
    {tokens tokens' : List (Token Name)} (ht' : ∀ t ∈ tokens', t.NamedBy names')
    (h : tokens.map (spell names) = tokens'.map (spell names')) :
    tokens' = tokens.map (Token.map (names'.nameOf ∘ names.lookup) id) := by
  have hback : tokens' = (tokens'.map (spell names')).map (Token.map names'.nameOf id) := by
    rw [List.map_map]
    refine (List.map_id' _).symm.trans (List.map_congr_left ?_)
    intro t ht
    exact (map_nameOf_spell hn' (ht' t ht)).symm
  rw [hback, ← h, List.map_map]
  refine List.map_congr_left ?_
  rintro ⟨kind, s⟩ -
  cases kind <;> rfl

theorem shares_of_spelled (hn' : names'.WellFormed) {tokens tokens' : List (Token Name)}
    (ht : ∀ t ∈ tokens, t.NamedBy names) (ht' : ∀ t ∈ tokens', t.NamedBy names')
    (h : tokens.map (spell names) = tokens'.map (spell names')) :
    ∀ t ∈ tokens, ∀ x, t.kind.contents? = some x → names.Shares names' x := by
  intro t hmem x hx
  refine ⟨ht t hmem x hx, ?_⟩
  have hspelled : t.spell names ∈ tokens'.map (spell names') := by
    rw [← h]
    exact List.mem_map_of_mem hmem
  obtain ⟨t', hmem', he⟩ := List.mem_map.1 hspelled
  have hcontents : t'.kind.contents?.map names'.lookup = some (names.lookup x) := by
    rw [← TokenKind.contents?_map, show t'.kind.map names'.lookup = t.kind.map names.lookup from
      congrArg Token.kind he, TokenKind.contents?_map, hx, Option.map_some]
  obtain ⟨y, hy, hl⟩ := Option.map_eq_some_iff.1 hcontents
  exact ⟨y, hl ▸ NameTable.name?_lookup hn' (ht' t' hmem' y hy)⟩

end Token

theorem Matches.kind_ne_end {text : List Char} {kind : TokenKind String}
    (h : Matches text (.token kind)) : kind ≠ .endOfInput := by
  have hfixed : ∀ p ∈ Pattern.fixed, p.2 ≠ .endOfInput := by decide
  rintro rfl
  cases h with
  | fixed h => exact hfixed _ h rfl

theorem Lexeme.kind_ne_end {source : String} : ∀ l ∈ (scan source).1, l.kind ≠ .endOfInput := by
  obtain ⟨pieces, remainder, hm⟩ := Munch.exists_munch source.toList
  rw [scan_eq_scanList, hm.scanList_of_munch]
  intro l hl
  have hplace : source.toList = [] ++ (textOf pieces ++ remainder) := hm.text_append
  obtain ⟨hmatch, -⟩ := covers_of_mem hplace hm.matches_of_mem hl
  exact hmatch.kind_ne_end

/-- The tokens of a source, without its end, and the table with their texts. -/
def Session.tokens (names : NameTable) (source : String) : List (Token Name) × NameTable :=
  Token.internAll names ((Lexeme.scan source).1.map Lexeme.token)

theorem lex_eq_tokens (names : NameTable) (source : String) :
    lex names source = ((Lexeme.scan source).2.map fun n =>
        (Session.tokens names source).1 ++ [⟨.endOfInput, Span.point n⟩],
      (Session.tokens names source).2) := rfl

theorem Session.spell_tokens {names : NameTable} (hn : names.WellFormed) (source : String) :
    (∀ t ∈ (tokens names source).1, t.NamedBy (tokens names source).2) ∧
      (tokens names source).1.map (Token.spell (tokens names source).2)
        = (Lexeme.scan source).1.map Lexeme.token :=
  Token.spell_internAll hn _

theorem Session.kind_ne_end {names : NameTable} (hn : names.WellFormed) (source : String) :
    ∀ t ∈ (tokens names source).1, t.kind ≠ .endOfInput := by
  intro t ht hk
  obtain ⟨l, hl, hkind, -⟩ := exists_lexeme_of_spelled (spell_tokens hn source).2 ht
  rw [hk] at hkind
  exact Lexeme.kind_ne_end l hl hkind

theorem Session.read_eq {names : NameTable} (hn : names.WellFormed) (source : String) :
    read names source = ((Lexeme.scan source).2.mapError Failure.lex >>= fun n =>
        (Forest.statements (Span.point n) (tokens names source).1).mapError Failure.parse,
      (tokens names source).2) := by
  rw [read, lex_eq_tokens]
  rcases (Lexeme.scan source).2 with e | n
  · rfl
  · simp only [Except.map, Except.mapError, bind, Except.bind,
      parse_append_end _ (kind_ne_end hn source)]

namespace Session

variable {s t : Session}

structure WellFormed (s : Session) : Prop where
  names : s.names.WellFormed
  bindings : s.bindings.Within s.names

def binding (s : Session) (text : String) : Option Value := s.bindings.binding s.names text

/-- Sessions that bind the same texts to the same values. -/
structure Alike (s t : Session) : Prop where
  left : s.WellFormed
  right : t.WellFormed
  bound : ∀ text, s.binding text = t.binding text

theorem initial_wellFormed : initial.WellFormed :=
  ⟨NameTable.initial_wellFormed, Environment.within_empty _⟩

theorem WellFormed.alike (h : s.WellFormed) : s.Alike s := ⟨h, h, fun _ => rfl⟩

theorem Alike.symm (h : s.Alike t) : t.Alike s := ⟨h.right, h.left, fun text => (h.bound text).symm⟩

theorem Alike.trans {u : Session} (h : s.Alike t) (k : t.Alike u) : s.Alike u :=
  ⟨h.left, k.right, fun text => (h.bound text).trans (k.bound text)⟩

theorem WellFormed.learn (h : s.WellFormed) {names : NameTable} (hn : names.WellFormed)
    (he : names.Extends s.names) : s.Alike { s with names } :=
  ⟨h, ⟨hn, h.bindings.extend he⟩, fun _ =>
    (Environment.binding_of_extends h.names hn he h.bindings).symm⟩

theorem tokens_extends (names : NameTable) (source : String) :
    (tokens names source).2.Extends names := Token.internAll_extends names _

theorem tokens_wellFormed {names : NameTable} (hn : names.WellFormed) (source : String) :
    (tokens names source).2.WellFormed := Token.internAll_wellFormed hn _

theorem Alike.learn (h : s.Alike t) (source : String) :
    Alike { s with names := (tokens s.names source).2 }
      { t with names := (tokens t.names source).2 } := by
  have hs := h.left.learn (tokens_wellFormed h.left.names source) (tokens_extends _ source)
  have ht := h.right.learn (tokens_wellFormed h.right.names source) (tokens_extends _ source)
  exact hs.symm.trans (h.trans ht)

theorem Alike.tokens (h : s.Alike t) (source : String) :
    (tokens t.names source).1 = (tokens s.names source).1.map (Token.map
      ((tokens t.names source).2.nameOf ∘ (tokens s.names source).2.lookup) id) ∧
    ∀ u ∈ (tokens s.names source).1, ∀ x, u.kind.contents? = some x →
      (tokens s.names source).2.Shares (tokens t.names source).2 x := by
  obtain ⟨hnamed, hspell⟩ := spell_tokens h.left.names source
  obtain ⟨hnamed', hspell'⟩ := spell_tokens h.right.names source
  have hn' := tokens_wellFormed h.right.names source
  have he := hspell.trans hspell'.symm
  exact ⟨Token.renamed_of_spelled hn' hnamed' he, Token.shares_of_spelled hn' hnamed hnamed' he⟩

/-- Sessions that bind the same texts to the same values answer every source alike, and are alike
afterwards. -/
theorem Alike.evaluate (h : s.Alike t) (source : String) :
    (s.evaluate source).1 = (t.evaluate source).1 ∧
      (s.evaluate source).2.Alike (t.evaluate source).2 := by
  have hlearn := h.learn source
  obtain ⟨htokens, hshares⟩ := h.tokens source
  have hsim := NameTable.simulation hlearn.left.names hlearn.right.names
  -- Both go the same way at every stage, since what is scanned depends on the source alone.
  rw [evaluate_eq, evaluate_eq, read_eq h.left.names, read_eq h.right.names, htokens]
  rcases (Lexeme.scan source).2 with e | n
  · exact ⟨rfl, hlearn⟩
  have hread : Forest.statements (id (Span.point n)) _ = _ :=
    Forest.statements_map (f := (Session.tokens t.names source).2.nameOf ∘
      (Session.tokens s.names source).2.lookup) Span.coherent_id (Session.tokens s.names source).1
  rw [id] at hread
  simp only [Except.mapError, bind, Except.bind, hread]
  rcases hforest : Forest.statements (Span.point n) (Session.tokens s.names source).1
    with e | forest
  · refine ⟨?_, hlearn⟩
    simp only [Except.map, ParseError.map_id]
  have hnames : ∀ e ∈ forest, ∀ x ∈ e.names,
      (Session.tokens s.names source).2.Shares (Session.tokens t.names source).2 x := by
    intro e he x hx
    obtain ⟨u, hu, hc⟩ := Forest.names_of_statements hforest e he x hx
    exact hshares u hu x hc
  obtain ⟨hresult, hrelated⟩ := hsim.evaluate (g := id) hnames
    ⟨hlearn.left.bindings, hlearn.right.bindings, hlearn.bound⟩
  simp only [Except.map]
  revert hresult hrelated
  generalize PrefixLang.evaluate (Session.tokens t.names source).2 (forest.map _) t.bindings = r'
  generalize PrefixLang.evaluate (Session.tokens s.names source).2 forest s.bindings = r
  obtain ⟨result, env⟩ := r
  obtain ⟨result', env'⟩ := r'
  rintro rfl hrelated
  rcases result with stop | outputs
  · refine ⟨?_, hlearn⟩
    simp only [Except.mapError, Stop.map_id]
  · exact ⟨rfl, ⟨hlearn.left.names, hrelated.within⟩, ⟨hlearn.right.names, hrelated.within'⟩,
      hrelated.bound⟩

theorem WellFormed.evaluate (h : s.WellFormed) (source : String) :
    (s.evaluate source).2.WellFormed := (h.alike.evaluate source).2.left

theorem evaluate_cases (h : s.WellFormed) (source : String) :
    (∃ failure, s.evaluate source
      = (.error failure, { s with names := (Session.tokens s.names source).2 })) ∨
    ∃ n forest outputs env, (Lexeme.scan source).2 = .ok n ∧
      Forest.statements (Span.point n) (Session.tokens s.names source).1 = .ok forest ∧
      PrefixLang.evaluate (Session.tokens s.names source).2 forest s.bindings
        = (.ok outputs, env) ∧
      s.evaluate source = (.ok outputs, ⟨(Session.tokens s.names source).2, env⟩) := by
  rw [evaluate_eq, read_eq h.names]
  rcases (Lexeme.scan source).2 with e | n
  · exact .inl ⟨_, rfl⟩
  simp only [Except.mapError, bind, Except.bind]
  rcases hforest : Forest.statements (Span.point n) (Session.tokens s.names source).1
    with e | forest
  · exact .inl ⟨_, rfl⟩
  simp only
  rcases hrun : PrefixLang.evaluate (Session.tokens s.names source).2 forest s.bindings
    with ⟨stop | outputs, env⟩
  · exact .inl ⟨_, rfl⟩
  · exact .inr ⟨n, forest, outputs, env, rfl, hforest, hrun, rfl⟩

theorem WellFormed.alike_of_error {source : String} {failure : Failure} (h : s.WellFormed)
    (hs : (s.evaluate source).1 = .error failure) : s.Alike (s.evaluate source).2 := by
  have hlearn := h.learn (tokens_wellFormed h.names source) (tokens_extends _ source)
  rcases evaluate_cases h source with ⟨_, he⟩ | ⟨_, _, _, _, -, -, -, he⟩
  · rwa [he]
  · rw [he] at hs
    cases hs

theorem WellFormed.alike_intern (h : s.WellFormed) (text : String) : s.Alike (s.intern text).2 :=
  h.learn (NameTable.intern_wellFormed h.names text) (NameTable.intern_extends _ text)

end Session

end PrefixLang
