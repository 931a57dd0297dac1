import PrefixLang.Expr.Dump
import PrefixLang.Program.Layout
/-!
Node tables as nested lists. Every number is looked up when it is come to, and what is still to be
written is kept in a list, so the depth of nesting is not limited. `dump_eq` says that what is
written is the text of the trees.
-/

namespace PrefixLang

namespace Program

/-- Something still to be written. With a node stands how deep it may reach. -/
inductive DumpItem where
  | text (s : String)
  | node (depth : Nat) (id : NodeId)

def itemBound : Nat → Nat
  | 0 => 1
  | depth + 1 => 2 * itemBound depth + 3

def DumpItem.totalBound : List DumpItem → Nat
  | [] => 0
  | .text _ :: rest => 1 + totalBound rest
  | .node depth _ :: rest => itemBound depth + totalBound rest

/-- Writes the items behind `out`. A node with operands is replaced by its own text around theirs.
-/
def dumpItems (names : NameTable) (p : Program) (out : String) (items : List DumpItem) :
    Except Fault String :=
  match items with
  | [] => .ok out
  | .text s :: rest => dumpItems names p (out ++ s) rest
  | .node depth id :: rest =>
    match p.get id with
    | .error fault => .error fault
    | .ok node =>
      match depth with
      | 0 => .error .endless
      | depth + 1 =>
        match node.kind with
        | .number v => dumpItems names p (out ++ ("(number " ++ v.listingText ++ ")")) rest
        | .string s => dumpItems names p (out ++ ("(string \"" ++ names.lookup s ++ "\")")) rest
        | .identifier x => dumpItems names p (out ++ ("(ident " ++ names.lookup x ++ ")")) rest
        | .assign x e =>
          dumpItems names p (out ++ ("(assign " ++ names.lookup x ++ " "))
            (.node depth e :: .text ")" :: rest)
        | .print e => dumpItems names p (out ++ "(print ") (.node depth e :: .text ")" :: rest)
        | .wrap w e =>
          dumpItems names p (out ++ ("(wrapper " ++ w.word ++ " "))
            (.node depth e :: .text ")" :: rest)
        | .binary op l r =>
          dumpItems names p (out ++ ("(binary " ++ op.symbol ++ " "))
            (.node depth l :: .text " " :: .node depth r :: .text ")" :: rest)
termination_by DumpItem.totalBound items
decreasing_by all_goals simp only [DumpItem.totalBound, itemBound]; omega

def dump (p : Program) (names : NameTable) : Except Fault String :=
  dumpItems names p "" ((p.body.map (DumpItem.node p.nodes.size)).intersperse (.text "\n"))

variable {names : NameTable} {p : Program}

theorem dumpItems_node (depth : Nat) (id : NodeId) (out : String) (rest : List DumpItem) :
    dumpItems names p out (.node depth id :: rest) =
      (p.treeAt depth id).text names >>= fun s => dumpItems names p (out ++ s) rest := by
  induction depth generalizing id out rest with
  | zero =>
    rw [dumpItems, treeAt]
    cases p.get id <;> rfl
  | succ depth ih =>
    rw [dumpItems, treeAt]
    rcases p.get id with fault | ⟨kind, s⟩
    · rfl
    cases kind with
    | number v | string t | identifier x => rfl
    | assign x e | print e | wrap w e =>
      simp only [treeOf, Expr.text]
      rw [ih]
      rcases (p.treeAt depth e).text names with reason | text
      · rfl
      simp only [bind, Except.bind, pure, Except.pure]
      rw [dumpItems]
      simp only [String.append_assoc]
    | binary op l r =>
      simp only [treeOf, Expr.text]
      rw [ih]
      rcases (p.treeAt depth l).text names with reason | left
      · rfl
      simp only [bind, Except.bind, pure, Except.pure]
      rw [dumpItems, ih]
      rcases (p.treeAt depth r).text names with reason | right
      · rfl
      simp only [bind, Except.bind]
      rw [dumpItems]
      simp only [String.append_assoc]

theorem dumpItems_lines (depth : Nat) (ids : List NodeId) (out : String) :
    dumpItems names p out ((ids.map (DumpItem.node depth)).intersperse (.text "\n")) =
      (Expr.dump names (ids.map (p.treeAt depth))).map (out ++ ·) := by
  induction ids generalizing out with
  | nil => simp [dumpItems, Expr.dump, Except.map]
  | cons id rest ih =>
    cases rest with
    | nil =>
      rw [List.map_cons, List.map_nil, List.intersperse_singleton, dumpItems_node]
      rcases htext : (p.treeAt depth id).text names with reason | text
      · simp [Expr.dump, htext, bind, Except.bind, Except.map]
      · simp [Expr.dump, htext, bind, Except.bind, Except.map, dumpItems]
    | cons id' rest =>
      simp only [List.map_cons, List.intersperse_cons_cons, Expr.dump] at ih ⊢
      rw [dumpItems_node]
      rcases (p.treeAt depth id).text names with reason | text
      · rfl
      simp only [bind, Except.bind]
      rw [dumpItems, ih]
      rcases Expr.dump names (p.treeAt depth id' :: rest.map (p.treeAt depth)) with reason | more
      · rfl
      · simp [Except.map, pure, Except.pure, String.append_assoc]

theorem dump_eq (p : Program) (names : NameTable) : p.dump names = Expr.dump names p.unfold := by
  rw [dump, dumpItems_lines, unfold]
  rcases Expr.dump names (p.body.map (p.treeAt p.nodes.size)) with reason | text
  · rfl
  · simp [Except.map]

end Program

theorem Expr.text_mapHoles {ρ σ : Type} (f : ρ → σ) (names : NameTable) (e : Expr ρ) :
    (e.mapHoles f).text names = (e.text names).mapError f := by
  induction e with
  | number | string | identifier | hole => rfl
  | assign x e s ih | print e s ih | wrap w e s ih =>
    rw [mapHoles, text, text, ih]
    cases e.text names <;> rfl
  | binary op l r s ihl ihr =>
    rw [mapHoles, text, text, ihl, ihr]
    cases l.text names
    · rfl
    cases r.text names <;> rfl

theorem Expr.dump_mapHoles {ρ σ : Type} (f : ρ → σ) (names : NameTable) (trees : List (Expr ρ)) :
    dump names (trees.map (mapHoles f)) = (dump names trees).mapError f := by
  induction trees with
  | nil => rfl
  | cons e rest ih =>
    cases rest with
    | nil => exact text_mapHoles f names e
    | cons e' rest =>
      simp only [List.map_cons, dump, text_mapHoles] at ih ⊢
      rw [ih]
      cases e.text names
      · rfl
      cases dump names (e' :: rest) <;> rfl

theorem Program.dump_ofForest (names : NameTable) (forest : Forest) :
    (ofForest forest).dump names = (Expr.dump names forest).mapError Empty.elim := by
  rw [dump_eq, unfold_ofForest]
  exact Expr.dump_mapHoles _ names forest

end PrefixLang
