import Std.Data.TreeMap.Lemmas
/-!
Names stand for texts. A table numbers texts in the order in which they are first seen, and never
forgets or renumbers one.
-/

namespace PrefixLang

structure Name where
  index : Nat
  deriving DecidableEq, Repr

def Name.maxIndex : Nat := 4294967295

inductive InternError where
  | overflow (count : Nat)
  deriving DecidableEq, Repr

def InternError.message : InternError → String
  | .overflow count => "interner exceeded capacity: " ++ Nat.repr count ++ " strings, max is "
      ++ Nat.repr Name.maxIndex

structure NameTable where
  texts : Array String
  numbers : Std.TreeMap String Nat

namespace NameTable

def empty : NameTable := ⟨#[], ∅⟩

/-- The name of a text, which gets the next number if it is new. -/
def intern (table : NameTable) (text : String) : Name × NameTable :=
  match table.numbers[text]? with
  | some i => (⟨i⟩, table)
  | none => (⟨table.texts.size⟩,
      ⟨table.texts.push text, table.numbers.insert text table.texts.size⟩)

/-- The name of a text, unless the text is new and there is no number left for it. -/
def tryIntern (table : NameTable) (text : String) : Except InternError Name × NameTable :=
  match table.numbers[text]? with
  | some i => (.ok ⟨i⟩, table)
  | none =>
    if Name.maxIndex < table.texts.size then (.error (.overflow table.texts.size), table)
    else (.ok ⟨table.texts.size⟩,
      ⟨table.texts.push text, table.numbers.insert text table.texts.size⟩)

/-- The text of a name. A name that the table has not given out stands for the empty text. -/
def lookup (table : NameTable) (name : Name) : String := table.texts[name.index]?.getD ""

def reserved : List String :=
  ["", "let", "print", "Haley", "BlueEgg_000", "Nightmare_speakerman"]

def initial : NameTable := reserved.foldl (fun table text => (table.intern text).2) empty

instance : Inhabited NameTable := ⟨initial⟩

end NameTable

end PrefixLang
