import PrefixLang.Name
import PrefixLang.Value
/-!
The bindings of names to values. There is one flat scope, and no binding is ever removed.
-/

namespace PrefixLang

structure Environment where
  bindings : Std.TreeMap Nat Value

namespace Environment

def empty : Environment := ⟨∅⟩

def define (env : Environment) (name : Name) (value : Value) : Environment :=
  ⟨env.bindings.insert name.index value⟩

def lookup (env : Environment) (name : Name) : Option Value := env.bindings[name.index]?

def size (env : Environment) : Nat := env.bindings.size

def isEmpty (env : Environment) : Bool := env.bindings.isEmpty

@[simp] theorem lookup_empty (name : Name) : empty.lookup name = none := by
  simp [empty, lookup]

@[simp] theorem lookup_define (env : Environment) (x y : Name) (value : Value) :
    (env.define x value).lookup y = if x = y then some value else env.lookup y := by
  cases x; cases y
  simp [define, lookup, Std.TreeMap.getElem?_insert]

end Environment

end PrefixLang
