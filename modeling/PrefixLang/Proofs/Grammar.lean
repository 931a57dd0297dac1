import PrefixLang.Forest
import Mathlib.Tactic.Common
import Mathlib.Data.List.Forall2
/-!
The grammar. Every operator stands before its operands and every form may stand at every place, so
one relation between tokens and trees says it all.
-/

namespace PrefixLang

/-- The tokens that make up an expression, with the tree that they stand for. A tree reaches from
its first token to the end of its last operand; parentheses are no part of it. -/
inductive Derives : List (Token Name) → Expr Empty → Prop where
  | number (v s) : Derives [⟨.number v, s⟩] (.number v s)
  | string (t s) : Derives [⟨.string t, s⟩] (.string t s)
  | identifier (x s) : Derives [⟨.identifier x, s⟩] (.identifier x s)
  | assign (x s t) {us e} : Derives us e →
      Derives (⟨.identifier x, s⟩ :: ⟨.equals, t⟩ :: us) (.assign x e (s.merge e.span))
  | print (s) {us e} : Derives us e → Derives (⟨.printWord, s⟩ :: us) (.print e (s.merge e.span))
  | wrap (w s) {us e} : Derives us e → Derives (⟨.wrapper w, s⟩ :: us) (.wrap w e (s.merge e.span))
  | paren (s t) {us e} : Derives us e → Derives (⟨.leftParen, s⟩ :: (us ++ [⟨.rightParen, t⟩])) e
  | binary (op s) {us vs l r} : Derives us l → Derives vs r →
      Derives (⟨.operator op, s⟩ :: (us ++ vs)) (.binary op l r (s.merge r.span))

structure Decomposition (tokens : List (Token Name)) (parts : List (List (Token Name)))
    (forest : Forest) : Prop where
  whole : parts.flatten = tokens
  derived : List.Forall₂ Derives parts forest

namespace Forest

/-- Whether what follows leaves these tokens as they are: it makes no assignment of an identifier at
their end. -/
def Separate (us rest : List (Token Name)) : Prop :=
  ∀ x s, us.getLast? = some ⟨.identifier x, s⟩ → NoAssignment rest

variable {us vs rest more : List (Token Name)}

theorem NoAssignment.separate (h : NoAssignment rest) : Separate us rest := fun _ _ _ => h

theorem separate_nil (rest : List (Token Name)) : Separate [] rest := by
  intro x s h
  cases h

theorem separate_append (h : vs ≠ []) : Separate (us ++ vs) rest ↔ Separate vs rest := by
  rw [Separate, Separate, List.getLast?_append_of_ne_nil us h]

theorem separate_cons (t : Token Name) (h : us ≠ []) :
    Separate (t :: us) rest ↔ Separate us rest := by
  rw [← List.singleton_append, separate_append h]

theorem Separate.tail {t : Token Name} (h : Separate (t :: us) rest) : Separate us rest := by
  by_cases hnil : us = []
  · subst hnil
    exact separate_nil rest
  · rwa [separate_cons t hnil] at h

theorem Separate.append (hu : Separate us (vs ++ rest)) (hv : Separate vs rest) :
    Separate (us ++ vs) rest := by
  by_cases hnil : vs = []
  · subst hnil
    rwa [List.append_nil]
  · rwa [separate_append hnil]

theorem Separate.of_append (h : Separate (us ++ vs) rest)
    (hv : vs ≠ [] → NoAssignment (vs ++ rest)) : Separate us (vs ++ rest) ∧ Separate vs rest := by
  by_cases hnil : vs = []
  · subst hnil
    rw [List.append_nil] at h
    exact ⟨h, separate_nil rest⟩
  · exact ⟨(hv hnil).separate, (separate_append hnil).1 h⟩

theorem Separate.congr (h : Separate us rest) (hhead : more.head? = rest.head?) :
    Separate us more := by
  intro x s hlast
  have hrest := h x s hlast
  rwa [NoAssignment, ← hhead] at hrest

end Forest

theorem Derives.ne_nil {us : List (Token Name)} {e : Expr Empty} (h : Derives us e) : us ≠ [] := by
  cases h <;> simp

/-- No expression starts with `=`, so none can turn an identifier before it into an assignment. -/
theorem Derives.no_assignment {us : List (Token Name)} {e : Expr Empty} (h : Derives us e)
    (rest : List (Token Name)) : Forest.NoAssignment (us ++ rest) := by
  cases h <;> simp [Forest.NoAssignment]

namespace Decomposition

variable {tokens : List (Token Name)} {parts : List (List (Token Name))} {forest : Forest}

theorem no_assignment_of_ne_nil (h : Decomposition tokens parts forest) (hne : tokens ≠ [])
    (rest : List (Token Name)) : Forest.NoAssignment (tokens ++ rest) := by
  obtain ⟨rfl, h⟩ := h
  cases h with
  | nil => exact absurd rfl hne
  | cons h _ =>
    rw [List.flatten_cons, List.append_assoc]
    exact h.no_assignment _

theorem no_assignment (h : Decomposition tokens parts forest) : Forest.NoAssignment tokens := by
  by_cases hnil : tokens = []
  · rw [hnil]
    simp [Forest.NoAssignment]
  · have hn := h.no_assignment_of_ne_nil hnil []
    rwa [List.append_nil] at hn

end Decomposition

end PrefixLang
