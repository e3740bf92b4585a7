import LetPrint.Text.Bytes

/-!
# Scopes

What is known of each name: a list of bindings, the newest first.
-/

namespace LetPrint

/-- Bindings of names, newest first. -/
structure Scope (α : Type) where
  bindings : List (Bytes × α) := []
  deriving Repr

namespace Scope

variable {α : Type}

/-- No binding. -/
def empty : Scope α := {}

/-- The newest binding of a name. -/
def find? (s : Scope α) (name : Bytes) : Option α :=
  s.bindings.lookup name

/-- The scope with a new binding. -/
def bind (s : Scope α) (name : Bytes) (value : α) : Scope α :=
  ⟨(name, value) :: s.bindings⟩

/-- The bound names, each once. -/
def names (s : Scope α) : List Bytes :=
  (s.bindings.map (·.1)).eraseDups

/-- The bound names with what they stand for, each name once. -/
def toList (s : Scope α) : List (Bytes × α) :=
  s.names.filterMap fun name => (s.find? name).map (name, ·)

@[simp] theorem find?_empty (name : Bytes) : (empty : Scope α).find? name = none := rfl

@[simp] theorem find?_bind (s : Scope α) (name other : Bytes) (value : α) :
    (s.bind name value).find? other = if other = name then some value else s.find? other := by
  by_cases h : other = name
  · simp [find?, bind, h]
  · simp [find?, bind, h, List.lookup_cons, beq_false_of_ne h]

end Scope

end LetPrint
