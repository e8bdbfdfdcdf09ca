/-!
# Types

The four types of the language. `void` is the type of what delivers no value: only a function may return it.
-/

namespace C0Stack

/-- A type of the language. -/
inductive Ty where
  | void
  | int
  | double
  | char
deriving DecidableEq, Repr, Inhabited

namespace Ty

/-- The name by which a source text refers to the type. -/
def name : Ty → String
  | void => "void"
  | int => "int"
  | double => "double"
  | char => "char"

/-- All types. -/
def all : List Ty := [void, int, double, char]

/-- The type of the given name. -/
def named? (word : String) : Option Ty := all.find? fun ty => ty.name == word

/-- A name belongs to a type exactly if it is that type's name. -/
theorem named?_eq_some_iff {word : String} {ty : Ty} : named? word = some ty ↔ word = ty.name := by
  constructor
  · intro h
    unfold named? at h
    have hname := List.find?_some h
    exact (beq_iff_eq.1 hname).symm
  · rintro rfl
    cases ty <;> decide

end Ty

end C0Stack
