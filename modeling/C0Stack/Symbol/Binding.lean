import C0Stack.Ty

/-!
# Bindings

What a declared name stands for: a storage slot, or a function.
-/

namespace C0Stack

/-- Where a variable was declared. -/
inductive Scope where
  | outermost
  | nested
deriving DecidableEq, Repr, Inhabited

/-- A declared variable, constant or parameter. `initialized` says that its slot has been written. -/
structure Variable where
  ty : Ty
  constant : Bool
  slot : Nat
  scope : Scope
  initialized : Bool
deriving DecidableEq, Repr, Inhabited

/-- A declared function: the address of its code and the types of a call. -/
structure Signature where
  returns : Ty
  entry : Nat
  params : List Ty
deriving DecidableEq, Repr, Inhabited

/-- What a name stands for. -/
inductive Binding where
  | storage (v : Variable)
  | function (f : Signature)
deriving DecidableEq, Repr, Inhabited

namespace Binding

/-- The type of a variable, or the type that a function returns. -/
def ty : Binding → Ty
  | storage v => v.ty
  | function f => f.returns

/-- The name cannot be assigned to: it is a constant or a function. -/
def isConstant : Binding → Bool
  | storage v => v.constant
  | function _ => true

/-- The name has a value: it is a function, or its slot has been written. -/
def isInitialized : Binding → Bool
  | storage v => v.initialized
  | function _ => true

/-- The slot has been written. A function has none to write. -/
def markWritten : Binding → Binding
  | storage v => storage { v with initialized := true }
  | function f => function f

end Binding

end C0Stack
