import C0Stack.Diagnostic
import C0Stack.Symbol.Binding

/-!
# Symbol tables

A symbol table is a stack of frames, one for each open scope, with the frame of the outermost scope at the bottom. A name is looked
up from the innermost frame outwards.

Each frame hands out storage slots. A block goes on where the scope around it stands, so that slots in use at one time differ; a
function starts from zero; and when a scope is left, the next one beside it uses the same slots again. A function is declared in the
outermost scope and takes no slot.
-/

namespace C0Stack

/-- The declarations of one scope, the latest first, and the slot for the next one. -/
structure Frame where
  bindings : List (String × Binding)
  nextSlot : Nat
deriving DecidableEq, Repr, Inhabited

namespace Frame

/-- A frame without declarations whose slots start at `slot`. -/
def startingAt (slot : Nat) : Frame := ⟨[], slot⟩

/-- What the name stands for in this scope. -/
def find? (f : Frame) (name : String) : Option Binding := f.bindings.lookup name

/-- The frame with a declaration added. -/
def insert (f : Frame) (name : String) (b : Binding) : Frame := { f with bindings := (name, b) :: f.bindings }

/-- The frame with the slot of `name` written. -/
def markWritten (f : Frame) (name : String) : Frame :=
  { f with bindings := f.bindings.map fun (n, b) => if n == name then (n, b.markWritten) else (n, b) }

end Frame

/-- A stack of frames: those of the nested scopes, the innermost first, and the one at the bottom. -/
structure SymbolTable where
  nested : List Frame
  outermost : Frame
deriving DecidableEq, Repr, Inhabited

namespace SymbolTable

/-- The table in which nothing is declared and only the outermost scope is open. -/
def empty : SymbolTable := ⟨[], .startingAt 0⟩

/-- All frames, the innermost first. -/
def frames (t : SymbolTable) : List Frame := t.nested ++ [t.outermost]

/-- The frame of the innermost scope. -/
def current (t : SymbolTable) : Frame := t.nested.headD t.outermost

/-- The number of nested scopes that are open. -/
def depth (t : SymbolTable) : Nat := t.nested.length

/-- Opens the scope of a block. -/
def enterBlock (t : SymbolTable) : SymbolTable := { t with nested := .startingAt t.current.nextSlot :: t.nested }

/-- Opens the scope of a function. -/
def enterFunction (t : SymbolTable) : SymbolTable := { t with nested := .startingAt 0 :: t.nested }

/-- Closes the innermost scope. The outermost one stays open. -/
def leave (t : SymbolTable) : SymbolTable := { t with nested := t.nested.tail }

/-- The table with the frame of the innermost scope replaced. -/
def setCurrent (t : SymbolTable) (f : Frame) : SymbolTable :=
  match t.nested with
  | [] => { t with outermost := f }
  | _ :: rest => { t with nested := f :: rest }

/-- Which scope a declaration made now belongs to. -/
def scope (t : SymbolTable) : Scope := if t.nested.isEmpty then .outermost else .nested

/-- Declares a variable or a constant in the innermost scope. It takes the next slot and has no value yet. -/
def declare (t : SymbolTable) (name : String) (constant : Bool) (ty : Ty) (pos : Position) :
    Except Diagnostic (Variable × SymbolTable) :=
  match t.current.find? name with
  | some _ => .error ⟨.duplicate name, pos⟩
  | none =>
    let v : Variable := ⟨ty, constant, t.current.nextSlot, t.scope, false⟩
    .ok (v, t.setCurrent { t.current.insert name (.storage v) with nextSlot := t.current.nextSlot + 1 })

/-- Declares a function in the outermost scope, whichever scope is open. -/
def declareFunction (t : SymbolTable) (name : String) (f : Signature) (pos : Position) : Except Diagnostic SymbolTable :=
  match t.outermost.find? name with
  | some _ => .error ⟨.duplicate name, pos⟩
  | none => .ok { t with outermost := t.outermost.insert name (.function f) }

/-- What the name stands for in the innermost scope that declares it. -/
def find? (t : SymbolTable) (name : String) : Option Binding := t.frames.findSome? fun f => f.find? name

/-- What the name stands for, or the fault that it is not declared. -/
def lookup (t : SymbolTable) (name : String) (pos : Position) : Except Diagnostic Binding :=
  match t.find? name with
  | some b => .ok b
  | none => .error ⟨.undeclared name, pos⟩

/-- The frames with the slot of `name` written in the first of them that declares it; none if no frame does. -/
def markFirst? (name : String) : List Frame → Option (List Frame)
  | [] => none
  | f :: rest =>
    match f.find? name with
    | some _ => some (f.markWritten name :: rest)
    | none => (markFirst? name rest).map (f :: ·)

/-- Notes that the slot of `name`, as the innermost scope sees it, has been written. -/
def markWritten (t : SymbolTable) (name : String) (pos : Position) : Except Diagnostic SymbolTable :=
  match markFirst? name t.nested, t.outermost.find? name with
  | some nested, _ => .ok { t with nested }
  | none, some _ => .ok { t with outermost := t.outermost.markWritten name }
  | none, none => .error ⟨.undeclared name, pos⟩

end SymbolTable

end C0Stack
