import C0Stack.Diagnostic
import C0Stack.Expr.Basic
import C0Stack.Program
import C0Stack.Symbol.Table

/-!
# Code under assembly

While a tree is checked and its code emitted, the names in scope, the code so far and the jumps that wait for the end of the
innermost loop are kept together. A jump forward is emitted before its target is known and gets it later, when the target is the
next address.
-/

namespace C0Stack

/-- What has been declared and emitted so far. `breaks` holds the addresses of the jumps out of the innermost loop. -/
structure Assembly where
  symbols : SymbolTable
  program : Program
  breaks : List Nat
deriving DecidableEq, Repr, Inhabited

/-- What surrounds the part of the tree that is being read: the return type of the function around it, and the address of the
condition of the innermost loop around it. -/
structure Context where
  function : Option Ty
  loop : Option Nat
deriving DecidableEq, Repr, Inhabited

/-- The context of what stands outside functions and loops. -/
def Context.outermost : Context := ⟨none, none⟩

/-- A step of the assembly, which stops at the first fault. -/
abbrev Assembling := StateT Assembly (Except Diagnostic)

namespace Assembly

/-- Nothing is declared and nothing emitted. -/
def empty : Assembly := ⟨.empty, .empty, []⟩

/-- The address of the next instruction. -/
def nextAddress (a : Assembly) : Nat := a.program.size

/-- The assembly with one more instruction. -/
def push (a : Assembly) (op : Operation) (operand : Option Nat) (pos : Position) : Assembly :=
  { a with program := a.program.push op operand pos }

/-- The assembly in which the jump at `address` goes to the next address. -/
def patch (a : Assembly) (address : Nat) : Assembly :=
  { a with program := a.program.setOperand address a.nextAddress }

end Assembly

namespace Assembling

/-- Stops with a fault. -/
def fail {α : Type} (cause : Cause) (pos : Position) : Assembling α := throw ⟨cause, pos⟩

/-- The address of the next instruction. -/
def nextAddress : Assembling Nat := return (← get).nextAddress

/-- Emits an instruction. -/
def emit (op : Operation) (operand : Option Nat) (pos : Position) : Assembling Unit := modify (·.push op operand pos)

/-- Emits a jump whose target is not known yet, and returns its address. -/
def emitJump (op : Operation) (pos : Position) : Assembling Nat := do
  let address ← nextAddress
  emit op (some 0) pos
  return address

/-- Lets the jump at `address` go to the next address. -/
def patch (address : Nat) : Assembling Unit := modify (·.patch address)

/-- Changes the names in scope. -/
def modifySymbols (f : SymbolTable → SymbolTable) : Assembling Unit := modify fun a => { a with symbols := f a.symbols }

/-- Sets the jumps that wait for the end of the innermost loop, and returns those that waited before. -/
def swapBreaks (breaks : List Nat) : Assembling (List Nat) := modifyGet fun a => (a.breaks, { a with breaks })

/-- What the name stands for. -/
def lookup (name : Ident) : Assembling Binding := do
  match (← get).symbols.lookup name.name name.pos with
  | .ok b => return b
  | .error error => throw error

/-- Declares a variable or a constant. -/
def declare (name : Ident) (constant : Bool) (ty : Ty) : Assembling Variable := do
  match (← get).symbols.declare name.name constant ty name.pos with
  | .ok (v, symbols) =>
    modifySymbols fun _ => symbols
    return v
  | .error error => throw error

/-- Declares a function. -/
def declareFunction (name : Ident) (f : Signature) : Assembling Unit := do
  match (← get).symbols.declareFunction name.name f name.pos with
  | .ok symbols => modifySymbols fun _ => symbols
  | .error error => throw error

/-- Notes that the slot of the name has been written. -/
def markWritten (name : Ident) : Assembling Unit := do
  match (← get).symbols.markWritten name.name name.pos with
  | .ok symbols => modifySymbols fun _ => symbols
  | .error error => throw error

/-- The type of the given name. Only a function may return `void`. -/
def resolveType (allowVoid : Bool) (ty : Ident) : Assembling Ty :=
  match Ty.named? ty.name with
  | some .void => if allowVoid then return .void else fail (.invalidType ty.name) ty.pos
  | some found => return found
  | none => fail (.invalidType ty.name) ty.pos

/-- Requires a value of the given type. -/
def requireType (expected found : Ty) (pos : Position) : Assembling Unit :=
  if found = expected then return () else fail (.typeMismatch expected found) pos

/-- Requires a value; where there is none, `expected` is named in its place. -/
def requireValue (expected found : Ty) (pos : Position) : Assembling Unit :=
  if found = .void then fail (.typeMismatch expected found) pos else return ()

end Assembling

namespace Context

/-- The variable lives in the frame of the outermost scope, and another frame is the current one. -/
def isRemote (ctx : Context) (v : Variable) : Bool := v.scope == .outermost && ctx.function.isSome

/-- The operation that pushes the variable. -/
def loadOp (ctx : Context) (v : Variable) : Operation := if ctx.isRemote v then .lodg else .lod

/-- The operation that pops into the variable. -/
def storeOp (ctx : Context) (v : Variable) : Operation := if ctx.isRemote v then .stog else .sto

end Context

end C0Stack
