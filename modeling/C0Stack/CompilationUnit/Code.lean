import C0Stack.CompilationUnit.Basic
import C0Stack.Stmt.Code

/-!
# Code of functions and compilation units

```text
code of the declarations
JMP past the functions       only if there are functions
bodies of the functions      each ends in RET
CALL main                    only if there is a function of that name
RET
```
-/

namespace C0Stack

namespace Function

open Assembling

/-- The types of the parameters, in order. -/
def paramTypes : List Param → Assembling (List Ty)
  | [] => return []
  | p :: params => do
    let ty ← resolveType false p.ty
    return ty :: (← paramTypes params)

/-- Declares the parameters in order. The call has given each of them a value. -/
def declareParams : List (Param × Ty) → Assembling Unit
  | [] => return ()
  | (p, ty) :: params => do
    let _ ← declare p.name p.constant ty
    markWritten p.name
    declareParams params

/-- Checks a function definition and emits its body. The function is declared before its body is checked, so that it can call
itself; its parameters and the declarations of its body share one scope. -/
def emit : Function → Assembling Unit
  | defn _ name params returns body close => do
    let types ← paramTypes params
    let ty ← resolveType true returns
    declareFunction name ⟨ty, ← nextAddress, types⟩
    modifySymbols SymbolTable.enterFunction
    declareParams (params.zip types)
    body.emit ⟨some ty, none⟩
    Assembling.emit .ret none close
    modifySymbols SymbolTable.leave
  | fault _ params error => do
    let _ ← paramTypes params
    throw error

end Function

namespace CompilationUnit

open Assembling

/-- Emits the bodies of the functions, and the jump past them. -/
def emitFunctions : List Function → Assembling Unit
  | [] => return ()
  | first :: rest => do
    let skip ← emitJump .jmp first.pos
    (first :: rest).forM Function.emit
    patch skip

/-- Emits the call of the function `main`, which takes no arguments. Without such a function nothing is called. -/
def emitMainCall (pos : Position) : Assembling Unit := do
  match (← get).symbols.find? "main" with
  | some (.function f) =>
    if f.params.isEmpty then Assembling.emit .call (some f.entry) pos
    else fail (.argumentCount "main" f.params.length 0) pos
  | _ => return ()

/-- Checks a whole program and emits its code. -/
def emit (u : CompilationUnit) : Assembling Unit := do
  u.globals.emit .outermost
  emitFunctions u.functions
  match u.ending with
  | .ok pos =>
    emitMainCall pos
    Assembling.emit .ret none pos
  | .error error => throw error

end CompilationUnit

end C0Stack
