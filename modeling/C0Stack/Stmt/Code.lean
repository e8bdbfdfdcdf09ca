import C0Stack.Expr.Code
import C0Stack.Stmt.Basic

/-!
# Code of statements

`Stmt.emit` checks a statement and emits its code, which leaves the operand stack as it was.

```text
if c { A } else { B }      while c { A }
    c                      head: c
    JZ else                      JZ end
    A                            A
    JMP end                      JMP head
else: B                    end:
end:
```

Forward jumps get their targets when these are reached.
-/

namespace C0Stack

namespace Stmt

open Assembling

/-- Checks a condition, which must have a value, and emits its code. -/
def emitCondition (ctx : Context) (condition : Expr) : Assembling Unit := do
  requireValue .int (← condition.emit ctx) condition.start

/-- Checks the initial value of a declared variable and emits its store. -/
def emitInit (ctx : Context) (pos : Position) (name : Ident) (v : Variable) (value : Expr) : Assembling Unit := do
  requireType v.ty (← value.emit ctx) value.start
  Assembling.emit (ctx.storeOp v) (some v.slot) pos
  markWritten name

/-- Declares a variable or a constant, and gives it its initial value. The name is in scope there, without a value. -/
def emitDecl (ctx : Context) (pos : Position) (constant : Bool) (name ty : Ident) (init : Option Expr) :
    Assembling Unit := do
  let v ← declare name constant (← resolveType false ty)
  match init with
  | some value => emitInit ctx pos name v value
  | none => return ()

/-- Checks the type of what is returned at `pos`. Outside functions any will do. -/
def checkReturn (ctx : Context) (found : Ty) (pos : Position) : Assembling Unit :=
  match ctx.function with
  | some expected => requireType expected found pos
  | none => return ()

/-- The address of the condition of the innermost loop, for a jump that the given keyword makes. -/
def loopHead (ctx : Context) (keyword : Token.Kind) (pos : Position) : Assembling Nat :=
  match ctx.loop with
  | some head => return head
  | none => fail (.outsideLoop keyword) pos

/-- Checks the statement and emits its code. -/
def emit (ctx : Context) : Stmt → Assembling Unit
  | nil => return ()
  | seq first rest => do
    first.emit ctx
    rest.emit ctx
  | empty => return ()
  | decl pos constant name ty init => emitDecl ctx pos constant name ty init
  | expr value => do
    if (← value.emit ctx) ≠ .void then Assembling.emit .pop none value.start
  | block body => do
    modifySymbols SymbolTable.enterBlock
    body.emit ctx
    modifySymbols SymbolTable.leave
  | ifThen pos condition body => do
    emitCondition ctx condition
    let skip ← emitJump .jz pos
    body.emit ctx
    patch skip
  | ifElse pos condition body elsePos alternative => do
    emitCondition ctx condition
    let skip ← emitJump .jz pos
    body.emit ctx
    let done ← emitJump .jmp elsePos
    patch skip
    alternative.emit ctx
    patch done
  | loop pos condition body => do
    let head ← nextAddress
    emitCondition ctx condition
    let done ← emitJump .jz pos
    let outer ← swapBreaks []
    body.emit { ctx with loop := some head }
    let breaks ← swapBreaks outer
    Assembling.emit .jmp (some head) pos
    patch done
    breaks.forM patch
  | leave pos => do
    let _ ← loopHead ctx .kwBreak pos
    let jump ← emitJump .jmp pos
    modify fun a => { a with breaks := jump :: a.breaks }
  | again pos => do
    let head ← loopHead ctx .kwContinue pos
    Assembling.emit .jmp (some head) pos
  | ret pos stop => do
    checkReturn ctx .void stop
    Assembling.emit .ret none pos
  | retValue pos value => do
    checkReturn ctx (← value.emit ctx) value.start
    Assembling.emit .ret none pos
  | fault error => throw error

/-- Behind the last statement nothing is emitted. -/
theorem emit_nil (ctx : Context) : nil.emit ctx = pure () := by
  rw [emit]

/-- The empty statement emits nothing. -/
theorem emit_empty (ctx : Context) : empty.emit ctx = pure () := by
  rw [emit]

/-- Where the text could not be read, the fault is reported. -/
theorem emit_fault (ctx : Context) (error : Diagnostic) : (fault error).emit ctx = throw error := by
  rw [emit]

end Stmt

end C0Stack
