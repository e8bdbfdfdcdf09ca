import C0Stack.Assembly

/-!
# Code of expressions

`Expr.emit` checks an expression, emits its code and returns its type. The code pushes the value of the expression, unless its type
is `void`. Parts are taken in the order of the text, and the first fault in that order is the one reported.

The two operands of an operator have one type, which is not `void`. Comparisons give an `int`. A cast changes the type and emits no
code. An assignment has type `void`.
-/

namespace C0Stack

/-- The operation of a binary operator. -/
def BinaryOp.operation : BinaryOp → Operation
  | eq => .eq
  | ne => .ne
  | lt => .lt
  | gt => .gt
  | le => .le
  | ge => .ge
  | add => .add
  | sub => .sub
  | mul => .mul
  | div => .div

/-- The type of the result of a binary operator on operands of type `ty`. -/
def BinaryOp.resultType (op : BinaryOp) (ty : Ty) : Ty := if op.precedence = .relational then .int else ty

namespace Expr

open Assembling

/-- Emits a read of the variable. -/
def emitLoad (ctx : Context) (name : Ident) : Assembling Ty := do
  match ← lookup name with
  | .function _ => fail (.functionAsValue name.name) name.pos
  | .storage v =>
    if v.initialized then
      emit (ctx.loadOp v) (some v.slot) name.pos
      return v.ty
    else fail (.uninitialized name.name) name.pos

/-- The variable that an assignment to the name writes. -/
def assignable (name : Ident) : Assembling Variable := do
  match ← lookup name with
  | .function _ => fail (.constantTarget name.name) name.pos
  | .storage v => if v.constant then fail (.constantTarget name.name) name.pos else return v

/-- The function that a call of the name calls. -/
def callable (name : Ident) : Assembling Signature := do
  match ← lookup name with
  | .function f => return f
  | .storage _ => fail (.notFunction name.name) name.pos

mutual

/-- Checks the expression, emits its code and returns its type. -/
def emit (ctx : Context) : Expr → Assembling Ty
  | int pos value => do
    Assembling.emit .lit (some value.toNat) pos
    return .int
  | literal pos kind => fail (.unsupportedLiteral kind) pos
  | var name => emitLoad ctx name
  | call callee args => do
    let f ← callable callee
    emitArguments ctx f.params args
    if args.length = f.params.length then
      Assembling.emit .call (some f.entry) callee.pos
      return f.returns
    else fail (.argumentCount callee.name f.params.length args.length) callee.pos
  | assign target value => do
    let v ← assignable target
    requireType v.ty (← value.emit ctx) value.start
    markWritten target
    Assembling.emit (ctx.storeOp v) (some v.slot) target.pos
    return .void
  | paren _ inner => inner.emit ctx
  | neg pos operand => do
    Assembling.emit .lit (some 0) pos
    let ty ← operand.emit ctx
    requireValue .int ty operand.start
    Assembling.emit .sub none pos
    return ty
  | cast value pos target => do
    let source ← value.emit ctx
    let ty ← resolveType false target
    requireValue ty source pos
    return ty
  | binary left op pos right => do
    let leftTy ← left.emit ctx
    let rightTy ← right.emit ctx
    requireValue .int leftTy pos
    requireType leftTy rightTy pos
    Assembling.emit op.operation none pos
    return op.resultType leftTy
  | fault error => throw error
  | cut read error => do
    let _ ← read.emit ctx
    throw error

/-- Checks the arguments of a call in order and emits their code. An argument beyond the last parameter may have any type. -/
def emitArguments (ctx : Context) : List Ty → List Expr → Assembling Unit
  | _, [] => return ()
  | [], arg :: args => do
    let _ ← arg.emit ctx
    emitArguments ctx [] args
  | ty :: params, arg :: args => do
    requireType ty (← arg.emit ctx) arg.start
    emitArguments ctx params args

end

/-- Parentheses emit nothing of their own. -/
theorem emit_paren (ctx : Context) (pos : Position) (inner : Expr) : (paren pos inner).emit ctx = inner.emit ctx := by
  rw [emit]

end Expr

end C0Stack
