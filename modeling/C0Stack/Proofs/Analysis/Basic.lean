import C0Stack.Proofs.Assembling
import C0Stack.Compiler

/-!
# The analysis with its whole state

`Stmt.emit` is handed what surrounds a statement. Here the same analysis keeps it in its state and changes it by hand: it enters and
leaves loops and functions, and notes whether it reads an operand, where an assignment is not allowed. A jump is given its target
only if there is one at the address; otherwise the analysis panics.
-/

namespace C0Stack

/-- A loop that is being read: the address of its condition, and the addresses of the jumps out of it so far. -/
structure Loop where
  head : Nat
  breaks : List Nat
deriving DecidableEq, Repr, Inhabited

/-- The state of the analysis: the names in scope, the code so far, the return type of the function that is being read, the loops
around the place, the innermost first, and whether an operand is being read. -/
structure Analysis where
  symbols : SymbolTable
  program : Program
  function : Option Ty
  loops : List Loop
  inOperand : Bool
deriving DecidableEq, Repr, Inhabited

/-- Why the analysis stops: it refuses the text, or it was about to patch what is not a jump. -/
inductive Halt where
  | refused (error : Diagnostic)
  | panic
deriving DecidableEq, Repr, Inhabited

/-- A step of the analysis. -/
abbrev Analysing := StateT Analysis (Except Halt)

namespace Analysis

/-- Nothing has been read. -/
def empty : Analysis := ⟨.empty, .empty, none, [], false⟩

/-- What surrounds the place that is being read. -/
def context (s : Analysis) : Context := ⟨s.function, s.loops.head?.map Loop.head⟩

/-- What has been assembled. The jumps that wait are those out of the innermost loop. -/
def assembly (s : Analysis) : Assembly := ⟨s.symbols, s.program, (s.loops.head?.map Loop.breaks).getD []⟩

/-- The state in which this has been assembled. -/
def withAssembly (s : Analysis) (a : Assembly) : Analysis :=
  { s with symbols := a.symbols, program := a.program, loops := s.loops.modifyHead fun loop => { loop with breaks := a.breaks } }

/-- How a step of the assembly ends, taken in this state. -/
def outcome {α : Type} (s : Analysis) (m : Assembling α) : Except Halt (α × Analysis) :=
  match m.run s.assembly with
  | .ok (x, a) => .ok (x, s.withAssembly a)
  | .error error => .error (.refused error)

end Analysis

namespace Analysing

variable {α : Type}

/-- Refuses the text. -/
def refuse (error : Diagnostic) : Analysing α := throw (.refused error)

/-- Takes a step of the assembly, which is handed what surrounds the place. -/
def step (m : Context → Assembling α) : Analysing α := fun s => s.outcome (m s.context)

/-- Reads a part as an operand, or as something else, and goes on as before. -/
def reading (inOperand : Bool) (m : Analysing α) : Analysing α := do
  let before := (← get).inOperand
  modify fun s => { s with inOperand }
  let x ← m
  modify fun s => { s with inOperand := before }
  return x

/-- Lets the jump at the address go to the next address. -/
def patch (address : Nat) : Analysing Unit := do
  match (← get).program.lines[address]? with
  | some line =>
    if line.instruction.op = .jmp ∨ line.instruction.op = .jz then step fun _ => Assembling.patch address
    else throw .panic
  | none => throw .panic

/-- Reads the body of a loop, and returns the addresses of the jumps out of it. -/
def inLoop (head : Nat) (body : Analysing Unit) : Analysing (List Nat) := do
  modify fun s => { s with loops := ⟨head, []⟩ :: s.loops }
  body
  let loops := (← get).loops
  modify fun s => { s with loops := loops.tail }
  return (loops.head?.map Loop.breaks).getD []

/-- The address of the condition of the innermost loop, for a jump that the given keyword makes. -/
def innermost (keyword : Token.Kind) (pos : Position) : Analysing Nat := do
  match (← get).loops with
  | loop :: _ => return loop.head
  | [] => refuse ⟨.outsideLoop keyword, pos⟩

/-- Adds a jump out of the innermost loop. -/
def addBreak (jump : Nat) : Analysing Unit :=
  modify fun s => { s with loops := s.loops.modifyHead fun loop => { loop with breaks := jump :: loop.breaks } }

/-- Reads the inside of a function that returns the given type. -/
def inFunction (returns : Ty) (body : Analysing Unit) : Analysing Unit := do
  modify fun s => { s with function := some returns }
  body
  modify fun s => { s with function := none }

end Analysing

open Analysing

namespace Expr

mutual

/-- Reads an expression where it stands, and returns its type. -/
def analyse : Expr → Analysing Ty
  | int pos value => step fun ctx => (int pos value).emit ctx
  | literal pos kind => step fun ctx => (literal pos kind).emit ctx
  | var name => step fun ctx => emitLoad ctx name
  | call callee args => do
    let f ← step fun _ => callable callee
    analyseArguments f.params args
    step fun _ => if args.length = f.params.length then do
        Assembling.emit .call (some f.entry) callee.pos
        return f.returns
      else Assembling.fail (.argumentCount callee.name f.params.length args.length) callee.pos
  | assign target value => do
    if (← get).inOperand then refuse ⟨.assignmentAsOperand target.name, target.pos⟩
    else do
      let v ← step fun _ => assignable target
      let ty ← reading false value.analyse
      step fun _ => Assembling.requireType v.ty ty value.start
      step fun _ => Assembling.markWritten target
      step fun ctx => Assembling.emit (ctx.storeOp v) (some v.slot) target.pos
      return .void
  | paren _ inner => reading false inner.analyse
  | neg pos operand => do
    step fun _ => Assembling.emit .lit (some 0) pos
    let ty ← reading true operand.analyse
    step fun _ => Assembling.requireValue .int ty operand.start
    step fun _ => Assembling.emit .sub none pos
    return ty
  | cast value pos target => do
    let source ← value.analyse
    let ty ← step fun _ => Assembling.resolveType false target
    step fun _ => Assembling.requireValue ty source pos
    return ty
  | binary left op pos right => do
    let leftTy ← left.analyse
    let rightTy ← reading true right.analyse
    step fun _ => Assembling.requireValue .int leftTy pos
    step fun _ => Assembling.requireType leftTy rightTy pos
    step fun _ => Assembling.emit op.operation none pos
    return op.resultType leftTy
  | fault error => refuse error
  | cut read error => do
    let _ ← reading false read.analyse
    refuse error

/-- Reads the arguments of a call in order. -/
def analyseArguments : List Ty → List Expr → Analysing Unit
  | _, [] => return ()
  | [], arg :: args => do
    let _ ← reading false arg.analyse
    analyseArguments [] args
  | ty :: params, arg :: args => do
    let found ← reading false arg.analyse
    step fun _ => Assembling.requireType ty found arg.start
    analyseArguments params args

end

/-- Reads an expression that is not part of another one. -/
def analyseWhole (e : Expr) : Analysing Ty := reading false e.analyse

end Expr

namespace Stmt

/-- Reads a condition. -/
def analyseCondition (condition : Expr) : Analysing Unit := do
  let ty ← condition.analyseWhole
  step fun _ => Assembling.requireValue .int ty condition.start

/-- Reads the declaration of a variable. -/
def analyseDecl (pos : Position) (constant : Bool) (name ty : Ident) (init : Option Expr) : Analysing Unit := do
  let ty ← step fun _ => Assembling.resolveType false ty
  let v ← step fun _ => Assembling.declare name constant ty
  match init with
  | some value => do
    let found ← value.analyseWhole
    step fun _ => Assembling.requireType v.ty found value.start
    step fun ctx => Assembling.emit (ctx.storeOp v) (some v.slot) pos
    step fun _ => Assembling.markWritten name
  | none => return ()

/-- Reads a statement. -/
def analyse : Stmt → Analysing Unit
  | nil => return ()
  | seq first rest => do
    first.analyse
    rest.analyse
  | empty => return ()
  | decl pos constant name ty init => analyseDecl pos constant name ty init
  | expr value => do
    let ty ← value.analyseWhole
    if ty ≠ .void then step fun _ => Assembling.emit .pop none value.start
  | block body => do
    step fun _ => Assembling.modifySymbols SymbolTable.enterBlock
    body.analyse
    step fun _ => Assembling.modifySymbols SymbolTable.leave
  | ifThen pos condition body => do
    analyseCondition condition
    let skip ← step fun _ => Assembling.emitJump .jz pos
    body.analyse
    patch skip
  | ifElse pos condition body elsePos alternative => do
    analyseCondition condition
    let skip ← step fun _ => Assembling.emitJump .jz pos
    body.analyse
    let done ← step fun _ => Assembling.emitJump .jmp elsePos
    patch skip
    alternative.analyse
    patch done
  | loop pos condition body => do
    let head ← step fun _ => Assembling.nextAddress
    analyseCondition condition
    let done ← step fun _ => Assembling.emitJump .jz pos
    let breaks ← inLoop head body.analyse
    step fun _ => Assembling.emit .jmp (some head) pos
    patch done
    breaks.forM patch
  | leave pos => do
    let _ ← innermost .kwBreak pos
    let jump ← step fun _ => Assembling.emitJump .jmp pos
    addBreak jump
  | again pos => do
    let head ← innermost .kwContinue pos
    step fun _ => Assembling.emit .jmp (some head) pos
  | ret pos stop => do
    step fun ctx => checkReturn ctx .void stop
    step fun _ => Assembling.emit .ret none pos
  | retValue pos value => do
    let ty ← value.analyseWhole
    step fun ctx => checkReturn ctx ty value.start
    step fun _ => Assembling.emit .ret none pos
  | fault error => refuse error

end Stmt

/-- Reads a function definition. -/
def Function.analyse : Function → Analysing Unit
  | defn _ name params returns body close => do
    let types ← step fun _ => paramTypes params
    let ty ← step fun _ => Assembling.resolveType true returns
    let entry ← step fun _ => Assembling.nextAddress
    step fun _ => Assembling.declareFunction name ⟨ty, entry, types⟩
    step fun _ => Assembling.modifySymbols SymbolTable.enterFunction
    inFunction ty do
      step fun _ => declareParams (params.zip types)
      body.analyse
      step fun _ => Assembling.emit .ret none close
    step fun _ => Assembling.modifySymbols SymbolTable.leave
  | fault _ params error => do
    let _ ← step fun _ => paramTypes params
    refuse error

namespace CompilationUnit

/-- Reads the functions, with the jump past them. -/
def analyseFunctions : List Function → Analysing Unit
  | [] => return ()
  | first :: rest => do
    let skip ← step fun _ => Assembling.emitJump .jmp first.pos
    (first :: rest).forM Function.analyse
    patch skip

/-- Reads a whole program. -/
def analyse (u : CompilationUnit) : Analysing Unit := do
  u.globals.analyse
  analyseFunctions u.functions
  match u.ending with
  | .ok pos => do
    step fun _ => emitMainCall pos
    step fun _ => Assembling.emit .ret none pos
  | .error error => refuse error

end CompilationUnit

/-- Reads the text of a source from a fresh state, and returns the program. -/
def analyse (mode : Mode) (s : Source) : Except Halt Program :=
  let m := match mode with
    | .program => (CompilationUnit.parse (TokenStream.ofSource s)).1.analyse
    | .statements => (Stmt.parseAll (TokenStream.ofSource s)).1.analyse
  (m.run .empty).map fun r => r.2.program

end C0Stack
