import C0Stack.Assembly
import C0Stack.Expr.Code
import Mathlib.Logic.Function.Basic
import Mathlib.Logic.Relation

/-!
# The stack machine

A machine that runs programs. What its values are and what the operators make of them is left open: an `Arithmetic` says it, and an
operator need not give a result for all values. Nor does an instruction `CALL` hold the number of arguments that it takes from the
stack; the machine knows it for each address that is called.

A state has one operand stack, the frame of the outermost scope and, inside a function, the frame of that function. A call puts the
address behind it and the frame on a stack of callers, and `RET` takes them from there. With no caller left, `RET` is where the
machine stops.
-/

namespace C0Stack

/-- Values and operators. -/
structure Arithmetic (V : Type) where
  literal : Nat → V
  apply : BinaryOp → V → V → Option V
  isZero : V → Bool

/-- Integers without bounds. A comparison gives one or zero, and a division by zero nothing. -/
def Arithmetic.integers : Arithmetic Int where
  literal n := n
  apply
    | .eq, v, w => some (if v = w then 1 else 0)
    | .ne, v, w => some (if v ≠ w then 1 else 0)
    | .lt, v, w => some (if v < w then 1 else 0)
    | .gt, v, w => some (if v > w then 1 else 0)
    | .le, v, w => some (if v ≤ w then 1 else 0)
    | .ge, v, w => some (if v ≥ w then 1 else 0)
    | .add, v, w => some (v + w)
    | .sub, v, w => some (v - w)
    | .mul, v, w => some (v * w)
    | .div, v, w => if w = 0 then none else some (v.tdiv w)
  isZero v := v == 0

/-- The frame of the outermost scope and, inside a function, the frame of the function. -/
structure Frames (α : Type) where
  inner : Option α
  global : α
deriving DecidableEq, Repr

namespace Frames

variable {α β : Type}

/-- The frame that is current. -/
def top (f : Frames α) : α := f.inner.getD f.global

/-- The frames with the current one replaced. -/
def setTop (f : Frames α) (a : α) : Frames α :=
  match f.inner with
  | some _ => ⟨some a, f.global⟩
  | none => ⟨none, a⟩

/-- The frames with each one changed. -/
def map (g : α → β) (f : Frames α) : Frames β := ⟨f.inner.map g, g f.global⟩

@[simp] theorem top_setTop (f : Frames α) (a : α) : (f.setTop a).top = a := by
  obtain ⟨_ | _, _⟩ := f <;> rfl

@[simp] theorem setTop_top (f : Frames α) : f.setTop f.top = f := by
  obtain ⟨_ | _, _⟩ := f <;> rfl

@[simp] theorem setTop_setTop (f : Frames α) (a b : α) : (f.setTop a).setTop b = f.setTop b := by
  obtain ⟨_ | _, _⟩ := f <;> rfl

@[simp] theorem top_map (g : α → β) (f : Frames α) : (f.map g).top = g f.top := by
  obtain ⟨_ | _, _⟩ := f <;> rfl

@[simp] theorem map_setTop (g : α → β) (f : Frames α) (a : α) : (f.setTop a).map g = (f.map g).setTop (g a) := by
  obtain ⟨_ | _, _⟩ := f <;> rfl

end Frames

/-- The slots of a frame. One that has not been written holds nothing. -/
abbrev Memory (V : Type) := Nat → Option V

/-- A slot of the current frame, or one of the outermost scope's frame. -/
inductive Location where
  | here (slot : Nat)
  | global (slot : Nat)
deriving DecidableEq, Repr

/-- Where code in the context finds the variable. -/
def Context.location (ctx : Context) (v : Variable) : Location := if ctx.isRemote v then .global v.slot else .here v.slot

namespace Frames

variable {V : Type}

/-- What the slot holds. -/
def read (f : Frames (Memory V)) : Location → Option V
  | .here n => f.top n
  | .global n => f.global n

/-- The frames with a value in the slot. -/
def write (f : Frames (Memory V)) (v : V) : Location → Frames (Memory V)
  | .here n => f.setTop (Function.update f.top n (some v))
  | .global n => { f with global := Function.update f.global n (some v) }

end Frames

/-- The operator of an operation that takes two values. -/
def Operation.binaryOp? : Operation → Option BinaryOp
  | eq => some .eq
  | ne => some .ne
  | lt => some .lt
  | gt => some .gt
  | le => some .le
  | ge => some .ge
  | add => some .add
  | sub => some .sub
  | mul => some .mul
  | div => some .div
  | _ => none

/-- A machine: what it computes with, how many arguments a call of each address takes, and the program that it runs. -/
structure Machine (V : Type) extends Arithmetic V where
  arity : Nat → Nat
  program : Program

/-- A state of a machine: the address of the next instruction, the operands with the latest first, the frames, and the return
address and frame of each caller, the latest first. -/
structure State (V : Type) where
  pc : Nat
  stack : List V
  frames : Frames (Memory V)
  callers : List (Nat × Option (Memory V))

/-- Address zero, with nothing on the stack and nothing written. -/
def State.initial (V : Type) : State V := ⟨0, [], ⟨none, fun _ => none⟩, []⟩

namespace Machine

variable {V : Type} (M : Machine V)

/-- The state after the instruction, if it can be executed. -/
def exec (s : State V) (i : Instruction) : Option (State V) :=
  match i.op, i.operand, s.stack with
  | .lit, some n, stack => some { s with pc := s.pc + 1, stack := M.literal n :: stack }
  | .lod, some n, stack => (s.frames.read (.here n)).map fun v => { s with pc := s.pc + 1, stack := v :: stack }
  | .lodg, some n, stack => (s.frames.read (.global n)).map fun v => { s with pc := s.pc + 1, stack := v :: stack }
  | .sto, some n, v :: stack => some { s with pc := s.pc + 1, stack, frames := s.frames.write v (.here n) }
  | .stog, some n, v :: stack => some { s with pc := s.pc + 1, stack, frames := s.frames.write v (.global n) }
  | .pop, none, _ :: stack => some { s with pc := s.pc + 1, stack }
  | .jmp, some n, _ => some { s with pc := n }
  | .jz, some n, v :: stack => some { s with pc := if M.isZero v then n else s.pc + 1, stack }
  | .call, some n, stack =>
    -- the arguments were pushed in order, so the first of them is deepest
    if M.arity n ≤ stack.length then
      some {
        pc := n
        stack := stack.drop (M.arity n)
        frames := ⟨some fun slot => (stack.take (M.arity n)).reverse[slot]?, s.frames.global⟩
        callers := (s.pc + 1, s.frames.inner) :: s.callers }
    else none
  | .ret, none, stack =>
    match s.callers with
    | (pc, frame) :: callers => some ⟨pc, stack, ⟨frame, s.frames.global⟩, callers⟩
    | [] => none
  | op, none, w :: v :: stack =>
    (op.binaryOp?.bind fun op => M.apply op v w).map fun z => { s with pc := s.pc + 1, stack := z :: stack }
  | _, _, _ => none

/-- The instruction at the address. -/
def fetch (address : Nat) : Option Instruction := M.program.lines[address]?.map CodeLine.instruction

/-- One step. -/
def step? (s : State V) : Option (State V) := (M.fetch s.pc).bind (M.exec s)

/-- Any number of steps. -/
abbrev Steps : State V → State V → Prop := Relation.ReflTransGen fun s s' => M.step? s = some s'

/-- The code stands in the program, from the address on. -/
def Placed : Nat → List CodeLine → Prop
  | _, [] => True
  | address, line :: code => M.fetch address = some line.instruction ∧ Placed (address + 1) code

variable {M}

/-- Two pieces stand in sequence. -/
theorem placed_append {address : Nat} {code code' : List CodeLine} :
    M.Placed address (code ++ code') ↔ M.Placed address code ∧ M.Placed (address + code.length) code' := by
  induction code generalizing address with
  | nil => simp [Placed]
  | cons line code ih => simp [Placed, ih, and_assoc, Nat.add_comm 1, Nat.add_assoc]

theorem placed_cons {address : Nat} {line : CodeLine} {code : List CodeLine} :
    M.Placed address (line :: code) ↔ M.fetch address = some line.instruction ∧ M.Placed (address + 1) code :=
  .rfl

/-- A piece of the program stands where it is in the program. -/
theorem placed_of_eq {pre code post : List CodeLine} (h : M.program.lines.toList = pre ++ (code ++ post)) :
    M.Placed pre.length code := by
  induction code generalizing pre with
  | nil => trivial
  | cons line code ih =>
    constructor
    · unfold fetch
      rw [← Array.getElem?_toList, h]
      simp
    · have := @ih (pre ++ [line]) (by simpa using h)
      simpa using this

/-! ## What each instruction does -/

section

variable {pc n : Nat} {stack : List V} {frames : Frames (Memory V)} {callers : List (Nat × Option (Memory V))} {v w z : V}

/-- One instruction is one step. -/
theorem steps_single {s s' : State V} {i : Instruction} (hi : M.fetch s.pc = some i) (h : M.exec s i = some s') :
    M.Steps s s' :=
  .single (by rw [step?, hi]; exact h)

/-- `LIT` puts a literal on the stack. -/
theorem steps_lit (h : M.fetch pc = some ⟨.lit, some n⟩) :
    M.Steps ⟨pc, stack, frames, callers⟩ ⟨pc + 1, M.literal n :: stack, frames, callers⟩ :=
  steps_single h rfl

/-- The load of a variable puts its value there. -/
theorem steps_load {ctx : Context} {x : Variable} (h : M.fetch pc = some ⟨ctx.loadOp x, some x.slot⟩)
    (hv : frames.read (ctx.location x) = some v) :
    M.Steps ⟨pc, stack, frames, callers⟩ ⟨pc + 1, v :: stack, frames, callers⟩ := by
  refine steps_single h ?_
  unfold Context.location at hv
  unfold Context.loadOp
  split at hv
  · rename_i hremote
    simp only [hremote, if_true, exec, hv, Option.map_some]
  · rename_i hlocal
    simp only [hlocal, exec, hv, Option.map_some, Bool.false_eq_true, if_false]

/-- The store of a variable takes the value. -/
theorem steps_store {ctx : Context} {x : Variable} (h : M.fetch pc = some ⟨ctx.storeOp x, some x.slot⟩) :
    M.Steps ⟨pc, v :: stack, frames, callers⟩ ⟨pc + 1, stack, frames.write v (ctx.location x), callers⟩ := by
  refine steps_single h ?_
  unfold Context.storeOp Context.location
  split <;> rfl

/-- An operator takes two operands and leaves the result. -/
theorem steps_binary {op : BinaryOp} (h : M.fetch pc = some ⟨op.operation, none⟩) (hz : M.apply op v w = some z) :
    M.Steps ⟨pc, w :: v :: stack, frames, callers⟩ ⟨pc + 1, z :: stack, frames, callers⟩ := by
  refine steps_single h ?_
  cases op <;> simp [exec, BinaryOp.operation, Operation.binaryOp?, hz]

/-- `POP` takes the latest operand. -/
theorem steps_pop (h : M.fetch pc = some ⟨.pop, none⟩) :
    M.Steps ⟨pc, v :: stack, frames, callers⟩ ⟨pc + 1, stack, frames, callers⟩ :=
  steps_single h rfl

/-- `JMP` goes to its target. -/
theorem steps_jmp (h : M.fetch pc = some ⟨.jmp, some n⟩) :
    M.Steps ⟨pc, stack, frames, callers⟩ ⟨n, stack, frames, callers⟩ :=
  steps_single h rfl

/-- `JZ` takes an operand, and goes to its target if that is zero. -/
theorem steps_jz (h : M.fetch pc = some ⟨.jz, some n⟩) :
    M.Steps ⟨pc, v :: stack, frames, callers⟩ ⟨if M.isZero v then n else pc + 1, stack, frames, callers⟩ :=
  steps_single h rfl

/-- `CALL` takes the arguments into the first slots of a new frame. -/
theorem steps_call {args : List V} (h : M.fetch pc = some ⟨.call, some n⟩) (hn : M.arity n = args.length) :
    M.Steps ⟨pc, args.reverse ++ stack, frames, callers⟩
      ⟨n, stack, ⟨some fun slot => args[slot]?, frames.global⟩, (pc + 1, frames.inner) :: callers⟩ := by
  refine steps_single h ?_
  simp [exec, hn]

/-- `RET` goes back to the caller and its frame. -/
theorem steps_ret {caller : Nat} {frame : Option (Memory V)} (h : M.fetch pc = some ⟨.ret, none⟩) :
    M.Steps ⟨pc, stack, frames, (caller, frame) :: callers⟩ ⟨caller, stack, ⟨frame, frames.global⟩, callers⟩ :=
  steps_single h rfl

end

end Machine

end C0Stack
