/-!
# Instructions

The instructions of the stack machine. Most take their arguments from an operand stack; some carry an operand of their own: a
value, a storage slot or an address.

| Operation | Operand | Effect on the stack |
|---|---|---|
| `LIT n` | value | pushes `n` |
| `LOD n`, `LODG n` | slot | pushes slot `n` of the current, or of the global, frame |
| `STO n`, `STOG n` | slot | pops a value into slot `n` of the current, or of the global, frame |
| `ADD SUB MUL DIV` | | pops two values and pushes the result |
| `EQ NE LT GT LE GE` | | pops two values and pushes one or zero |
| `POP` | | drops a value |
| `CALL a` | address | the pushed arguments become the first slots of a new frame; goes on at `a` |
| `RET` | | leaves the frame; a returned value stays on top |
| `JMP a` | address | goes on at `a` |
| `JZ a` | address | pops a value and goes on at `a` if it is zero |
-/

namespace C0Stack

/-- What an instruction does. -/
inductive Operation where
  | lit
  | lod
  | sto
  | lodg
  | stog
  | add
  | sub
  | mul
  | div
  | eq
  | ne
  | lt
  | gt
  | le
  | ge
  | pop
  | call
  | ret
  | jmp
  | jz
deriving DecidableEq, Repr, Inhabited

namespace Operation

/-- The name of the operation in a listing. -/
def mnemonic : Operation → String
  | lit => "LIT"
  | lod => "LOD"
  | sto => "STO"
  | lodg => "LODG"
  | stog => "STOG"
  | add => "ADD"
  | sub => "SUB"
  | mul => "MUL"
  | div => "DIV"
  | eq => "EQ"
  | ne => "NE"
  | lt => "LT"
  | gt => "GT"
  | le => "LE"
  | ge => "GE"
  | pop => "POP"
  | call => "CALL"
  | ret => "RET"
  | jmp => "JMP"
  | jz => "JZ"

/-- The operation goes on elsewhere than at the next instruction, within its frame. -/
def isJump : Operation → Bool
  | jmp | jz => true
  | _ => false

/-- Instructions with this operation carry an operand. -/
def hasOperand : Operation → Bool
  | lit | lod | sto | lodg | stog | call | jmp | jz => true
  | _ => false

end Operation

/-- An operation and its operand, if it has one. -/
structure Instruction where
  op : Operation
  operand : Option Nat
deriving DecidableEq, Repr, Inhabited

/-- The instruction as a listing shows it. -/
def Instruction.render (i : Instruction) : String :=
  match i.operand with
  | some n => i.op.mnemonic ++ " " ++ toString n
  | none => i.op.mnemonic

end C0Stack
