import C0Stack.Instruction
import C0Stack.Position
import C0Stack.Text.Padded

/-!
# Programs

A program is a sequence of instructions, addressed from zero, each with the place of the construct it was emitted for.
-/

namespace C0Stack

/-- An instruction and the place of the construct it was emitted for. -/
structure CodeLine where
  instruction : Instruction
  pos : Position
deriving DecidableEq, Repr, Inhabited

/-- A sequence of instructions. -/
structure Program where
  lines : Array CodeLine
deriving DecidableEq, Repr, Inhabited

namespace Program

/-- The program without instructions. -/
def empty : Program := ⟨#[]⟩

/-- The number of instructions, which is the address of the next one. -/
def size (p : Program) : Nat := p.lines.size

/-- The program followed by one more instruction. -/
def push (p : Program) (op : Operation) (operand : Option Nat) (pos : Position) : Program :=
  ⟨p.lines.push ⟨⟨op, operand⟩, pos⟩⟩

/-- The program with another operand at the given address. -/
def setOperand (p : Program) (address operand : Nat) : Program :=
  ⟨p.lines.modify address fun line => { line with instruction := { line.instruction with operand := some operand } }⟩

/-- The instructions in order. -/
def instructions (p : Program) : List Instruction := p.lines.toList.map CodeLine.instruction

/-- The places in order. -/
def positions (p : Program) : List Position := p.lines.toList.map CodeLine.pos

/-- The addresses of the instructions that were emitted for the given source line, in order. -/
def addressesOn (p : Program) (line : Nat) : List Nat :=
  (p.lines.toList.zipIdx.filter fun (l, _) => l.pos.line == line).map (·.2)

/-- One row of a listing. -/
def row (address : Nat) (i : Instruction) : String :=
  Text.alignRight 4 (toString address) ++ ": " ++ i.render ++ "\n"

/-- The listing: a row for each instruction, with its address. -/
def listing (p : Program) : String :=
  String.join (p.instructions.zipIdx.map fun (i, address) => row address i)

end Program

end C0Stack
