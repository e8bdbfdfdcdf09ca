import C0Stack.Proofs.Code.CompilationUnit
import C0Stack.Proofs.Code.Lines
import C0Stack.Proofs.Grammar.CompilationUnit

/-!
# Trees of the grammar

The trees that the grammar derives have the shape that the code relies on: branches and the bodies of loops are blocks, and outside
functions there are only declarations.
-/

namespace C0Stack

namespace Grammar

/-- There is no statement inside a declaration. -/
theorem Declaration.structured {ts : List Token} {s : Stmt} (h : Declaration ts s) : s.Structured := by
  cases h <;> trivial

mutual

/-- In a statement of the grammar branches and the bodies of loops are blocks. -/
theorem Statement.structured {ts : List Token} {s : Stmt} : Statement ts s → s.Structured
  | .decl h => h.structured
  | .conditional h => h.structured.2
  | .loop _ _ hbody => hbody.structured
  | .ret _ _ => trivial
  | .retValue _ _ _ => trivial
  | .leave _ _ => trivial
  | .again _ _ => trivial
  | .block h => h.structured.2
  | .empty _ => trivial
  | .expr _ _ => trivial

/-- A conditional opens scopes for its branches. -/
theorem Conditional.structured {ts : List Token} {s : Stmt} : Conditional ts s → s.Scoped ∧ s.Structured
  | .ifThen _ _ hbody => ⟨hbody.structured.1, hbody.structured⟩
  | .ifElse _ _ hbody _ hother =>
    ⟨⟨hbody.structured.1, hother.structured.1⟩, hbody.structured.1, hother.structured.1, hbody.structured.2, hother.structured.2⟩

/-- What stands behind `else` opens a scope of its own. -/
theorem Alternative.structured {ts : List Token} {s : Stmt} : Alternative ts s → s.Scoped ∧ s.Structured
  | .block h => h.structured
  | .conditional h => h.structured

/-- A block opens a scope of its own. -/
theorem Block.structured {ts : List Token} {s : Stmt} : Block ts s → s.Scoped ∧ s.Structured
  | .braces _ h => ⟨trivial, h.structured⟩

/-- The body of a block has the shape of its statements. -/
theorem Body.structured {ts : List Token} {body : Stmt × Position} : Body ts body → body.1.Structured
  | .close h _ => h.structured

/-- Statements in a row have the shape of each of them. -/
theorem Statements.structured {ts : List Token} {s : Stmt} : Statements ts s → s.Structured
  | .nil => trivial
  | .cons h hs => ⟨h.structured, hs.structured⟩

end

/-- Declarations in a row have that shape too. -/
theorem Declarations.structured {ts : List Token} {s : Stmt} (h : Declarations ts s) : s.Structured := by
  induction h with
  | nil => trivial
  | cons h _ ih => exact ⟨h.structured, ih⟩

/-- Outside functions there are only declarations. -/
theorem Declarations.declarative {ts : List Token} {s : Stmt} (h : Declarations ts s) : s.Declarative := by
  induction h with
  | nil => trivial
  | cons h _ ih =>
    refine ⟨?_, ih⟩
    cases h <;> trivial

/-- The bodies of functions have the shape of blocks. -/
theorem Functions.allStructured {ts : List Token} {fs : List Function} (h : Functions ts fs) : Function.AllStructured fs := by
  induction h with
  | nil => exact nofun
  | cons h _ ih =>
    intro pos name params target body close hmem
    rcases List.mem_cons.1 hmem with rfl | hmem
    · cases h with
      | defn _ _ _ _ _ _ _ _ hbody => exact hbody.structured
    · exact ih pos name params target body close hmem

/-- In a whole program the declarations and all of the bodies have that shape. -/
theorem ProgramText.structured {ts : List Token} {pos : Position} {u : CompilationUnit} (h : ProgramText ts pos u) :
    u.globals.Structured ∧ Function.AllStructured u.functions := by
  cases h with
  | mk hd hf => exact ⟨hd.structured, hf.allStructured⟩

/-- In a whole program there are only declarations outside functions. -/
theorem ProgramText.declarative {ts : List Token} {pos : Position} {u : CompilationUnit} (h : ProgramText ts pos u) :
    u.globals.Declarative := by
  cases h with
  | mk hd _ => exact hd.declarative

end Grammar

end C0Stack
