import C0Stack.Proofs.Grammar.Structured

/-!
# Where declarations stand

In a tree of the grammar a declaration is always one of a list of statements, so that what follows it in the list is the rest of its
scope, and a constant is declared with a value.
-/

namespace C0Stack

mutual

/-- The statement is not itself a list of statements, and the lists in it are made of such statements. Constants have values. -/
def Stmt.Single : Stmt → Prop
  | nil | seq _ _ => False
  | decl _ constant _ _ init => constant = true → init.isSome = true
  | block body => body.Listed
  | ifThen _ _ body | loop _ _ body => body.Single
  | ifElse _ _ body _ other => body.Single ∧ other.Single
  | _ => True

/-- The statement is a list of single ones. -/
def Stmt.Listed : Stmt → Prop
  | nil => True
  | seq first rest => first.Single ∧ rest.Listed
  | _ => False

end

namespace Grammar

/-- A declaration is a single statement, and a constant has a value. -/
theorem Declaration.single {ts : List Token} {s : Stmt} (h : Declaration ts s) : s.Single := by
  cases h with
  | plain =>
    unfold Stmt.Single
    exact nofun
  | init =>
    unfold Stmt.Single
    exact fun _ => rfl

mutual

/-- A statement of the grammar is a single one. -/
theorem Statement.single {ts : List Token} {s : Stmt} : Statement ts s → s.Single
  | .decl h => h.single
  | .conditional h => h.single
  | .loop _ _ hbody => by
    unfold Stmt.Single
    exact hbody.single
  | .ret _ _ | .retValue _ _ _ | .leave _ _ | .again _ _ | .empty _ | .expr _ _ => by
    unfold Stmt.Single
    trivial
  | .block h => h.single

/-- A conditional is a single statement, and its branches are. -/
theorem Conditional.single {ts : List Token} {s : Stmt} : Conditional ts s → s.Single
  | .ifThen _ _ hbody => by
    unfold Stmt.Single
    exact hbody.single
  | .ifElse _ _ hbody _ hother => by
    unfold Stmt.Single
    exact ⟨hbody.single, hother.single⟩

/-- What stands behind `else` is a single statement. -/
theorem Alternative.single {ts : List Token} {s : Stmt} : Alternative ts s → s.Single
  | .block h => h.single
  | .conditional h => h.single

/-- A block is a single statement with a list inside. -/
theorem Block.single {ts : List Token} {s : Stmt} : Block ts s → s.Single
  | .braces _ h => by
    unfold Stmt.Single
    exact h.listed

/-- The body of a block is a list. -/
theorem Body.listed {ts : List Token} {body : Stmt × Position} : Body ts body → body.1.Listed
  | .close h _ => h.listed

/-- Statements of the grammar are a list. -/
theorem Statements.listed {ts : List Token} {s : Stmt} : Statements ts s → s.Listed
  | .nil => by
    unfold Stmt.Listed
    trivial
  | .cons h hs => by
    unfold Stmt.Listed
    exact ⟨h.single, hs.listed⟩

end

/-- The declarations of a program are a list. -/
theorem Declarations.listed {ts : List Token} {s : Stmt} (h : Declarations ts s) : s.Listed := by
  induction h with
  | nil =>
    unfold Stmt.Listed
    trivial
  | cons h _ ih =>
    unfold Stmt.Listed
    exact ⟨h.single, ih⟩

/-- The bodies of the functions are lists. -/
theorem Functions.listed {ts : List Token} {fs : List Function} (h : Functions ts fs) {pos close : Position} {name target : Ident}
    {params : List Param} {body : Stmt} (hf : .defn pos name params target body close ∈ fs) : body.Listed := by
  induction h with
  | nil => cases hf
  | cons h _ ih =>
    rcases List.mem_cons.1 hf with rfl | hf
    · cases h with
      | defn _ _ _ _ _ _ _ _ hbody => exact hbody.listed
    · exact ih hf

end Grammar

end C0Stack
