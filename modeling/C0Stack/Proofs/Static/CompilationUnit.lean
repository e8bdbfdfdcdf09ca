import C0Stack.CompilationUnit.Basic
import C0Stack.Proofs.Static.Stmt

/-!
# The static rules of functions and compilation units

The names of variables outside functions and those of functions share the outermost scope. A function can be called from its own
header on, so also in its own body; its parameters and what its body declares at the top share the scope inside it.
-/

namespace C0Stack

/-- The parameters have the types, one by one, and declaring them in the scope of the first names gives the second ones. -/
inductive Param.Declare : Names → List Param → List Ty → Names → Prop
  | nil {names : Names} : Declare names [] [] names
  /-- A parameter is a new name in the scope, has a type that has values, and has a value from the start. -/
  | cons {names names' : Names} {p : Param} {ps : List Param} {ty : Ty} {tys : List Ty} :
      Ty.named? p.ty.name = some ty → ty ≠ .void → names p.name.name = none →
        Declare (Function.update names p.name.name (some (.var ty p.constant true))) ps tys names' →
        Declare names (p :: ps) (ty :: tys) names'

/-- The function keeps the static rules where the outermost scope holds the first names, and leaves the second ones there. -/
inductive Function.Valid : Names → Function → Names → Prop
  | defn {outer outer' locals locals' : Names} {pos close : Position} {name target : Ident} {params : List Param} {types : List Ty}
      {ty : Ty} {body : Stmt} :
      Param.Declare (fun _ => none) params types locals → Ty.named? target.name = some ty → outer name.name = none →
        Stmt.Valid (some ty) false [locals, Function.update outer name.name (some (.function types ty))] body [locals', outer'] →
        Valid outer (.defn pos name params target body close) outer'

/-- The functions keep the static rules, each where those before it are declared. -/
inductive Function.AllValid : Names → List Function → Names → Prop
  | nil {outer : Names} : AllValid outer [] outer
  | cons {outer outer₁ outer₂ : Names} {f : Function} {fs : List Function} :
      f.Valid outer outer₁ → AllValid outer₁ fs outer₂ → AllValid outer (f :: fs) outer₂

/-- The unit keeps the static rules. -/
inductive CompilationUnit.Valid : CompilationUnit → Prop
  /-- A function `main` takes no parameters. -/
  | mk {u : CompilationUnit} {outer outer' : Names} :
      Stmt.Valid none false [fun _ => none] u.globals [outer] → Function.AllValid outer u.functions outer' →
        (∀ params returns, outer' "main" = some (.function params returns) → params = []) → Valid u

end C0Stack
