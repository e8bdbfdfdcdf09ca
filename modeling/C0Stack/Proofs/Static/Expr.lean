import C0Stack.Expr.Code
import C0Stack.Proofs.Static.Scopes

/-!
# Types of expressions

`HasType Γ e ty Γ'` says that `e` has type `ty` where the scopes are `Γ`, and that they are `Γ'` behind it: an expression declares
nothing, but an assignment in it gives its target a value for everything that comes later in the text. Parts are taken in the
order of the text.

There is no rule for a literal of a double or a string, and none for a place where the text could not be read.
-/

namespace C0Stack

mutual

/-- The expression has the type in the scopes `Γ`, and leaves the second ones. -/
inductive HasType : Scopes → Expr → Ty → Scopes → Prop
  | int {Γ : Scopes} {pos : Position} {n : UInt64} : HasType Γ (.int pos n) .int Γ
  /-- A name that is read is a variable that has been assigned. -/
  | var {Γ : Scopes} {x : Ident} {ty : Ty} {constant : Bool} :
      Γ.find? x.name = some (.var ty constant true) → HasType Γ (.var x) ty Γ
  /-- A name that is called is a function, and the arguments match its parameters in number and type. -/
  | call {Γ Γ' : Scopes} {f : Ident} {params : List Ty} {returns : Ty} {args : List Expr} :
      Γ.find? f.name = some (.function params returns) → HaveTypes Γ args params Γ' →
        HasType Γ (.call f args) returns Γ'
  /-- The target of an assignment is a variable of the type of the value, and not constant. -/
  | assign {Γ Γ' : Scopes} {x : Ident} {ty : Ty} {assigned : Bool} {e : Expr} :
      Γ.find? x.name = some (.var ty false assigned) → HasType Γ e ty Γ' →
        HasType Γ (.assign x e) .void (Γ'.assign x.name)
  | paren {Γ Γ' : Scopes} {pos : Position} {e : Expr} {ty : Ty} :
      HasType Γ e ty Γ' → HasType Γ (.paren pos e) ty Γ'
  | neg {Γ Γ' : Scopes} {pos : Position} {e : Expr} {ty : Ty} :
      HasType Γ e ty Γ' → ty ≠ .void → HasType Γ (.neg pos e) ty Γ'
  | cast {Γ Γ' : Scopes} {e : Expr} {pos : Position} {target : Ident} {source ty : Ty} :
      HasType Γ e source Γ' → source ≠ .void → Ty.named? target.name = some ty → ty ≠ .void →
        HasType Γ (.cast e pos target) ty Γ'
  /-- The operands have one type. Comparisons give an `int`, the other operators the type of the operands. -/
  | binary {Γ Γ₁ Γ₂ : Scopes} {left right : Expr} {op : BinaryOp} {pos : Position} {ty : Ty} :
      HasType Γ left ty Γ₁ → HasType Γ₁ right ty Γ₂ → ty ≠ .void →
        HasType Γ (.binary left op pos right) (op.resultType ty) Γ₂

/-- The expressions have the types, one by one. -/
inductive HaveTypes : Scopes → List Expr → List Ty → Scopes → Prop
  | nil {Γ : Scopes} : HaveTypes Γ [] [] Γ
  | cons {Γ Γ₁ Γ₂ : Scopes} {e : Expr} {es : List Expr} {ty : Ty} {tys : List Ty} :
      HasType Γ e ty Γ₁ → HaveTypes Γ₁ es tys Γ₂ → HaveTypes Γ (e :: es) (ty :: tys) Γ₂

end

/-- There are as many expressions as types. -/
theorem HaveTypes.length_eq {Γ Γ' : Scopes} {es : List Expr} {tys : List Ty} (h : HaveTypes Γ es tys Γ') :
    es.length = tys.length := by
  induction es generalizing Γ tys with
  | nil => cases h; rfl
  | cons e es ih =>
    cases h with
    | cons _ h => simp [ih h]

end C0Stack
