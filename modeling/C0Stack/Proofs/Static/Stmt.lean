import C0Stack.Stmt.Basic
import C0Stack.Proofs.Static.Expr

/-!
# The static rules of statements

`Stmt.Valid returns inLoop Γ s Γ'` says that the statement `s` keeps the static rules where the scopes are `Γ`, and that they are
`Γ'` behind it. `returns` is the return type of the function around it, if there is one, and `inLoop` says that there is a loop
around it. Each part is taken in the order of the text, whether or not it is ever executed: an assignment in one branch of a
conditional gives its target a value for all that comes later.
-/

namespace C0Stack

/-- The statement keeps the static rules in the scopes `Γ`, and leaves the second ones. -/
inductive Stmt.Valid (returns : Option Ty) : Bool → Scopes → Stmt → Scopes → Prop
  | nil {inLoop : Bool} {Γ : Scopes} : Valid returns inLoop Γ .nil Γ
  | seq {inLoop : Bool} {Γ Γ₁ Γ₂ : Scopes} {first rest : Stmt} :
      Valid returns inLoop Γ first Γ₁ → Valid returns inLoop Γ₁ rest Γ₂ → Valid returns inLoop Γ (.seq first rest) Γ₂
  | empty {inLoop : Bool} {Γ : Scopes} : Valid returns inLoop Γ .empty Γ
  /-- A name is declared once in a scope, and with a type that has values. -/
  | decl {inLoop : Bool} {names : Names} {outer : Scopes} {pos : Position} {constant : Bool} {x target : Ident} {ty : Ty} :
      names x.name = none → Ty.named? target.name = some ty → ty ≠ .void →
        Valid returns inLoop (names :: outer) (.decl pos constant x target none)
          (Function.update names x.name (some (.var ty constant false)) :: outer)
  /-- The name is in scope in its initial value, but has no value there. -/
  | init {inLoop : Bool} {names : Names} {outer Γ' : Scopes} {pos : Position} {constant : Bool} {x target : Ident} {ty : Ty}
      {e : Expr} :
      names x.name = none → Ty.named? target.name = some ty → ty ≠ .void →
        HasType (Function.update names x.name (some (.var ty constant false)) :: outer) e ty Γ' →
        Valid returns inLoop (names :: outer) (.decl pos constant x target (some e)) (Γ'.assign x.name)
  | expr {inLoop : Bool} {Γ Γ' : Scopes} {e : Expr} {ty : Ty} : HasType Γ e ty Γ' → Valid returns inLoop Γ (.expr e) Γ'
  /-- What a block declares is out of scope behind it. -/
  | block {inLoop : Bool} {Γ Γ' : Scopes} {names : Names} {body : Stmt} :
      Valid returns inLoop ((fun _ => none) :: Γ) body (names :: Γ') → Valid returns inLoop Γ (.block body) Γ'
  | ifThen {inLoop : Bool} {Γ Γ₁ Γ₂ : Scopes} {pos : Position} {condition : Expr} {ty : Ty} {body : Stmt} :
      HasType Γ condition ty Γ₁ → ty ≠ .void → Valid returns inLoop Γ₁ body Γ₂ →
        Valid returns inLoop Γ (.ifThen pos condition body) Γ₂
  | ifElse {inLoop : Bool} {Γ Γ₁ Γ₂ Γ₃ : Scopes} {pos elsePos : Position} {condition : Expr} {ty : Ty} {body other : Stmt} :
      HasType Γ condition ty Γ₁ → ty ≠ .void → Valid returns inLoop Γ₁ body Γ₂ → Valid returns inLoop Γ₂ other Γ₃ →
        Valid returns inLoop Γ (.ifElse pos condition body elsePos other) Γ₃
  | loop {inLoop : Bool} {Γ Γ₁ Γ₂ : Scopes} {pos : Position} {condition : Expr} {ty : Ty} {body : Stmt} :
      HasType Γ condition ty Γ₁ → ty ≠ .void → Valid returns true Γ₁ body Γ₂ →
        Valid returns inLoop Γ (.loop pos condition body) Γ₂
  | leave {Γ : Scopes} {pos : Position} : Valid returns true Γ (.leave pos) Γ
  | again {Γ : Scopes} {pos : Position} : Valid returns true Γ (.again pos) Γ
  /-- A return without a value stands in a function that returns none, or outside functions. -/
  | ret {inLoop : Bool} {Γ : Scopes} {pos stop : Position} :
      (∀ ty, returns = some ty → ty = .void) → Valid returns inLoop Γ (.ret pos stop) Γ
  /-- The value that a function returns is of its return type. Outside functions it may be of any. -/
  | retValue {inLoop : Bool} {Γ Γ' : Scopes} {pos : Position} {e : Expr} {found : Ty} :
      HasType Γ e found Γ' → (∀ ty, returns = some ty → found = ty) → Valid returns inLoop Γ (.retValue pos e) Γ'

mutual

/-- An expression opens and closes no scope. -/
theorem HasType.length_eq {Γ Γ' : Scopes} {e : Expr} {ty : Ty} (h : HasType Γ e ty Γ') : Γ'.length = Γ.length := by
  cases h with
  | int | var => rfl
  | call _ h => exact h.scopes_length_eq
  | assign _ h => rw [Scopes.length_assign, h.length_eq]
  | paren h => exact h.length_eq
  | neg h => exact h.length_eq
  | cast h => exact h.length_eq
  | binary hl hr => rw [hr.length_eq, hl.length_eq]

/-- Neither do the arguments of a call. -/
theorem HaveTypes.scopes_length_eq {Γ Γ' : Scopes} {es : List Expr} {tys : List Ty} (h : HaveTypes Γ es tys Γ') :
    Γ'.length = Γ.length := by
  cases h with
  | nil => rfl
  | cons h hs => rw [hs.scopes_length_eq, h.length_eq]

end

/-- Behind a statement as many scopes are open as in front of it. -/
theorem Stmt.Valid.length_eq {returns : Option Ty} {inLoop : Bool} {Γ Γ' : Scopes} {s : Stmt}
    (h : s.Valid returns inLoop Γ Γ') : Γ'.length = Γ.length := by
  induction h with
  | nil | empty | leave | again | ret => rfl
  | seq _ _ ih ih' => rw [ih', ih]
  | decl => rfl
  | init _ _ _ h => rw [Scopes.length_assign, h.length_eq]; rfl
  | expr h => exact h.length_eq
  | block _ ih => simpa using ih
  | ifThen hc _ _ ih => rw [ih, hc.length_eq]
  | ifElse hc _ _ _ ih ih' => rw [ih', ih, hc.length_eq]
  | loop hc _ _ ih => rw [ih, hc.length_eq]
  | retValue h => exact h.length_eq

end C0Stack
