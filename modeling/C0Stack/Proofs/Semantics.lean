import C0Stack.CompilationUnit.Basic
import C0Stack.Proofs.Machine

/-!
# What programs mean

A big-step semantics of the syntax trees, which knows nothing of slots, addresses or code. A variable is found by its name, from
the latest declaration in scope back; one that has been declared and not assigned has no value, and there is no rule to read it.
Operands are evaluated from left to right. A call binds the parameters to the values of the arguments in a new environment, in which
only the variables outside functions are seen beside them.

Statements say how they end: behind themselves, by a jump out of the loop or to its condition, or by a return. Behind a block what
it declared is gone. A return keeps the environment, which is the one at that point.
-/

namespace C0Stack

variable {V : Type}

/-- The variables in scope with their values, the latest declaration first. -/
abbrev Env (V : Type) := List (String × Option V)

namespace Env

/-- The names of the variables. -/
def names (env : Env V) : List String := env.map Prod.fst

/-- The environment with a value for the variable of that name, if there is one. -/
def write? (x : String) (v : V) : Env V → Option (Env V)
  | [] => none
  | (y, r) :: env => if x = y then some ((y, some v) :: env) else (write? x v env).map ((y, r) :: ·)

/-- The parameters, each with the value of its argument. -/
def ofParams (params : List String) (args : List V) : Env V := (params.zip (args.map some)).reverse

end Env

/-- The environments: that of the outermost scope and, inside a function, that of the function. -/
abbrev Store (V : Type) := Frames (Env V)

namespace Store

/-- No variable is in scope. -/
def empty : Store V := ⟨none, []⟩

/-- The names of the variables. -/
abbrev names (σ : Store V) : Frames (List String) := σ.map Env.names

/-- The value of the variable of that name. -/
def read (σ : Store V) (x : String) : Option V :=
  ((σ.inner.bind (List.lookup x)).or (σ.global.lookup x)).join

/-- The store with a value for the variable of that name, if there is one. -/
def write? (σ : Store V) (x : String) (v : V) : Option (Store V) :=
  match σ.inner.bind (Env.write? x v) with
  | some env => some ⟨some env, σ.global⟩
  | none => (σ.global.write? x v).map fun env => ⟨σ.inner, env⟩

/-- The store with a new variable, which has no value. -/
def declare (σ : Store V) (x : String) : Store V := σ.setTop ((x, none) :: σ.top)

/-- The store with the variables of the inner blocks dropped, so that `n` are left in the current environment. -/
def keep (σ : Store V) (n : Nat) : Store V := σ.setTop (σ.top.drop (σ.top.length - n))

end Store

/-- How a statement ends. -/
inductive Ending (V : Type) where
  | normal
  | broke
  | continued
  | returned (value : Option V)
deriving DecidableEq, Repr

/-- A function as it is called. -/
structure Procedure where
  params : List String
  isVoid : Bool
  body : Stmt

/-- A call whose body ends in this way gives this result. The end of the body is reached only where no value is expected. -/
inductive Procedure.Gives (d : Procedure) : Ending V → Option V → Prop
  | returned {value : Option V} : d.Gives (.returned value) value
  | ended : d.isVoid = true → d.Gives .normal none

/-- The store behind a block that ends in this way, where `σ` is the one in front of it and `σ'` the one at its end. -/
def Ending.close (σ σ' : Store V) : Ending V → Store V
  | returned _ => σ'
  | _ => σ'.keep σ.top.length

section

variable (A : Arithmetic V) (F : String → Option Procedure)

mutual

/-- The expression has this value, or none, and leaves the second store. -/
inductive Eval : Store V → Expr → Option V → Store V → Prop
  | int {σ : Store V} {pos : Position} {n : UInt64} : Eval σ (.int pos n) (some (A.literal n.toNat)) σ
  | var {σ : Store V} {x : Ident} {v : V} : σ.read x.name = some v → Eval σ (.var x) (some v) σ
  | call {σ σ₁ σ₂ : Store V} {f : Ident} {args : List Expr} {vs : List V} {d : Procedure} {o : Ending V} {r : Option V} :
      F f.name = some d → EvalAll σ args vs σ₁ → vs.length = d.params.length →
        Exec ⟨some (Env.ofParams d.params vs), σ₁.global⟩ d.body o σ₂ → d.Gives o r →
        Eval σ (.call f args) r { σ₁ with global := σ₂.global }
  | assign {σ σ₁ σ₂ : Store V} {x : Ident} {e : Expr} {v : V} :
      Eval σ e (some v) σ₁ → σ₁.write? x.name v = some σ₂ → Eval σ (.assign x e) none σ₂
  | paren {σ σ₁ : Store V} {pos : Position} {e : Expr} {r : Option V} : Eval σ e r σ₁ → Eval σ (.paren pos e) r σ₁
  | neg {σ σ₁ : Store V} {pos : Position} {e : Expr} {v w : V} :
      Eval σ e (some v) σ₁ → A.apply .sub (A.literal 0) v = some w → Eval σ (.neg pos e) (some w) σ₁
  | cast {σ σ₁ : Store V} {e : Expr} {pos : Position} {target : Ident} {v : V} :
      Eval σ e (some v) σ₁ → Eval σ (.cast e pos target) (some v) σ₁
  | binary {σ σ₁ σ₂ : Store V} {left right : Expr} {op : BinaryOp} {pos : Position} {v w z : V} :
      Eval σ left (some v) σ₁ → Eval σ₁ right (some w) σ₂ → A.apply op v w = some z →
        Eval σ (.binary left op pos right) (some z) σ₂

/-- The expressions have these values, one by one. -/
inductive EvalAll : Store V → List Expr → List V → Store V → Prop
  | nil {σ : Store V} : EvalAll σ [] [] σ
  | cons {σ σ₁ σ₂ : Store V} {e : Expr} {es : List Expr} {v : V} {vs : List V} :
      Eval σ e (some v) σ₁ → EvalAll σ₁ es vs σ₂ → EvalAll σ (e :: es) (v :: vs) σ₂

/-- The statement ends in this way and leaves the second store. -/
inductive Exec : Store V → Stmt → Ending V → Store V → Prop
  | nil {σ : Store V} : Exec σ .nil .normal σ
  | seq {σ σ₁ σ₂ : Store V} {first rest : Stmt} {o : Ending V} :
      Exec σ first .normal σ₁ → Exec σ₁ rest o σ₂ → Exec σ (.seq first rest) o σ₂
  | stop {σ σ₁ : Store V} {first rest : Stmt} {o : Ending V} :
      Exec σ first o σ₁ → o ≠ .normal → Exec σ (.seq first rest) o σ₁
  | empty {σ : Store V} : Exec σ .empty .normal σ
  | decl {σ : Store V} {pos : Position} {constant : Bool} {x target : Ident} :
      Exec σ (.decl pos constant x target none) .normal (σ.declare x.name)
  | init {σ σ₁ σ₂ : Store V} {pos : Position} {constant : Bool} {x target : Ident} {e : Expr} {v : V} :
      Eval (σ.declare x.name) e (some v) σ₁ → σ₁.write? x.name v = some σ₂ →
        Exec σ (.decl pos constant x target (some e)) .normal σ₂
  | expr {σ σ₁ : Store V} {e : Expr} {r : Option V} : Eval σ e r σ₁ → Exec σ (.expr e) .normal σ₁
  | block {σ σ₁ : Store V} {body : Stmt} {o : Ending V} : Exec σ body o σ₁ → Exec σ (.block body) o (o.close σ σ₁)
  | ifTrue {σ σ₁ σ₂ : Store V} {pos : Position} {c : Expr} {body : Stmt} {v : V} {o : Ending V} :
      Eval σ c (some v) σ₁ → A.isZero v = false → Exec σ₁ body o σ₂ → Exec σ (.ifThen pos c body) o σ₂
  | ifFalse {σ σ₁ : Store V} {pos : Position} {c : Expr} {body : Stmt} {v : V} :
      Eval σ c (some v) σ₁ → A.isZero v = true → Exec σ (.ifThen pos c body) .normal σ₁
  | elseTrue {σ σ₁ σ₂ : Store V} {pos elsePos : Position} {c : Expr} {body other : Stmt} {v : V} {o : Ending V} :
      Eval σ c (some v) σ₁ → A.isZero v = false → Exec σ₁ body o σ₂ → Exec σ (.ifElse pos c body elsePos other) o σ₂
  | elseFalse {σ σ₁ σ₂ : Store V} {pos elsePos : Position} {c : Expr} {body other : Stmt} {v : V} {o : Ending V} :
      Eval σ c (some v) σ₁ → A.isZero v = true → Exec σ₁ other o σ₂ → Exec σ (.ifElse pos c body elsePos other) o σ₂
  | loopDone {σ σ₁ : Store V} {pos : Position} {c : Expr} {body : Stmt} {v : V} :
      Eval σ c (some v) σ₁ → A.isZero v = true → Exec σ (.loop pos c body) .normal σ₁
  | loopBreak {σ σ₁ σ₂ : Store V} {pos : Position} {c : Expr} {body : Stmt} {v : V} :
      Eval σ c (some v) σ₁ → A.isZero v = false → Exec σ₁ body .broke σ₂ → Exec σ (.loop pos c body) .normal σ₂
  | loopReturn {σ σ₁ σ₂ : Store V} {pos : Position} {c : Expr} {body : Stmt} {v : V} {r : Option V} :
      Eval σ c (some v) σ₁ → A.isZero v = false → Exec σ₁ body (.returned r) σ₂ → Exec σ (.loop pos c body) (.returned r) σ₂
  /-- The body ends, or jumps to the condition, and the loop goes on. -/
  | loopNext {σ σ₁ σ₂ σ₃ : Store V} {pos : Position} {c : Expr} {body : Stmt} {v : V} {o o' : Ending V} :
      Eval σ c (some v) σ₁ → A.isZero v = false → Exec σ₁ body o σ₂ → o = .normal ∨ o = .continued →
        Exec σ₂ (.loop pos c body) o' σ₃ → Exec σ (.loop pos c body) o' σ₃
  | leave {σ : Store V} {pos : Position} : Exec σ (.leave pos) .broke σ
  | again {σ : Store V} {pos : Position} : Exec σ (.again pos) .continued σ
  | ret {σ : Store V} {pos stop : Position} : Exec σ (.ret pos stop) (.returned none) σ
  | retValue {σ σ₁ : Store V} {pos : Position} {e : Expr} {r : Option V} :
      Eval σ e r σ₁ → Exec σ (.retValue pos e) (.returned r) σ₁

end

end

/-! ## Programs -/

/-- The name of the function, and the function as it is called. -/
def Function.procedure? : Function → Option (String × Procedure)
  | defn _ name params target body _ =>
    some (name.name, ⟨params.map fun p => p.name.name, decide (Ty.named? target.name = some .void), body⟩)
  | fault _ _ _ => none

/-- Of functions of one name the first is the one that is called. -/
theorem Function.lookup_procedure? (pos close : Position) (name target : Ident) (params : List Param) (body : Stmt)
    (fs : List Function) (x : String) :
    ((defn pos name params target body close :: fs).filterMap procedure?).lookup x =
      if x = name.name then
        some ⟨params.map fun p => p.name.name, decide (Ty.named? target.name = some .void), body⟩
      else (fs.filterMap procedure?).lookup x := by
  simp only [List.filterMap_cons, procedure?, List.lookup_cons]
  split <;> simp_all

/-- The function of that name. -/
def CompilationUnit.procedure? (u : CompilationUnit) (x : String) : Option Procedure :=
  (u.functions.filterMap Function.procedure?).lookup x

/-- The program ends with these values of the variables outside functions, and with this result of `main`. The variables get their
initial values in order; then `main` is called, if there is such a function. -/
inductive CompilationUnit.Runs (A : Arithmetic V) (u : CompilationUnit) : Env V → Option V → Prop
  | idle {σ : Store V} :
      Exec A u.procedure? .empty u.globals .normal σ → u.procedure? "main" = none → u.Runs A σ.global none
  | main {σ σ' : Store V} {d : Procedure} {o : Ending V} {r : Option V} :
      Exec A u.procedure? .empty u.globals .normal σ → u.procedure? "main" = some d →
        Exec A u.procedure? ⟨some [], σ.global⟩ d.body o σ' → d.Gives o r → u.Runs A σ'.global r

/-! ## What is in scope -/

@[simp] theorem Env.names_cons (x : String) (r : Option V) (env : Env V) : names ((x, r) :: env) = x :: names env := rfl

@[simp] theorem Env.length_names (env : Env V) : env.names.length = env.length := List.length_map ..

/-- A write changes no name. -/
theorem Env.names_write? {x : String} {v : V} {env env' : Env V} (h : write? x v env = some env') : env'.names = env.names := by
  induction env generalizing env' with
  | nil => cases h
  | cons p env ih =>
    obtain ⟨y, r⟩ := p
    rw [write?] at h
    split at h
    · cases h
      rfl
    · obtain ⟨env₁, h₁, rfl⟩ := Option.map_eq_some_iff.1 h
      rw [names_cons, names_cons, ih h₁]

namespace Store

/-- A write to the store changes no name. -/
theorem names_write? {σ σ' : Store V} {x : String} {v : V} (h : σ.write? x v = some σ') : σ'.names = σ.names := by
  unfold write? at h
  cases henv : σ.inner.bind (Env.write? x v) with
  | some env =>
    obtain ⟨inner, hinner, hwrite⟩ := Option.bind_eq_some_iff.1 henv
    rw [henv] at h
    cases h
    simp [Frames.map, hinner, Env.names_write? hwrite]
  | none =>
    rw [henv] at h
    obtain ⟨env, hwrite, rfl⟩ := Option.map_eq_some_iff.1 h
    simp [Frames.map, Env.names_write? hwrite]

@[simp] theorem names_declare (σ : Store V) (x : String) : (σ.declare x).names = σ.names.setTop (x :: σ.names.top) := by
  simp [declare]

end Store

/-- The second names are the first with more of them in the current frame. -/
def Frames.Extends (n n' : Frames (List String)) : Prop := ∃ new, n' = n.setTop (new ++ n.top)

namespace Frames.Extends

theorem refl (n : Frames (List String)) : n.Extends n := ⟨[], by simp⟩

theorem of_eq {n n' : Frames (List String)} (h : n' = n) : n.Extends n' := h ▸ refl n

/-- What is declared in two steps is declared. -/
theorem trans {n n' n'' : Frames (List String)} (h : n.Extends n') (h' : n'.Extends n'') : n.Extends n'' := by
  obtain ⟨new, rfl⟩ := h
  obtain ⟨new', rfl⟩ := h'
  exact ⟨new' ++ new, by simp⟩

theorem declare (n : Frames (List String)) (x : String) : n.Extends (n.setTop (x :: n.top)) := ⟨[x], rfl⟩

/-- Inside a function nothing is declared outside it. -/
theorem global_eq {n n' : Frames (List String)} (h : n.Extends n') (hinner : n.inner.isSome) : n'.global = n.global := by
  obtain ⟨new, rfl⟩ := h
  obtain ⟨_ | _, _⟩ := n
  · cases hinner
  · rfl

/-- Outside functions nothing is declared inside one. -/
theorem inner_eq_none {n n' : Frames (List String)} (h : n.Extends n') (hn : n.inner = none) :
    n'.inner = none := by
  obtain ⟨new, rfl⟩ := h
  obtain ⟨_ | _, _⟩ := n
  · rfl
  · cases hn

end Frames.Extends

/-- What a block declared is gone behind it. -/
theorem Store.names_keep {σ σ' : Store V} (h : σ.names.Extends σ'.names) : (σ'.keep σ.top.length).names = σ.names := by
  obtain ⟨new, hnew⟩ := h
  have htop : σ'.top.names = new ++ σ.top.names := by
    simpa using congrArg Frames.top hnew
  have hdrop : Env.names (σ'.top.drop (σ'.top.length - σ.top.length)) = σ.top.names := by
    have hlen : σ'.top.length - σ.top.length = new.length := by
      rw [← Env.length_names, ← Env.length_names, htop]
      simp
    rw [hlen, Env.names, List.map_drop]
    exact (congrArg _ htop).trans List.drop_left
  calc (σ'.keep σ.top.length).names
      = σ'.names.setTop σ.top.names := by rw [Store.names, keep, Frames.map_setTop, hdrop]
    _ = σ.names.setTop σ.names.top := by rw [hnew, Frames.setTop_setTop, Frames.top_map]
    _ = σ.names := Frames.setTop_top _

/-- What was in front of a block is in scope behind it. -/
theorem Ending.extends_close {σ σ' : Store V} (h : σ.names.Extends σ'.names) (o : Ending V) :
    σ.names.Extends (o.close σ σ').names := by
  cases o with
  | returned => exact h
  | _ => exact .of_eq (Store.names_keep h)

section

variable {A : Arithmetic V} {F : String → Option Procedure}

mutual

/-- An expression declares nothing. -/
theorem Eval.names_eq {σ σ' : Store V} {e : Expr} {r : Option V} : Eval A F σ e r σ' → σ'.names = σ.names
  | .int => rfl
  | .var _ => rfl
  | .call _ hargs _ hbody _ => by
    have hglobal := hbody.extends.global_eq rfl
    rw [← hargs.names_eq]
    simpa [Frames.map] using hglobal
  | .assign he hwrite => by rw [Store.names_write? hwrite, he.names_eq]
  | .paren he => he.names_eq
  | .neg he _ => he.names_eq
  | .cast he => he.names_eq
  | .binary hl hr _ => by rw [hr.names_eq, hl.names_eq]

theorem EvalAll.names_eq {σ σ' : Store V} {es : List Expr} {vs : List V} : EvalAll A F σ es vs σ' → σ'.names = σ.names
  | .nil => rfl
  | .cons he hes => by rw [hes.names_eq, he.names_eq]

/-- A statement declares in the current environment only, and what was in scope in front of it is so at its end. -/
theorem Exec.extends {σ σ' : Store V} {s : Stmt} {o : Ending V} : Exec A F σ s o σ' → σ.names.Extends σ'.names
  | .nil => .refl _
  | .empty => .refl _
  | .leave => .refl _
  | .again => .refl _
  | .ret => .refl _
  | .seq h₁ h₂ => h₁.extends.trans h₂.extends
  | .stop h _ => h.extends
  | .decl => Store.names_declare σ _ ▸ .declare _ _
  | .init he hwrite => by
    rw [Store.names_write? hwrite, he.names_eq, Store.names_declare]
    exact .declare _ _
  | .expr he => .of_eq he.names_eq
  | .block h => Ending.extends_close h.extends _
  | .ifTrue hc _ h => (Frames.Extends.of_eq hc.names_eq).trans h.extends
  | .ifFalse hc _ => .of_eq hc.names_eq
  | .elseTrue hc _ h => (Frames.Extends.of_eq hc.names_eq).trans h.extends
  | .elseFalse hc _ h => (Frames.Extends.of_eq hc.names_eq).trans h.extends
  | .loopDone hc _ => .of_eq hc.names_eq
  | .loopBreak hc _ h => (Frames.Extends.of_eq hc.names_eq).trans h.extends
  | .loopReturn hc _ h => (Frames.Extends.of_eq hc.names_eq).trans h.extends
  | .loopNext hc _ h _ hloop => ((Frames.Extends.of_eq hc.names_eq).trans h.extends).trans hloop.extends
  | .retValue he => .of_eq he.names_eq

end

end

end C0Stack
