import C0Stack.Proofs.Semantics

/-!
# An interpreter

The semantics as a function, which gives up after a number of nested steps. What it finds is what the semantics says
(`Exec.of_exec?`), and whatever the semantics says it finds with enough steps (`Exec.enough`). So a statement can end in one way
only (`Exec.unique`).
-/

namespace C0Stack

variable {V : Type}

/-- The result of a call whose body ends in this way. -/
def Procedure.result? (d : Procedure) : Ending V → Option (Option V)
  | .returned value => some value
  | .normal => if d.isVoid then some none else none
  | .broke | .continued => none

/-- The result is the one that the semantics gives. -/
theorem Procedure.result?_eq_some {d : Procedure} {o : Ending V} {r : Option V} : d.result? o = some r ↔ d.Gives o r := by
  constructor
  · intro h
    cases o with
    | normal =>
      simp only [result?, Option.ite_none_right_eq_some, Option.some.injEq] at h
      obtain ⟨hvoid, rfl⟩ := h
      exact .ended hvoid
    | returned value =>
      cases h
      exact .returned
    | broke | continued => cases h
  · intro h
    cases h with
    | returned => rfl
    | ended hvoid => simp [result?, hvoid]

section

variable (A : Arithmetic V) (F : String → Option Procedure)

mutual

/-- The value of the expression, if it has one, and the store behind it. -/
def eval? : Nat → Store V → Expr → Option (Option V × Store V)
  | 0, _, _ => none
  | _ + 1, σ, .int _ n => some (some (A.literal n.toNat), σ)
  | _ + 1, σ, .var x => (σ.read x.name).map fun v => (some v, σ)
  | fuel + 1, σ, .call f args =>
    (F f.name).bind fun d => (evalAll? fuel σ args).bind fun (vs, σ₁) =>
      if vs.length = d.params.length then
        (exec? fuel ⟨some (Env.ofParams d.params vs), σ₁.global⟩ d.body).bind fun (o, σ₂) =>
          (d.result? o).map fun r => (r, { σ₁ with global := σ₂.global })
      else none
  | fuel + 1, σ, .assign x e =>
    (eval? fuel σ e).bind fun (r, σ₁) => r.bind fun v => (σ₁.write? x.name v).map fun σ₂ => (none, σ₂)
  | fuel + 1, σ, .paren _ e => eval? fuel σ e
  | fuel + 1, σ, .neg _ e =>
    (eval? fuel σ e).bind fun (r, σ₁) => r.bind fun v => (A.apply .sub (A.literal 0) v).map fun w => (some w, σ₁)
  | fuel + 1, σ, .cast e _ _ => (eval? fuel σ e).bind fun (r, σ₁) => r.map fun v => (some v, σ₁)
  | fuel + 1, σ, .binary left op _ right =>
    (eval? fuel σ left).bind fun (r, σ₁) => r.bind fun v =>
      (eval? fuel σ₁ right).bind fun (r', σ₂) => r'.bind fun w => (A.apply op v w).map fun z => (some z, σ₂)
  | _ + 1, _, .literal _ _ | _ + 1, _, .fault _ | _ + 1, _, .cut _ _ => none

/-- The values of the expressions, one by one. -/
def evalAll? : Nat → Store V → List Expr → Option (List V × Store V)
  | 0, _, _ => none
  | _ + 1, σ, [] => some ([], σ)
  | fuel + 1, σ, e :: es =>
    (eval? fuel σ e).bind fun (r, σ₁) => r.bind fun v => (evalAll? fuel σ₁ es).map fun (vs, σ₂) => (v :: vs, σ₂)

/-- How the statement ends, and the store behind it. -/
def exec? : Nat → Store V → Stmt → Option (Ending V × Store V)
  | 0, _, _ => none
  | _ + 1, σ, .nil | _ + 1, σ, .empty => some (.normal, σ)
  | fuel + 1, σ, .seq first rest =>
    (exec? fuel σ first).bind fun
      | (.normal, σ₁) => exec? fuel σ₁ rest
      | (o, σ₁) => some (o, σ₁)
  | _ + 1, σ, .decl _ _ x _ none => some (.normal, σ.declare x.name)
  | fuel + 1, σ, .decl _ _ x _ (some e) =>
    (eval? fuel (σ.declare x.name) e).bind fun (r, σ₁) => r.bind fun v => (σ₁.write? x.name v).map fun σ₂ => (.normal, σ₂)
  | fuel + 1, σ, .expr e => (eval? fuel σ e).map fun (_, σ₁) => (.normal, σ₁)
  | fuel + 1, σ, .block body => (exec? fuel σ body).map fun (o, σ₁) => (o, o.close σ σ₁)
  | fuel + 1, σ, .ifThen _ c body =>
    (eval? fuel σ c).bind fun (r, σ₁) => r.bind fun v => if A.isZero v then some (.normal, σ₁) else exec? fuel σ₁ body
  | fuel + 1, σ, .ifElse _ c body _ other =>
    (eval? fuel σ c).bind fun (r, σ₁) => r.bind fun v => if A.isZero v then exec? fuel σ₁ other else exec? fuel σ₁ body
  | fuel + 1, σ, .loop pos c body =>
    (eval? fuel σ c).bind fun (r, σ₁) => r.bind fun v =>
      if A.isZero v then some (.normal, σ₁)
      else (exec? fuel σ₁ body).bind fun
        | (.broke, σ₂) => some (.normal, σ₂)
        | (.returned r, σ₂) => some (.returned r, σ₂)
        | (_, σ₂) => exec? fuel σ₂ (.loop pos c body)
  | _ + 1, σ, .leave _ => some (.broke, σ)
  | _ + 1, σ, .again _ => some (.continued, σ)
  | _ + 1, σ, .ret _ _ => some (.returned none, σ)
  | fuel + 1, σ, .retValue _ e => (eval? fuel σ e).map fun (r, σ₁) => (.returned r, σ₁)
  | _ + 1, _, .fault _ => none

end

/-- The values of the variables outside functions at the end of the program, and the result of `main`. -/
def CompilationUnit.run? (u : CompilationUnit) (fuel : Nat) : Option (Env V × Option V) :=
  (exec? A u.procedure? fuel .empty u.globals).bind fun
    | (.normal, σ) =>
      match u.procedure? "main" with
      | none => some (σ.global, none)
      | some d =>
        (exec? A u.procedure? fuel ⟨some [], σ.global⟩ d.body).bind fun (o, σ') =>
          (d.result? o).map fun r => (σ'.global, r)
    | _ => none

end

/-! ## What the interpreter finds -/

section

variable {A : Arithmetic V} {F : String → Option Procedure}

mutual

/-- What the interpreter finds of an expression is what the semantics says. -/
theorem Eval.of_eval? {fuel : Nat} {σ σ' : Store V} {e : Expr} {r : Option V} (h : eval? A F fuel σ e = some (r, σ')) :
    Eval A F σ e r σ' := by
  match fuel with
  | 0 => cases h
  | fuel + 1 =>
    cases e with
    | int pos n =>
      cases h
      exact .int
    | var x =>
      simp only [eval?, Option.map_eq_some_iff, Prod.mk.injEq] at h
      obtain ⟨v, hx, rfl, rfl⟩ := h
      exact .var hx
    | call f args =>
      simp only [eval?, Option.bind_eq_some_iff, Prod.exists, Option.ite_none_right_eq_some, Option.map_eq_some_iff,
        Prod.mk.injEq] at h
      obtain ⟨d, hd, vs, σ₁, hargs, hlen, o, σ₂, hbody, r, hresult, rfl, rfl⟩ := h
      exact .call hd (.of_evalAll? hargs) hlen (.of_exec? hbody) (Procedure.result?_eq_some.1 hresult)
    | assign x e =>
      simp only [eval?, Option.bind_eq_some_iff, Prod.exists, Option.map_eq_some_iff, Prod.mk.injEq] at h
      obtain ⟨_, σ₁, he, v, rfl, σ₂, hx, rfl, rfl⟩ := h
      exact .assign (.of_eval? he) hx
    | paren pos e =>
      rw [eval?] at h
      exact .paren (.of_eval? h)
    | neg pos e =>
      simp only [eval?, Option.bind_eq_some_iff, Prod.exists, Option.map_eq_some_iff, Prod.mk.injEq] at h
      obtain ⟨_, σ₁, he, v, rfl, w, hw, rfl, rfl⟩ := h
      exact .neg (.of_eval? he) hw
    | cast e pos target =>
      simp only [eval?, Option.bind_eq_some_iff, Prod.exists, Option.map_eq_some_iff, Prod.mk.injEq] at h
      obtain ⟨_, σ₁, he, v, rfl, rfl, rfl⟩ := h
      exact .cast (.of_eval? he)
    | binary left op pos right =>
      simp only [eval?, Option.bind_eq_some_iff, Prod.exists, Option.map_eq_some_iff, Prod.mk.injEq] at h
      obtain ⟨_, σ₁, hl, v, rfl, _, σ₂, hr, w, rfl, z, hz, rfl, rfl⟩ := h
      exact .binary (.of_eval? hl) (.of_eval? hr) hz
    | literal | fault | cut => cases h

/-- What it finds of arguments is what the semantics says. -/
theorem EvalAll.of_evalAll? {fuel : Nat} {σ σ' : Store V} {es : List Expr} {vs : List V}
    (h : evalAll? A F fuel σ es = some (vs, σ')) : EvalAll A F σ es vs σ' := by
  match fuel with
  | 0 => cases h
  | fuel + 1 =>
    cases es with
    | nil =>
      cases h
      exact .nil
    | cons e es =>
      simp only [evalAll?, Option.bind_eq_some_iff, Prod.exists, Option.map_eq_some_iff, Prod.mk.injEq] at h
      obtain ⟨_, σ₁, he, v, rfl, vs, σ₂, hes, rfl, rfl⟩ := h
      exact .cons (.of_eval? he) (.of_evalAll? hes)

/-- What the interpreter finds is what the semantics says. -/
theorem Exec.of_exec? {fuel : Nat} {σ σ' : Store V} {s : Stmt} {o : Ending V} (h : exec? A F fuel σ s = some (o, σ')) :
    Exec A F σ s o σ' := by
  match fuel with
  | 0 => cases h
  | fuel + 1 =>
    cases s with
    | nil =>
      cases h
      exact .nil
    | empty =>
      cases h
      exact .empty
    | seq first rest =>
      simp only [exec?, Option.bind_eq_some_iff, Prod.exists] at h
      obtain ⟨o₁, σ₁, hfirst, hrest⟩ := h
      cases o₁ with
      | normal => exact .seq (.of_exec? hfirst) (.of_exec? hrest)
      | broke | continued | returned =>
        cases hrest
        exact .stop (.of_exec? hfirst) nofun
    | decl pos constant x target init =>
      cases init with
      | none =>
        cases h
        exact .decl
      | some e =>
        simp only [exec?, Option.bind_eq_some_iff, Prod.exists, Option.map_eq_some_iff, Prod.mk.injEq] at h
        obtain ⟨_, σ₁, he, v, rfl, σ₂, hx, rfl, rfl⟩ := h
        exact .init (.of_eval? he) hx
    | expr e =>
      simp only [exec?, Option.map_eq_some_iff, Prod.exists, Prod.mk.injEq] at h
      obtain ⟨r, σ₁, he, rfl, rfl⟩ := h
      exact .expr (.of_eval? he)
    | block body =>
      simp only [exec?, Option.map_eq_some_iff, Prod.exists, Prod.mk.injEq] at h
      obtain ⟨o, σ₁, hbody, rfl, rfl⟩ := h
      exact .block (.of_exec? hbody)
    | ifThen pos c body =>
      simp only [exec?, Option.bind_eq_some_iff, Prod.exists] at h
      obtain ⟨_, σ₁, hc, v, rfl, h⟩ := h
      split at h
      · rename_i hv
        cases h
        exact .ifFalse (.of_eval? hc) hv
      · rename_i hv
        exact .ifTrue (.of_eval? hc) (Bool.not_eq_true _ ▸ hv) (.of_exec? h)
    | ifElse pos c body elsePos other =>
      simp only [exec?, Option.bind_eq_some_iff, Prod.exists] at h
      obtain ⟨_, σ₁, hc, v, rfl, h⟩ := h
      split at h
      · rename_i hv
        exact .elseFalse (.of_eval? hc) hv (.of_exec? h)
      · rename_i hv
        exact .elseTrue (.of_eval? hc) (Bool.not_eq_true _ ▸ hv) (.of_exec? h)
    | loop pos c body =>
      simp only [exec?, Option.bind_eq_some_iff, Prod.exists] at h
      obtain ⟨_, σ₁, hc, v, rfl, h⟩ := h
      split at h
      · rename_i hv
        cases h
        exact .loopDone (.of_eval? hc) hv
      · rename_i hv
        have hv : A.isZero v = false := Bool.not_eq_true _ ▸ hv
        simp only [Option.bind_eq_some_iff, Prod.exists] at h
        obtain ⟨o₁, σ₂, hbody, h⟩ := h
        cases o₁ with
        | broke =>
          cases h
          exact .loopBreak (.of_eval? hc) hv (.of_exec? hbody)
        | returned =>
          cases h
          exact .loopReturn (.of_eval? hc) hv (.of_exec? hbody)
        | normal => exact .loopNext (.of_eval? hc) hv (.of_exec? hbody) (.inl rfl) (.of_exec? h)
        | continued => exact .loopNext (.of_eval? hc) hv (.of_exec? hbody) (.inr rfl) (.of_exec? h)
    | leave pos =>
      cases h
      exact .leave
    | again pos =>
      cases h
      exact .again
    | ret pos stop =>
      cases h
      exact .ret
    | retValue pos e =>
      simp only [exec?, Option.map_eq_some_iff, Prod.exists, Prod.mk.injEq] at h
      obtain ⟨r, σ₁, he, rfl, rfl⟩ := h
      exact .retValue (.of_eval? he)
    | fault => cases h

end

/-- What the interpreter finds of a program is what the semantics says. -/
theorem CompilationUnit.Runs.of_run? {u : CompilationUnit} {fuel : Nat} {env : Env V} {r : Option V}
    (h : u.run? A fuel = some (env, r)) : u.Runs A env r := by
  simp only [run?, Option.bind_eq_some_iff, Prod.exists] at h
  obtain ⟨o, σ, hglobals, h⟩ := h
  cases o with
  | normal =>
    simp only at h
    split at h
    · rename_i hmain
      cases h
      exact .idle (.of_exec? hglobals) hmain
    · rename_i d hmain
      simp only [Option.bind_eq_some_iff, Prod.exists, Option.map_eq_some_iff, Prod.mk.injEq] at h
      obtain ⟨o, σ', hbody, r, hresult, rfl, rfl⟩ := h
      exact .main (.of_exec? hglobals) hmain (.of_exec? hbody) (Procedure.result?_eq_some.1 hresult)
  | broke | continued | returned => cases h

end

/-! ## What the interpreter can find -/

/-- This holds from some number of steps on. -/
def Enough (P : Nat → Prop) : Prop := ∃ n, ∀ fuel, n ≤ fuel → P fuel

namespace Enough

variable {P Q : Nat → Prop}

/-- What holds from one step on holds with enough steps. -/
theorem of_succ (h : ∀ fuel, P (fuel + 1)) : Enough P := by
  refine ⟨1, fun fuel hfuel => ?_⟩
  obtain ⟨n, rfl⟩ := Nat.exists_eq_add_of_le' hfuel
  exact h n

/-- One step more is enough for what follows in one step. -/
theorem succ (h : Enough P) (hstep : ∀ fuel, P fuel → Q (fuel + 1)) : Enough Q := by
  obtain ⟨n, hn⟩ := h
  refine ⟨n + 1, fun fuel hfuel => ?_⟩
  obtain ⟨m, rfl⟩ := Nat.exists_eq_add_of_le' hfuel
  exact hstep (m + n) (hn _ (Nat.le_add_left n m))

theorem and (hp : Enough P) (hq : Enough Q) : Enough fun fuel => P fuel ∧ Q fuel := by
  obtain ⟨n, hn⟩ := hp
  obtain ⟨m, hm⟩ := hq
  exact ⟨max n m, fun fuel hfuel => ⟨hn fuel (by omega), hm fuel (by omega)⟩⟩

end Enough

section

variable {A : Arithmetic V} {F : String → Option Procedure}

mutual

/-- The value of an expression is found with enough steps. -/
theorem Eval.enough {σ σ' : Store V} {e : Expr} {r : Option V} :
    Eval A F σ e r σ' → Enough fun fuel => eval? A F fuel σ e = some (r, σ')
  | .int => .of_succ fun _ => rfl
  | .var hx => .of_succ fun _ => by simp [eval?, hx]
  | .call hd hargs hlen hbody hgives => (hargs.enough.and hbody.enough).succ fun _ ⟨hargs, hbody⟩ => by
    simp [eval?, hd, hargs, hlen, hbody, Procedure.result?_eq_some.2 hgives]
  | .assign he hx => he.enough.succ fun _ he => by simp [eval?, he, hx]
  | .paren he => he.enough.succ fun _ he => by simp [eval?, he]
  | .neg he hw => he.enough.succ fun _ he => by simp [eval?, he, hw]
  | .cast he => he.enough.succ fun _ he => by simp [eval?, he]
  | .binary hl hr hz => (hl.enough.and hr.enough).succ fun _ ⟨hl, hr⟩ => by simp [eval?, hl, hr, hz]

/-- The values of arguments are found with enough steps. -/
theorem EvalAll.enough {σ σ' : Store V} {es : List Expr} {vs : List V} :
    EvalAll A F σ es vs σ' → Enough fun fuel => evalAll? A F fuel σ es = some (vs, σ')
  | .nil => .of_succ fun _ => rfl
  | .cons he hes => (he.enough.and hes.enough).succ fun _ ⟨he, hes⟩ => by simp [evalAll?, he, hes]

/-- Whatever the semantics says the interpreter finds with enough steps. -/
theorem Exec.enough {σ σ' : Store V} {s : Stmt} {o : Ending V} :
    Exec A F σ s o σ' → Enough fun fuel => exec? A F fuel σ s = some (o, σ')
  | .nil | .empty | .decl | .leave | .again | .ret => .of_succ fun _ => rfl
  | .seq h₁ h₂ => (h₁.enough.and h₂.enough).succ fun _ ⟨h₁, h₂⟩ => by simp [exec?, h₁, h₂]
  | .stop h ho => h.enough.succ fun _ h => by
    rw [exec?, h]
    cases o with
    | normal => exact absurd rfl ho
    | broke | continued | returned => rfl
  | .init he hx => he.enough.succ fun _ he => by simp [exec?, he, hx]
  | .expr he => he.enough.succ fun _ he => by simp [exec?, he]
  | .block h => h.enough.succ fun _ h => by simp [exec?, h]
  | .ifTrue hc hv h => (hc.enough.and h.enough).succ fun _ ⟨hc, h⟩ => by simp [exec?, hc, hv, h]
  | .ifFalse hc hv => hc.enough.succ fun _ hc => by simp [exec?, hc, hv]
  | .elseTrue hc hv h => (hc.enough.and h.enough).succ fun _ ⟨hc, h⟩ => by simp [exec?, hc, hv, h]
  | .elseFalse hc hv h => (hc.enough.and h.enough).succ fun _ ⟨hc, h⟩ => by simp [exec?, hc, hv, h]
  | .loopDone hc hv => hc.enough.succ fun _ hc => by simp [exec?, hc, hv]
  | .loopBreak hc hv h => (hc.enough.and h.enough).succ fun _ ⟨hc, h⟩ => by simp [exec?, hc, hv, h]
  | .loopReturn hc hv h => (hc.enough.and h.enough).succ fun _ ⟨hc, h⟩ => by simp [exec?, hc, hv, h]
  | .loopNext hc hv h ho hloop => (hc.enough.and (h.enough.and hloop.enough)).succ fun _ ⟨hc, h, hloop⟩ => by
    rcases ho with rfl | rfl <;> simp [exec?, hc, hv, h, hloop]
  | .retValue he => he.enough.succ fun _ he => by simp [exec?, he]

end

/-- A statement ends in one way only. -/
theorem Exec.unique {σ σ₁ σ₂ : Store V} {s : Stmt} {o₁ o₂ : Ending V} (h₁ : Exec A F σ s o₁ σ₁) (h₂ : Exec A F σ s o₂ σ₂) :
    o₁ = o₂ ∧ σ₁ = σ₂ := by
  obtain ⟨n, hn⟩ := h₁.enough.and h₂.enough
  obtain ⟨h₁, h₂⟩ := hn n (Nat.le_refl n)
  exact Prod.mk.inj (Option.some.inj (h₁.symm.trans h₂))

end

end C0Stack
