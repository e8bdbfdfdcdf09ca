import C0Stack.Compiler
import C0Stack.Proofs.Assembling
import C0Stack.Proofs.Relabeling.Basic

/-!
# The code of a relabeled tree

Where a tree is accepted, so is the relabeled one, and the code is the same but for the places; where it is refused, the relabeled one
is refused for the same cause in the relabeled place (`CompilationUnit.relabels_emit`). What an assembling step does is not read off a
name or a place: it asks only whether a name is declared, and puts places into what it emits.
-/

namespace C0Stack

variable {φ : Relabeling}

namespace Assembling

/-- What the step gives back, relabeled. -/
def relabelResult {α : Type} (φ : Relabeling) : Except Diagnostic (α × Assembly) → Except Diagnostic (α × Assembly)
  | .ok (x, a) => .ok (x, a.relabel φ)
  | .error d => .error (d.relabel φ)

/-- On a relabeled assembly, the second step does what the first one does on the assembly. -/
def Relabels {α : Type} (φ : Relabeling) (m m' : Assembling α) : Prop := ∀ a, m'.run (a.relabel φ) = relabelResult φ (m.run a)

section

variable {α β : Type} {m m' : Assembling α}

/-- Steps that do the same can be put in sequence. -/
theorem Relabels.bind {f f' : α → Assembling β} (hm : Relabels φ m m') (hf : ∀ x, Relabels φ (f x) (f' x)) :
    Relabels φ (m >>= f) (m' >>= f') := by
  intro a
  rw [StateT.run_bind, StateT.run_bind, hm a]
  cases m.run a with
  | error d => rfl
  | ok r => exact hf r.1 r.2

theorem relabels_pure (x : α) : Relabels φ (pure x) (pure x) := fun _ => rfl

theorem relabels_throw (d : Diagnostic) : Relabels φ (throw d : Assembling α) (throw (d.relabel φ)) := fun _ => rfl

/-- A cause in a place, and the renamed cause in the new place. -/
theorem relabels_fail (cause : Cause) (pos : Position) :
    Relabels φ (fail cause pos : Assembling α) (fail (cause.rename φ.name) (φ.pos pos)) := fun _ => rfl

/-- A change of the assembly that goes with the relabeling. -/
theorem relabels_modify {f : Assembly → Assembly} (hf : ∀ a, (f a).relabel φ = f (a.relabel φ)) :
    Relabels φ (modify f : Assembling Unit) (modify f) := fun a => congrArg (fun b => Except.ok ((), b)) (hf a).symm

/-- An instruction is emitted in the new place. -/
theorem relabels_emit (op : Operation) (operand : Option Nat) (pos : Position) :
    Relabels φ (emit op operand pos) (emit op operand (φ.pos pos)) :=
  fun a => congrArg (fun b => Except.ok ((), b)) (a.relabel_push op operand pos).symm

theorem relabels_nextAddress : Relabels φ nextAddress nextAddress :=
  fun a => congrArg (fun n => Except.ok (n, a.relabel φ)) a.nextAddress_relabel

/-- A jump is emitted in the new place, at the same address. -/
theorem relabels_emitJump (op : Operation) (pos : Position) : Relabels φ (emitJump op pos) (emitJump op (φ.pos pos)) :=
  .bind relabels_nextAddress fun _ => .bind (relabels_emit _ _ _) fun _ => relabels_pure _

theorem relabels_patch (address : Nat) : Relabels φ (patch address) (patch address) :=
  relabels_modify fun a => a.relabel_patch address

/-- A change of the names that goes with the relabeling. -/
theorem relabels_modifySymbols {f : SymbolTable → SymbolTable} (hf : ∀ t, (f t).relabel φ = f (t.relabel φ)) :
    Relabels φ (modifySymbols f) (modifySymbols f) :=
  relabels_modify fun a => congrArg (fun t => Assembly.mk t _ _) (hf a.symbols)

theorem relabels_swapBreaks (breaks : List Nat) : Relabels φ (swapBreaks breaks) (swapBreaks breaks) := fun _ => rfl

/-- One step for each element of a list. -/
theorem relabels_forM {ι : Type} (xs : List ι) {f f' : ι → Assembling Unit} (h : ∀ x, Relabels φ (f x) (f' x)) :
    Relabels φ (xs.forM f) (xs.forM f') := by
  induction xs with
  | nil => exact relabels_pure _
  | cons x xs ih => exact .bind (h x) fun _ => ih

end

/-! ## Names -/

section

variable (hφ : φ.Faithful)

include hφ

/-- The new name is looked up as the old one. -/
theorem relabels_lookup (x : Ident) : Relabels φ (lookup x) (lookup (x.relabel φ)) := by
  intro a
  have hfind : (a.relabel φ).symbols.find? (x.relabel φ).name = a.symbols.find? x.name := a.symbols.find?_relabel hφ.injective x.name
  rw [lookup, lookup, run_get_bind, run_get_bind, SymbolTable.lookup, SymbolTable.lookup, hfind]
  cases a.symbols.find? x.name <;> rfl

/-- The new name is declared as the old one. -/
theorem relabels_declare (x : Ident) (constant : Bool) (ty : Ty) :
    Relabels φ (declare x constant ty) (declare (x.relabel φ) constant ty) := by
  intro a
  have hdeclare : (a.relabel φ).symbols.declare (x.relabel φ).name constant ty (x.relabel φ).pos = _ :=
    a.symbols.declare_relabel hφ.injective x.name constant ty x.pos
  rw [declare, declare, run_get_bind, run_get_bind, hdeclare]
  cases a.symbols.declare x.name constant ty x.pos <;> rfl

/-- The new name of a function is declared as the old one. -/
theorem relabels_declareFunction (x : Ident) (f : Signature) :
    Relabels φ (declareFunction x f) (declareFunction (x.relabel φ) f) := by
  intro a
  have hdeclare : (a.relabel φ).symbols.declareFunction (x.relabel φ).name f (x.relabel φ).pos = _ :=
    a.symbols.declareFunction_relabel hφ.injective x.name f x.pos
  rw [declareFunction, declareFunction, run_get_bind, run_get_bind, hdeclare]
  cases a.symbols.declareFunction x.name f x.pos <;> rfl

/-- A write to the new name is noted as one to the old. -/
theorem relabels_markWritten (x : Ident) : Relabels φ (markWritten x) (markWritten (x.relabel φ)) := by
  intro a
  have hmark : (a.relabel φ).symbols.markWritten (x.relabel φ).name (x.relabel φ).pos = _ :=
    a.symbols.markWritten_relabel hφ.injective x.name x.pos
  rw [markWritten, markWritten, run_get_bind, run_get_bind, hmark]
  cases a.symbols.markWritten x.name x.pos <;> rfl

/-- A name is that of a type exactly if the new one is, and then it is that of the same type. -/
theorem named?_relabel (x : String) : Ty.named? (φ.name x) = Ty.named? x := by
  refine Option.ext fun ty => ?_
  rw [Ty.named?_eq_some_iff, Ty.named?_eq_some_iff]
  constructor
  · intro h
    exact hφ.injective (h.trans (hφ.name_ty ty).symm)
  · rintro rfl
    exact hφ.name_ty ty

/-- A type is resolved by the new name as by the old one, since the names of types stay. -/
theorem relabels_resolveType (allowVoid : Bool) (x : Ident) :
    Relabels φ (resolveType allowVoid x) (resolveType allowVoid (x.relabel φ)) := by
  have hname : Ty.named? (x.relabel φ).name = Ty.named? x.name := named?_relabel hφ x.name
  unfold resolveType
  rw [hname]
  cases Ty.named? x.name with
  | none => exact relabels_fail _ _
  | some ty =>
    cases ty with
    | void => cases allowVoid <;> first | exact relabels_fail _ _ | exact relabels_pure _
    | _ => exact relabels_pure _

end

/-- Types that do not agree are reported in the new place. -/
theorem relabels_requireType (expected found : Ty) (pos : Position) :
    Relabels φ (requireType expected found pos) (requireType expected found (φ.pos pos)) := by
  unfold requireType
  split
  · exact relabels_pure _
  · exact relabels_fail _ _

/-- A value that is missing is reported in the new place. -/
theorem relabels_requireValue (expected found : Ty) (pos : Position) :
    Relabels φ (requireValue expected found pos) (requireValue expected found (φ.pos pos)) := by
  unfold requireValue
  split
  · exact relabels_fail _ _
  · exact relabels_pure _

end Assembling

open Assembling

/-! ## Expressions -/

namespace Expr

section

variable (hφ : φ.Faithful)

include hφ

/-- The new name is read as the old one. -/
theorem relabels_emitLoad (ctx : Context) (x : Ident) : Relabels φ (emitLoad ctx x) (emitLoad ctx (x.relabel φ)) := by
  refine .bind (relabels_lookup hφ x) fun b => ?_
  cases b with
  | function f => exact relabels_fail _ _
  | storage v =>
    dsimp only
    split
    · exact .bind (Assembling.relabels_emit _ _ _) fun _ => relabels_pure _
    · exact relabels_fail _ _

/-- The new name is a target where the old one is. -/
theorem relabels_assignable (x : Ident) : Relabels φ (assignable x) (assignable (x.relabel φ)) := by
  refine .bind (relabels_lookup hφ x) fun b => ?_
  cases b with
  | function f => exact relabels_fail _ _
  | storage v =>
    dsimp only
    split
    · exact relabels_fail _ _
    · exact relabels_pure _

/-- The new name is called as the old one. -/
theorem relabels_callable (x : Ident) : Relabels φ (callable x) (callable (x.relabel φ)) := by
  refine .bind (relabels_lookup hφ x) fun b => ?_
  cases b with
  | function f => exact relabels_pure _
  | storage v => exact relabels_fail _ _

end

mutual

/-- The code of a relabeled expression. -/
theorem relabels_emit (hφ : φ.Faithful) (ctx : Context) : ∀ e : Expr, Relabels φ (e.emit ctx) ((e.relabel φ).emit ctx)
  | int pos value => by
    rw [relabel, emit, emit]
    exact .bind (Assembling.relabels_emit _ _ _) fun _ => relabels_pure _
  | literal pos kind => by
    rw [relabel, emit, emit]
    exact relabels_fail _ _
  | var x => by
    rw [relabel, emit, emit]
    exact relabels_emitLoad hφ ctx x
  | call f args => by
    rw [relabel, emit, emit]
    refine .bind (relabels_callable hφ f) fun s => .bind (relabels_emitArguments hφ ctx s.params args) fun _ => ?_
    rw [length_relabelAll]
    split
    · exact .bind (Assembling.relabels_emit _ _ _) fun _ => relabels_pure _
    · exact relabels_fail _ _
  | assign x e => by
    rw [relabel, emit, emit]
    refine .bind (relabels_assignable hφ x) fun v => .bind (relabels_emit hφ ctx e) fun ty => ?_
    rw [start_relabel]
    exact .bind (relabels_requireType _ _ _) fun _ => .bind (relabels_markWritten hφ x) fun _ =>
      .bind (Assembling.relabels_emit _ _ _) fun _ => relabels_pure _
  | paren pos e => by
    rw [relabel, emit, emit]
    exact relabels_emit hφ ctx e
  | neg pos e => by
    rw [relabel, emit, emit]
    refine .bind (Assembling.relabels_emit _ _ _) fun _ => .bind (relabels_emit hφ ctx e) fun ty => ?_
    rw [start_relabel]
    exact .bind (relabels_requireValue _ _ _) fun _ => .bind (Assembling.relabels_emit _ _ _) fun _ => relabels_pure _
  | cast e pos ty => by
    rw [relabel, emit, emit]
    exact .bind (relabels_emit hφ ctx e) fun source => .bind (relabels_resolveType hφ _ _) fun ty =>
      .bind (relabels_requireValue _ _ _) fun _ => relabels_pure _
  | binary left op pos right => by
    rw [relabel, emit, emit]
    exact .bind (relabels_emit hφ ctx left) fun leftTy => .bind (relabels_emit hφ ctx right) fun rightTy =>
      .bind (relabels_requireValue _ _ _) fun _ => .bind (relabels_requireType _ _ _) fun _ =>
      .bind (Assembling.relabels_emit _ _ _) fun _ => relabels_pure _
  | fault error => by
    rw [relabel, emit, emit]
    exact relabels_throw _
  | cut e error => by
    rw [relabel, emit, emit]
    exact .bind (relabels_emit hφ ctx e) fun _ => relabels_throw _

/-- The code of relabeled arguments. -/
theorem relabels_emitArguments (hφ : φ.Faithful) (ctx : Context) : ∀ (params : List Ty) (args : List Expr),
    Relabels φ (emitArguments ctx params args) (emitArguments ctx params (relabelAll φ args))
  | _, [] => by
    rw [relabelAll, emitArguments]
    exact relabels_pure _
  | [], arg :: args => by
    rw [relabelAll, emitArguments, emitArguments]
    exact .bind (relabels_emit hφ ctx arg) fun _ => relabels_emitArguments hφ ctx [] args
  | ty :: params, arg :: args => by
    rw [relabelAll, emitArguments, emitArguments]
    refine .bind (relabels_emit hφ ctx arg) fun found => ?_
    rw [start_relabel]
    exact .bind (relabels_requireType _ _ _) fun _ => relabels_emitArguments hφ ctx params args

end

end Expr

/-! ## Statements -/

namespace Stmt

/-- A return of another type is reported in the new place. -/
theorem relabels_checkReturn (ctx : Context) (found : Ty) (pos : Position) :
    Relabels φ (checkReturn ctx found pos) (checkReturn ctx found (φ.pos pos)) := by
  unfold checkReturn
  split
  · exact relabels_requireType _ _ _
  · exact relabels_pure _

/-- The loop around is the same. -/
theorem relabels_loopHead (ctx : Context) (keyword : Token.Kind) (pos : Position) :
    Relabels φ (loopHead ctx keyword pos) (loopHead ctx keyword (φ.pos pos)) := by
  unfold loopHead
  split
  · exact relabels_pure _
  · exact relabels_fail _ _

variable (hφ : φ.Faithful)

include hφ

/-- The code of a relabeled condition. -/
theorem relabels_emitCondition (ctx : Context) (condition : Expr) :
    Relabels φ (emitCondition ctx condition) (emitCondition ctx (condition.relabel φ)) := by
  refine .bind (Expr.relabels_emit hφ ctx condition) fun ty => ?_
  rw [Expr.start_relabel]
  exact relabels_requireValue _ _ _

/-- The code of a relabeled declaration. -/
theorem relabels_emitDecl (ctx : Context) (pos : Position) (constant : Bool) (x ty : Ident) (init : Option Expr) :
    Relabels φ (emitDecl ctx pos constant x ty init)
      (emitDecl ctx (φ.pos pos) constant (x.relabel φ) (ty.relabel φ) (init.map (Expr.relabel φ))) := by
  refine .bind (relabels_resolveType hφ _ _) fun found => .bind (relabels_declare hφ _ _ _) fun v => ?_
  cases init with
  | none => exact relabels_pure _
  | some e =>
    refine .bind (Expr.relabels_emit hφ ctx e) fun ty => ?_
    rw [Expr.start_relabel]
    exact .bind (relabels_requireType _ _ _) fun _ => .bind (Assembling.relabels_emit _ _ _) fun _ => relabels_markWritten hφ _

/-- The code of a relabeled statement. -/
theorem relabels_emit (ctx : Context) (s : Stmt) : Relabels φ (s.emit ctx) ((s.relabel φ).emit ctx) := by
  induction s generalizing ctx with
  | nil | empty =>
    rw [relabel, emit]
    exact relabels_pure _
  | seq first rest ih₁ ih₂ =>
    rw [relabel, emit, emit]
    exact .bind (ih₁ ctx) fun _ => ih₂ ctx
  | decl pos constant x ty init =>
    rw [relabel, emit, emit]
    exact relabels_emitDecl hφ ctx pos constant x ty init
  | expr e =>
    rw [relabel, emit, emit]
    refine .bind (Expr.relabels_emit hφ ctx e) fun ty => ?_
    rw [Expr.start_relabel]
    split
    · exact Assembling.relabels_emit _ _ _
    · exact relabels_pure _
  | block body ih =>
    rw [relabel, emit, emit]
    exact .bind (relabels_modifySymbols SymbolTable.relabel_enterBlock) fun _ => .bind (ih ctx) fun _ =>
      relabels_modifySymbols SymbolTable.relabel_leave
  | ifThen pos condition body ih =>
    rw [relabel, emit, emit]
    exact .bind (relabels_emitCondition hφ ctx condition) fun _ => .bind (relabels_emitJump _ _) fun _ =>
      .bind (ih ctx) fun _ => relabels_patch _
  | ifElse pos condition body elsePos other ih₁ ih₂ =>
    rw [relabel, emit, emit]
    exact .bind (relabels_emitCondition hφ ctx condition) fun _ => .bind (relabels_emitJump _ _) fun _ =>
      .bind (ih₁ ctx) fun _ => .bind (relabels_emitJump _ _) fun _ => .bind (relabels_patch _) fun _ =>
      .bind (ih₂ ctx) fun _ => relabels_patch _
  | loop pos condition body ih =>
    rw [relabel, emit, emit]
    exact .bind relabels_nextAddress fun head => .bind (relabels_emitCondition hφ ctx condition) fun _ =>
      .bind (relabels_emitJump _ _) fun _ => .bind (relabels_swapBreaks _) fun _ =>
      .bind (ih { ctx with loop := some head }) fun _ => .bind (relabels_swapBreaks _) fun breaks =>
      .bind (Assembling.relabels_emit _ _ _) fun _ => .bind (relabels_patch _) fun _ => relabels_forM breaks relabels_patch
  | leave pos =>
    rw [relabel, emit, emit]
    exact .bind (relabels_loopHead _ _ _) fun _ => .bind (relabels_emitJump _ _) fun _ => relabels_modify fun _ => rfl
  | again pos =>
    rw [relabel, emit, emit]
    exact .bind (relabels_loopHead _ _ _) fun _ => Assembling.relabels_emit _ _ _
  | ret pos stop =>
    rw [relabel, emit, emit]
    exact .bind (relabels_checkReturn _ _ _) fun _ => Assembling.relabels_emit _ _ _
  | retValue pos e =>
    rw [relabel, emit, emit]
    refine .bind (Expr.relabels_emit hφ ctx e) fun found => ?_
    rw [Expr.start_relabel]
    exact .bind (relabels_checkReturn _ _ _) fun _ => Assembling.relabels_emit _ _ _
  | fault error =>
    rw [relabel, emit, emit]
    exact relabels_throw _

end Stmt

/-! ## Functions and compilation units -/

namespace Function

variable (hφ : φ.Faithful)

include hφ

/-- The types of relabeled parameters are the types of the parameters. -/
theorem relabels_paramTypes (params : List Param) :
    Relabels φ (paramTypes params) (paramTypes (params.map (Param.relabel φ))) := by
  induction params with
  | nil => exact relabels_pure _
  | cons p params ih => exact .bind (relabels_resolveType hφ _ _) fun _ => .bind ih fun _ => relabels_pure _

/-- Relabeled parameters are declared as the parameters are. -/
theorem relabels_declareParams (params : List Param) (types : List Ty) :
    Relabels φ (declareParams (params.zip types)) (declareParams ((params.map (Param.relabel φ)).zip types)) := by
  induction params generalizing types with
  | nil => exact relabels_pure _
  | cons p params ih =>
    cases types with
    | nil => exact relabels_pure _
    | cons ty types =>
      exact .bind (relabels_declare hφ _ _ _) fun _ => .bind (relabels_markWritten hφ _) fun _ => ih types

/-- The code of a relabeled function. -/
theorem relabels_emit (f : Function) : Relabels φ f.emit (f.relabel φ).emit := by
  cases f with
  | defn pos name params returns body close =>
    exact .bind (relabels_paramTypes hφ params) fun types => .bind (relabels_resolveType hφ _ _) fun ty =>
      .bind relabels_nextAddress fun _ => .bind (relabels_declareFunction hφ _ _) fun _ =>
      .bind (relabels_modifySymbols SymbolTable.relabel_enterFunction) fun _ =>
        .bind (relabels_declareParams hφ params types) fun _ =>
      .bind (Stmt.relabels_emit hφ _ body) fun _ => .bind (Assembling.relabels_emit _ _ _) fun _ =>
      relabels_modifySymbols SymbolTable.relabel_leave
  | fault pos params error => exact .bind (relabels_paramTypes hφ params) fun _ => relabels_throw _

end Function

namespace CompilationUnit

variable (hφ : φ.Faithful)

include hφ

/-- The code of relabeled functions in a row. -/
theorem relabels_emitAll (fs : List Function) :
    Relabels φ (fs.forM Function.emit : Assembling Unit) ((fs.map (Function.relabel φ)).forM Function.emit) := by
  induction fs with
  | nil => exact relabels_pure _
  | cons f fs ih => exact .bind (Function.relabels_emit hφ f) fun _ => ih

/-- The code of the relabeled functions of a program, with the jump over them. -/
theorem relabels_emitFunctions (fs : List Function) :
    Relabels φ (emitFunctions fs) (emitFunctions (fs.map (Function.relabel φ))) := by
  cases fs with
  | nil => exact relabels_pure _
  | cons f fs =>
    rw [List.map_cons, emitFunctions, emitFunctions, Function.pos_relabel]
    exact .bind (relabels_emitJump _ _) fun _ => .bind (relabels_emitAll hφ (f :: fs)) fun _ => relabels_patch _

/-- `main` keeps its name, so it is called where it was. -/
theorem relabels_emitMainCall (pos : Position) : Relabels φ (emitMainCall pos) (emitMainCall (φ.pos pos)) := by
  intro a
  have hfind : (a.relabel φ).symbols.find? "main" = a.symbols.find? "main" := by
    have hmain := a.symbols.find?_relabel hφ.injective "main"
    rwa [hφ.name_main] at hmain
  rw [emitMainCall, emitMainCall, run_get_bind, run_get_bind, hfind]
  split
  · rename_i f _
    split
    · exact Assembling.relabels_emit _ _ _ a
    · have hfail : Relabels φ (fail _ pos : Assembling Unit) _ := relabels_fail (.argumentCount "main" f.params.length 0) pos
      rw [Cause.rename, hφ.name_main] at hfail
      exact hfail a
  · rfl

/-- The code of a relabeled unit. -/
theorem relabels_emit (u : CompilationUnit) : Relabels φ u.emit (u.relabel φ).emit := by
  obtain ⟨globals, functions, ending⟩ := u
  refine .bind (Stmt.relabels_emit hφ _ globals) fun _ => .bind (relabels_emitFunctions hφ functions) fun _ => ?_
  cases ending with
  | ok pos => exact .bind (relabels_emitMainCall hφ pos) fun _ => Assembling.relabels_emit _ _ _
  | error error => exact relabels_throw _

end CompilationUnit

end C0Stack
