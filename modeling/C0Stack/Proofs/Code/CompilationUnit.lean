import C0Stack.CompilationUnit.Code
import C0Stack.Proofs.Code.Stmt
import Mathlib.Data.List.Forall2

/-!
# The code of functions and compilation units

What each part of a unit emits, and the code of a function (`Function.Compiled`): the function is declared with the next address as
its entry, and the names outside it keep their slots.
-/

namespace C0Stack

open Assembling

/-! ## What each part emits -/

section

variable {a a' : Assembly} {u : Unit}

/-- The parameter has a type, which has values. -/
def Param.HasType (p : Param) (ty : Ty) : Prop := Ty.named? p.ty.name = some ty ∧ ty ≠ .void

/-- The parameters, with their types, are declared one by one, and each is noted as written. -/
inductive SymbolTable.DeclaresParams : SymbolTable → List (Param × Ty) → SymbolTable → Prop
  | nil {t : SymbolTable} : DeclaresParams t [] t
  | cons {t t₁ t₂ t₃ : SymbolTable} {p : Param} {ty : Ty} {v : Variable} {ps : List (Param × Ty)} :
      t.declare p.name.name p.constant ty p.name.pos = .ok (v, t₁) → t₁.markWritten p.name.name p.name.pos = .ok t₂ →
        DeclaresParams t₂ ps t₃ → DeclaresParams t ((p, ty) :: ps) t₃

namespace Function

/-- The types of parameters have values, and resolving them changes nothing. -/
theorem run_paramTypes {params : List Param} {types : List Ty} :
    (paramTypes params).run a = .ok (types, a') ↔ List.Forall₂ Param.HasType params types ∧ a' = a := by
  induction params generalizing a a' types with
  | nil =>
    rw [paramTypes, run_pure_eq_ok, List.forall₂_nil_left_iff]
  | cons p params ih =>
    rw [paramTypes]
    simp only [run_bind_eq_ok, run_resolveType_eq_ok, ih, run_pure_eq_ok, List.forall₂_cons_left_iff]
    constructor
    · rintro ⟨ty, _, ⟨hname, hty, rfl⟩, types, _, ⟨htypes, rfl⟩, rfl, rfl⟩
      exact ⟨⟨ty, types, ⟨hname, hty trivial⟩, htypes, rfl⟩, rfl⟩
    · rintro ⟨⟨ty, types, ⟨hname, hty⟩, htypes, rfl⟩, rfl⟩
      exact ⟨ty, a', ⟨hname, fun _ => hty, rfl⟩, types, a', ⟨htypes, rfl⟩, rfl, rfl⟩

/-- Parameters are declared in order. -/
theorem run_declareParams {params : List (Param × Ty)} :
    (declareParams params).run a = .ok (u, a') ↔
      ∃ t, a.symbols.DeclaresParams params t ∧ a' = { a with symbols := t } := by
  induction params generalizing a with
  | nil =>
    rw [declareParams, run_pure_eq_ok]
    constructor
    · rintro ⟨-, rfl⟩
      exact ⟨_, .nil, rfl⟩
    · rintro ⟨t, h, rfl⟩
      cases h
      exact ⟨rfl, rfl⟩
  | cons p params ih =>
    obtain ⟨p, ty⟩ := p
    rw [declareParams]
    simp only [run_bind_eq_ok, run_declare_eq_ok, run_markWritten_eq_ok, ih]
    constructor
    · rintro ⟨v, _, ⟨t₁, h₁, rfl⟩, _, _, ⟨t₂, h₂, rfl⟩, t₃, h₃, rfl⟩
      exact ⟨t₃, .cons h₁ h₂ h₃, rfl⟩
    · rintro ⟨t₃, h, rfl⟩
      cases h with
      | cons h₁ h₂ h₃ => exact ⟨_, _, ⟨_, h₁, rfl⟩, (), _, ⟨_, h₂, rfl⟩, t₃, h₃, rfl⟩

/-- A function emits its body and a `RET` in a scope of its own, behind its declaration. -/
theorem run_emit_defn {pos close : Position} {name target : Ident} {params : List Param} {body : Stmt} :
    (defn pos name params target body close).emit.run a = .ok (u, a') ↔
      ∃ types ty t₁ t₂ a₁, List.Forall₂ Param.HasType params types ∧ Ty.named? target.name = some ty ∧
        a.symbols.declareFunction name.name ⟨ty, a.nextAddress, types⟩ name.pos = .ok t₁ ∧
        t₁.enterFunction.DeclaresParams (params.zip types) t₂ ∧
        (body.emit ⟨some ty, none⟩).run { a with symbols := t₂ } = .ok ((), a₁) ∧
        a' = { a₁.push .ret none close with symbols := a₁.symbols.leave } := by
  rw [emit]
  simp only [run_bind_eq_ok, run_paramTypes, run_resolveType_eq_ok, run_nextAddress_eq_ok, run_declareFunction_eq_ok,
    run_modifySymbols_eq_ok, run_declareParams, run_emit_eq_ok]
  constructor
  · rintro ⟨types, _, ⟨htypes, rfl⟩, ty, _, ⟨hty, -, rfl⟩, _, _, ⟨rfl, rfl⟩, _, _, ⟨t₁, h₁, rfl⟩, _, _, rfl, _, _, ⟨t₂, h₂, rfl⟩, _,
      a₁, hbody, _, _, rfl, rfl⟩
    exact ⟨types, ty, t₁, t₂, a₁, htypes, hty, h₁, h₂, hbody, rfl⟩
  · rintro ⟨types, ty, t₁, t₂, a₁, htypes, hty, h₁, h₂, hbody, rfl⟩
    exact ⟨types, a, ⟨htypes, rfl⟩, ty, a, ⟨hty, by simp, rfl⟩, _, a, ⟨rfl, rfl⟩, (), _, ⟨t₁, h₁, rfl⟩, (), _, rfl, (), _,
      ⟨t₂, h₂, rfl⟩, (), a₁, hbody, (), _, rfl, rfl⟩

/-- A function that could not be read emits nothing. -/
theorem run_emit_fault {pos : Position} {params : List Param} {error : Diagnostic} :
    (fault pos params error).emit.run a = .ok (u, a') ↔ False := by
  rw [emit]
  simp only [run_bind_eq_ok, run_throw_eq_ok, and_false, exists_false]

/-- Functions are emitted one after the other. -/
theorem run_forM_emit_cons {f : Function} {fs : List Function} :
    ((f :: fs).forM emit : Assembling Unit).run a = .ok (u, a') ↔
      ∃ a₁, f.emit.run a = .ok ((), a₁) ∧ (fs.forM emit : Assembling Unit).run a₁ = .ok ((), a') := by
  change (f.emit >>= fun _ => fs.forM emit).run a = _ ↔ _
  rw [run_bind_eq_ok]
  exact ⟨fun ⟨_, a₁, h₁, h₂⟩ => ⟨a₁, h₁, h₂⟩, fun ⟨a₁, h₁, h₂⟩ => ⟨(), a₁, h₁, h₂⟩⟩

end Function

namespace CompilationUnit

/-- The functions of a unit are emitted behind a jump, which is then sent past them. -/
theorem run_emitFunctions_cons {f : Function} {fs : List Function} :
    (emitFunctions (f :: fs)).run a = .ok (u, a') ↔
      ∃ a₁, ((f :: fs).forM Function.emit : Assembling Unit).run (a.push .jmp (some 0) f.pos) = .ok ((), a₁) ∧
        a' = a₁.patch a.nextAddress := by
  rw [emitFunctions]
  simp only [run_bind_eq_ok, run_emitJump_eq_ok, run_patch_eq_ok]
  constructor
  · rintro ⟨_, _, ⟨rfl, rfl⟩, _, a₁, h₁, rfl⟩
    exact ⟨a₁, h₁, rfl⟩
  · rintro ⟨a₁, h₁, rfl⟩
    exact ⟨_, _, ⟨rfl, rfl⟩, (), a₁, h₁, rfl⟩

/-- The assembly with the call of the function `main`, if the table holds one. -/
def callMain (pos : Position) (a : Assembly) : Assembly :=
  match a.symbols.find? "main" with
  | some (.function f) => a.push .call (some f.entry) pos
  | _ => a

/-- The call of `main` is emitted if there is such a function, which must take no arguments. -/
theorem run_emitMainCall {pos : Position} :
    (emitMainCall pos).run a = .ok (u, a') ↔
      (∀ f, a.symbols.find? "main" = some (.function f) → f.params = []) ∧ a' = callMain pos a := by
  change StateT.run (match a.symbols.find? "main" with
    | some (.function f) =>
      if f.params.isEmpty then Assembling.emit .call (some f.entry) pos else fail (.argumentCount "main" f.params.length 0) pos
    | _ => pure ()) a = _ ↔ _
  unfold callMain
  cases a.symbols.find? "main" with
  | none => simp only [run_pure_eq_ok, reduceCtorEq, false_implies, implies_true, true_and]
  | some b =>
    cases b with
    | storage v =>
      simp only [run_pure_eq_ok, Option.some.injEq, reduceCtorEq, false_implies, implies_true, true_and]
    | function f =>
      by_cases hf : f.params = []
      · simp [hf, run_emit_eq_ok]
      · simp [hf, run_fail_eq_ok]

/-- A unit emits its declarations, its functions and the call of `main`. -/
theorem run_emit {unit : CompilationUnit} :
    unit.emit.run a = .ok (u, a') ↔
      ∃ a₁ a₂ pos, (unit.globals.emit .outermost).run a = .ok ((), a₁) ∧
        (emitFunctions unit.functions).run a₁ = .ok ((), a₂) ∧ unit.ending = .ok pos ∧
        (∀ f, a₂.symbols.find? "main" = some (.function f) → f.params = []) ∧
        a' = (callMain pos a₂).push .ret none pos := by
  rw [emit]
  simp only [run_bind_eq_ok]
  cases unit.ending with
  | error error => simp only [run_throw_eq_ok, reduceCtorEq, and_false, false_and, exists_false]
  | ok pos =>
    simp only [run_bind_eq_ok, run_emitMainCall, run_emit_eq_ok]
    constructor
    · rintro ⟨_, a₁, h₁, _, a₂, h₂, _, _, ⟨hmain, rfl⟩, rfl⟩
      exact ⟨a₁, a₂, pos, h₁, h₂, rfl, hmain, rfl⟩
    · rintro ⟨a₁, a₂, _, h₁, h₂, ⟨⟩, hmain, rfl⟩
      exact ⟨(), a₁, h₁, (), a₂, h₂, (), _, ⟨hmain, rfl⟩, rfl⟩

end CompilationUnit

/-! ## The code that is emitted -/

/-- The function that the name stands for. -/
def SymbolTable.signature? (t : SymbolTable) (x : String) : Option Signature :=
  match t.find? x with
  | some (.function f) => some f
  | _ => none

/-- The signature of a name is that of the function that it stands for. -/
theorem SymbolTable.signature?_eq_some {t : SymbolTable} {x : String} {f : Signature} :
    t.signature? x = some f ↔ t.find? x = some (.function f) := by
  unfold signature?
  split
  · rename_i hx
    simp [hx]
  · rename_i hne
    simp only [reduceCtorEq, false_iff]
    exact hne f

/-- Parameters are declared in the innermost scope. -/
theorem SymbolTable.DeclaresParams.tail_frames {t t' : SymbolTable} {params : List (Param × Ty)}
    (h : t.DeclaresParams params t') : t'.written.frames.tail = t.written.frames.tail := by
  induction h with
  | nil => rfl
  | cons hd hm _ ih => rw [ih, written_markWritten hm, tail_frames_declare hd]

/-- Whether slots have been written does not matter to the scopes that are open. -/
theorem SymbolTable.nested_eq_nil_of_written {t t' : SymbolTable} (h : t'.written = t.written) (ht : t.nested = []) :
    t'.nested = [] := by
  have hlen := congrArg (fun t => t.nested.length) h
  simp only [written, List.length_map, ht, List.length_nil] at hlen
  exact List.eq_nil_of_length_eq_zero hlen

/-- The code of a function from the address `base` on, and the table behind it, where `t` is the one in front of it. The function is
declared with `base` as its entry, and its code ends in `RET`, at the closing brace. -/
structure Function.Compiled (name : Ident) (params : List Param) (target : Ident) (body : Stmt) (close : Position)
    (t : SymbolTable) (base : Nat) (f : Signature) (code : List CodeLine) (t' : SymbolTable) : Prop where
  types : List.Forall₂ Param.HasType params f.params
  returns : Ty.named? target.name = some f.returns
  entry_eq : f.entry = base
  fresh : t.outermost.find? name.name = none
  body : ∃ t₁ t₂ lines, (t.withFunction name.name f).enterFunction.DeclaresParams (params.zip f.params) t₁ ∧
    Stmt.Compiled ⟨some f.returns, none⟩ 0 t₁ base body lines t₂ ∧ code = lines ++ [⟨⟨.ret, none⟩, close⟩]
  written : t'.written = (t.withFunction name.name f).written

/-- The code of a function is that of its body and a `RET`. -/
theorem Function.Compiled.of_assembled {close : Position} {name target : Ident} {params : List Param} {body : Stmt}
    {types : List Ty} {ty : Ty} {t₁ t₂ : SymbolTable} {a₁ : Assembly} {code : Nat → List CodeLine} {waiting : List Nat}
    (htypes : List.Forall₂ Param.HasType params types) (hty : Ty.named? target.name = some ty)
    (h₁ : a.symbols.declareFunction name.name ⟨ty, a.nextAddress, types⟩ name.pos = .ok t₁)
    (h₂ : t₁.enterFunction.DeclaresParams (params.zip types) t₂)
    (hasm : Stmt.Assembled ⟨some ty, none⟩ body { a with symbols := t₂ } a₁ code waiting) :
    Compiled name params target body close a.symbols a.code.length ⟨ty, a.nextAddress, types⟩ (code 0 ++ [⟨⟨.ret, none⟩, close⟩])
      a₁.symbols.leave := by
  obtain ⟨hfresh, rfl⟩ := SymbolTable.declareFunction_eq_ok.1 h₁
  refine ⟨htypes, hty, rfl, hfresh, ⟨t₂, _, code 0, h₂, hasm.compiled 0, rfl⟩, Stmt.written_leave ?_⟩
  rw [(hasm.compiled 0).tail_frames]
  exact h₂.tail_frames

/-- A function that is emitted appends its code. -/
theorem Function.emitted {pos close : Position} {name target : Ident} {params : List Param} {body : Stmt}
    (hs : body.Structured) (h : (defn pos name params target body close).emit.run a = .ok (u, a')) :
    ∃ f code, Compiled name params target body close a.symbols a.code.length f code a'.symbols ∧ a'.code = a.code ++ code := by
  obtain ⟨types, ty, t₁, t₂, a₁, htypes, hty, h₁, h₂, hbody, rfl⟩ := run_emit_defn.1 h
  obtain ⟨code, waiting, hasm⟩ := Stmt.emitted hs hbody
  refine ⟨_, _, .of_assembled htypes hty h₁ h₂ hasm, ?_⟩
  change (a₁.push .ret none close).code = _
  rw [Assembly.code_push, hasm.code_eq, List.append_assoc]
  rfl

/-- The code of functions in sequence. -/
inductive Function.CompiledAll : SymbolTable → Nat → List Function → List CodeLine → SymbolTable → Prop
  | nil {t : SymbolTable} {base : Nat} : CompiledAll t base [] [] t
  | cons {t t₁ t₂ : SymbolTable} {base : Nat} {pos close : Position} {name target : Ident} {params : List Param} {body : Stmt}
      {f : Signature} {fs : List Function} {code rest : List CodeLine} :
      Compiled name params target body close t base f code t₁ → CompiledAll t₁ (base + code.length) fs rest t₂ →
        CompiledAll t base (defn pos name params target body close :: fs) (code ++ rest) t₂

/-- The bodies of these functions are such that code can be emitted for them. -/
def Function.AllStructured (fs : List Function) : Prop :=
  ∀ pos name params target body close, defn pos name params target body close ∈ fs → body.Structured

/-- So are those of some of them. -/
theorem Function.AllStructured.mono {fs gs : List Function} (h : AllStructured gs) (hsub : fs ⊆ gs) : AllStructured fs :=
  fun _ _ _ _ _ _ hf => h _ _ _ _ _ _ (hsub hf)

/-- So is that of the first one. -/
theorem Function.AllStructured.head {pos close : Position} {name target : Ident} {params : List Param} {body : Stmt}
    {fs : List Function} (h : AllStructured (defn pos name params target body close :: fs)) : body.Structured :=
  h _ _ _ _ _ _ List.mem_cons_self

/-- Functions that are emitted append their code in sequence. -/
theorem Function.emittedAll {fs : List Function} (hs : AllStructured fs) (h : (fs.forM emit : Assembling Unit).run a = .ok (u, a')) :
    ∃ code, CompiledAll a.symbols a.code.length fs code a'.symbols ∧ a'.code = a.code ++ code := by
  induction fs generalizing a with
  | nil =>
    obtain ⟨-, rfl⟩ := run_pure_eq_ok.1 h
    exact ⟨_, .nil, (List.append_nil _).symm⟩
  | cons f fs ih =>
    obtain ⟨a₁, h₁, h₂⟩ := run_forM_emit_cons.1 h
    cases f with
    | fault => exact (run_emit_fault.1 h₁).elim
    | defn pos name params target body close =>
      obtain ⟨f, code, hcompiled, hcode⟩ := emitted hs.head h₁
      obtain ⟨rest, hrest, hcode'⟩ := ih (hs.mono (List.subset_cons_self _ _)) h₂
      rw [hcode, List.length_append] at hrest
      exact ⟨_, .cons hcompiled hrest, by rw [hcode', hcode, List.append_assoc]⟩

/-- The functions of a unit come behind a jump past them, if there are any. -/
theorem CompilationUnit.emittedFunctions {fs : List Function} (hs : Function.AllStructured fs)
    (h : (emitFunctions fs).run a = .ok (u, a')) :
    ∃ jump code, Function.CompiledAll a.symbols (a.code.length + jump.length) fs code a'.symbols ∧
      a'.code = a.code ++ (jump ++ code) ∧
      (fs = [] ∧ jump = [] ∧ code = [] ∨ fs ≠ [] ∧ ∃ pos, jump = [⟨⟨.jmp, some a'.code.length⟩, pos⟩]) := by
  cases fs with
  | nil =>
    obtain ⟨-, rfl⟩ := run_pure_eq_ok.1 h
    exact ⟨[], [], .nil, (List.append_nil _).symm, .inl ⟨rfl, rfl, rfl⟩⟩
  | cons f fs =>
    obtain ⟨a₁, h₁, rfl⟩ := run_emitFunctions_cons.1 h
    obtain ⟨code, hcompiled, hcode⟩ := Function.emittedAll hs h₁
    refine ⟨[⟨⟨.jmp, some (a₁.patch a.nextAddress).code.length⟩, f.pos⟩], code, ?_, ?_,
      .inr ⟨List.cons_ne_nil _ _, f.pos, rfl⟩⟩
    · rw [Assembly.code_push, List.length_append] at hcompiled
      exact hcompiled
    · rw [Assembly.code_push, List.append_assoc] at hcode
      rw [Assembly.length_code_patch]
      exact Assembly.code_patch_of_eq hcode a.nextAddress_eq

/-- The call of `main` goes to its entry. -/
theorem CompilationUnit.code_callMain (pos : Position) (a : Assembly) :
    (callMain pos a).code = a.code ++ (a.symbols.signature? "main").toList.map fun f => ⟨⟨.call, some f.entry⟩, pos⟩ := by
  unfold callMain SymbolTable.signature?
  split
  · exact Assembly.code_push ..
  · exact (List.append_nil _).symm

/-- The call of `main` leaves the names in scope. -/
theorem CompilationUnit.symbols_callMain (pos : Position) (a : Assembly) : (callMain pos a).symbols = a.symbols := by
  unfold callMain
  split <;> rfl

/-- The code of a unit: that of the declarations, the jump past the functions, the functions, and the call of `main`. The table is
`t` between the declarations and the functions, and `t'` behind the functions. -/
structure CompilationUnit.Compiled (unit : CompilationUnit) (globals jump functions call : List CodeLine) (pos : Position)
    (t t' : SymbolTable) : Prop where
  globals_compiled : Stmt.Compiled .outermost 0 .empty 0 unit.globals globals t
  functions_compiled : Function.CompiledAll t (globals ++ jump).length unit.functions functions t'
  jump_eq : unit.functions = [] ∧ jump = [] ∧ functions = [] ∨
    unit.functions ≠ [] ∧ ∃ pos, jump = [⟨⟨.jmp, some (globals ++ (jump ++ functions)).length⟩, pos⟩]
  call_eq : call = (t'.signature? "main").toList.map fun f => ⟨⟨.call, some f.entry⟩, pos⟩
  main_params : ∀ f, t'.signature? "main" = some f → f.params = []

/-- The declarations are emitted first, and the functions behind them. -/
theorem CompilationUnit.Compiled.of_runs {unit : CompilationUnit} {a₁ a₂ : Assembly} (hg : unit.globals.Structured)
    (hf : Function.AllStructured unit.functions) (h₁ : (unit.globals.emit .outermost).run .empty = .ok ((), a₁))
    (h₂ : (emitFunctions unit.functions).run a₁ = .ok ((), a₂))
    (hmain : ∀ f, a₂.symbols.find? "main" = some (.function f) → f.params = []) (pos : Position) :
    ∃ jump functions, a₂.code = a₁.code ++ (jump ++ functions) ∧
      unit.Compiled a₁.code jump functions ((a₂.symbols.signature? "main").toList.map fun f => ⟨⟨.call, some f.entry⟩, pos⟩) pos
        a₁.symbols a₂.symbols := by
  obtain ⟨globals, waiting, hasm⟩ := Stmt.emitted hg h₁
  obtain ⟨jump, functions, hfunctions, hcode, hjump⟩ := emittedFunctions hf h₂
  have hcode₁ : a₁.code = globals 0 := hasm.code_eq
  rw [hcode] at hjump
  refine ⟨jump, functions, hcode, hcode₁ ▸ hasm.compiled 0, ?_, hjump, rfl, fun f hf => ?_⟩
  · rw [List.length_append]
    exact hfunctions
  · exact hmain f (SymbolTable.signature?_eq_some.1 hf)

/-- A unit that is emitted has its code, in these parts. -/
theorem CompilationUnit.emitted {unit : CompilationUnit} (hg : unit.globals.Structured) (hf : Function.AllStructured unit.functions)
    (h : unit.emit.run .empty = .ok (u, a)) :
    ∃ globals jump functions call pos t, unit.Compiled globals jump functions call pos t a.symbols ∧
      a.code = globals ++ (jump ++ functions) ++ (call ++ [⟨⟨.ret, none⟩, pos⟩]) := by
  obtain ⟨a₁, a₂, pos, h₁, h₂, -, hmain, rfl⟩ := run_emit.1 h
  obtain ⟨jump, functions, hcode, hcompiled⟩ := Compiled.of_runs hg hf h₁ h₂ hmain pos
  have hsymbols : ((callMain pos a₂).push .ret none pos).symbols = a₂.symbols := symbols_callMain pos a₂
  rw [hsymbols]
  refine ⟨a₁.code, jump, functions, _, pos, a₁.symbols, hcompiled, ?_⟩
  rw [Assembly.code_push, code_callMain, hcode, List.append_assoc]

end

end C0Stack
