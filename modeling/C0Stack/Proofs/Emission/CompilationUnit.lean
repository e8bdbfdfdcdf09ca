import C0Stack.Proofs.Emission.Origin
import C0Stack.Proofs.Layout

/-!
# The functions that are emitted

While a unit is compiled, its declarations are emitted and then the bodies of its functions, one after the other
(`CompilationUnit.Begins`, `CompilationUnit.Emits`). Where the code of functions stands in a program, so do their bodies, and each `RET`
in it is that of a return in one of them, or the last instruction of one (`Function.standAll`).
-/

namespace C0Stack

open Assembling

/-- While the functions are emitted, so is the body of one of them. -/
inductive Function.EmitsBody : List Function → Assembly → Emission → Prop
  | head {pos close : Position} {name target : Ident} {params : List Param} {body : Stmt} {types : List Ty} {ty : Ty}
      {t₁ t₂ : SymbolTable} {fs : List Function} {a a₁ : Assembly} :
      List.Forall₂ Param.HasType params types → Ty.named? target.name = some ty →
        a.symbols.declareFunction name.name ⟨ty, a.nextAddress, types⟩ name.pos = .ok t₁ →
        t₁.enterFunction.DeclaresParams (params.zip types) t₂ →
        Emission.Runs ⟨⟨some ty, none⟩, body, { a with symbols := t₂ }, a₁⟩ →
        EmitsBody (defn pos name params target body close :: fs) a ⟨⟨some ty, none⟩, body, { a with symbols := t₂ }, a₁⟩
  | tail {f : Function} {fs : List Function} {a a₁ : Assembly} {E : Emission} :
      f.emit.run a = .ok ((), a₁) → EmitsBody fs a₁ E → EmitsBody (f :: fs) a E

/-- While the unit is emitted, so are its declarations and the bodies of its functions. -/
inductive CompilationUnit.Begins (u : CompilationUnit) : Emission → Prop
  | globals {a : Assembly} : Emission.Runs ⟨.outermost, u.globals, .empty, a⟩ → Begins u ⟨.outermost, u.globals, .empty, a⟩
  | body {a : Assembly} {f : Function} {fs : List Function} {E : Emission} :
      Emission.Runs ⟨.outermost, u.globals, .empty, a⟩ → u.functions = f :: fs →
        Function.EmitsBody u.functions (a.push .jmp (some 0) f.pos) E → Begins u E

/-- While the unit is emitted, so is the statement. -/
def CompilationUnit.Emits (u : CompilationUnit) (E : Emission) : Prop := ∃ E₀, u.Begins E₀ ∧ E₀.Covers E

section

variable {calls : Nat → Option Signature} {lines : List CodeLine} {a a' : Assembly}

namespace Function

/-- The body of a function stands where its code does. -/
theorem stands_body {pos close : Position} {name target : Ident} {params : List Param} {body : Stmt} {types : List Ty} {ty : Ty}
    {t₁ t₂ : SymbolTable} {a₁ : Assembly} (hs : body.Structured) (htypes : List.Forall₂ Param.HasType params types)
    (hty : Ty.named? target.name = some ty)
    (h₁ : a.symbols.declareFunction name.name ⟨ty, a.nextAddress, types⟩ name.pos = .ok t₁)
    (h₂ : t₁.enterFunction.DeclaresParams (params.zip types) t₂)
    (hbody : Emission.Runs ⟨⟨some ty, none⟩, body, { a with symbols := t₂ }, a₁⟩)
    (h : (defn pos name params target body close).emit.run a = .ok ((), a')) (hnested : a.symbols.nested = [])
    (hknown : a.symbols.All (Binding.Callable (Signature.Known calls)))
    (hcalls : ∀ f, a'.symbols.find? name.name = some (.function f) → f.Known calls)
    (hplaced : ∀ code, a'.code = a.code ++ code → StandsAt lines a.nextAddress code)
    (hzero : height calls lines a.nextAddress = 0) :
    Emission.Stands calls lines ⟨⟨some ty, none⟩, body, { a with symbols := t₂ }, a₁⟩ := by
  rw [run_emit_defn.2 ⟨types, ty, t₁, t₂, a₁, htypes, hty, h₁, h₂, hbody, rfl⟩] at h
  cases h
  obtain ⟨code, w, hasm⟩ := Stmt.emitted hs hbody
  have hcompiled : Compiled name params target body close _ _ _ _ _ := .of_assembled htypes hty h₁ h₂ hasm
  obtain ⟨-, rfl⟩ := SymbolTable.declareFunction_eq_ok.1 h₁
  have hf := hcalls _ ((hcompiled.find?_function hnested).2 (.inl ⟨rfl, rfl⟩))
  refine ⟨hbody, hs, hcompiled.all hnested hknown hf h₂, hzero, 0, nofun, fun code w hasm => ?_⟩
  refine (hplaced (code 0 ++ [⟨⟨.ret, none⟩, close⟩]) ?_).left
  change (a₁.push .ret none close).code = _
  rw [Assembly.code_push, hasm.code_eq, List.append_assoc]
  rfl

/-- Functions behind do not matter. -/
theorem EmitsBody.append {fs : List Function} {E : Emission} (h : EmitsBody fs a E) (gs : List Function) :
    EmitsBody (fs ++ gs) a E := by
  induction h with
  | head htypes hty hdeclare hparams hbody => exact .head htypes hty hdeclare hparams hbody
  | tail hf _ ih => exact .tail hf ih

/-- The body that is emitted is that of the first function or of one behind it. -/
theorem EmitsBody.cons_cases {f : Function} {fs : List Function} {E : Emission} (h : EmitsBody (f :: fs) a E)
    (hf : f.emit.run a = .ok ((), a')) : EmitsBody [f] a E ∨ EmitsBody fs a' E := by
  cases h with
  | head htypes hty hdeclare hparams hbody => exact .inl (.head htypes hty hdeclare hparams hbody)
  | tail hf' h =>
    rw [hf'] at hf
    cases hf
    exact .inr h

/-- What the code of functions is like where it stands: so do their bodies, and each `RET` is that of a return in one of them, or the
last instruction of one, where nothing is on the stack. -/
structure StandAll (calls : Nat → Option Signature) (lines : List CodeLine) (fs : List Function) (a a' : Assembly) : Prop where
  stands : ∀ E, EmitsBody fs a E → E.Stands calls lines
  lt : ∀ E, EmitsBody fs a E → E.after.nextAddress < a'.nextAddress
  returns : ∀ n line, a.nextAddress ≤ n → n < a'.nextAddress → lines[n]? = some line → line.instruction.op = .ret →
    (∃ E, EmitsBody fs a E ∧ E.HasReturn n) ∨ height calls lines n = 0

/-- What the code of a function is like, and that of those behind it, the code of all of them is. -/
theorem StandAll.cons {f : Function} {fs : List Function} {a₁ : Assembly} (hf : f.emit.run a = .ok ((), a₁))
    (hle : a₁.nextAddress ≤ a'.nextAddress) (hhead : StandAll calls lines [f] a a₁) (htail : StandAll calls lines fs a₁ a') :
    StandAll calls lines (f :: fs) a a' := by
  refine ⟨fun E hE => ?_, fun E hE => ?_, fun n line hn hlt hline hret => ?_⟩
  · rcases hE.cons_cases hf with hE | hE
    · exact hhead.stands E hE
    · exact htail.stands E hE
  · rcases hE.cons_cases hf with hE | hE
    · exact Nat.lt_of_lt_of_le (hhead.lt E hE) hle
    · exact htail.lt E hE
  · rcases Nat.lt_or_ge n a₁.nextAddress with hmid | hmid
    · refine (hhead.returns n line hn hmid hline hret).imp_left ?_
      rintro ⟨E, hE, hreturn⟩
      exact ⟨E, hE.append fs, hreturn⟩
    · refine (htail.returns n line hmid hlt hline hret).imp_left ?_
      rintro ⟨E, hE, hreturn⟩
      exact ⟨E, .tail hf hE, hreturn⟩

/-- The body of a function stands where the function does, and the `RET` for its closing brace behind the body. -/
theorem standAll_defn {pos close : Position} {name target : Ident} {params : List Param} {body : Stmt} (hs : body.Structured)
    (h : (defn pos name params target body close).emit.run a = .ok ((), a')) (hnested : a.symbols.nested = [])
    (hknown : a.symbols.All (Binding.Callable (Signature.Known calls)))
    (hcalls : ∀ f, a'.symbols.find? name.name = some (.function f) → f.Known calls)
    (hplaced : ∀ code, a'.code = a.code ++ code → StandsAt lines a.nextAddress code)
    (hzero : height calls lines a.nextAddress = 0) :
    StandAll calls lines [defn pos name params target body close] a a' := by
  have hstands : ∀ E, EmitsBody [defn pos name params target body close] a E → E.Stands calls lines := by
    intro E hE
    cases hE with
    | head htypes hty hdeclare hparams hbody =>
      exact stands_body hs htypes hty hdeclare hparams hbody h hnested hknown hcalls hplaced hzero
    | tail _ hE => cases hE
  have hend : ∀ E, EmitsBody [defn pos name params target body close] a E → a'.nextAddress = E.after.nextAddress + 1 := by
    intro E hE
    cases hE with
    | @head _ _ _ _ _ _ _ _ _ _ _ _ b htypes hty hdeclare hparams hbody =>
      rw [run_emit_defn.2 ⟨_, _, _, _, _, htypes, hty, hdeclare, hparams, hbody, rfl⟩] at h
      cases h
      exact b.nextAddress_push .ret none close
    | tail _ hE => cases hE
  refine ⟨hstands, fun E hE => ?_, fun n line hn hlt hline hret => ?_⟩
  · rw [hend E hE]
    exact Nat.lt_succ_self _
  · obtain ⟨types, ty, t₁, t₂, b, htypes, hty, hdeclare, hparams, hbody, -⟩ := run_emit_defn.1 h
    have hE : EmitsBody [defn pos name params target body close] a _ := .head htypes hty hdeclare hparams hbody
    rw [hend _ hE] at hlt
    rcases Nat.lt_or_eq_of_le (Nat.le_of_lt_succ hlt) with hlt | rfl
    · exact .inl ⟨_, hE, (hstands _ hE).hasReturn hn hlt hline hret⟩
    · exact .inr (hstands _ hE).zero_after

/-- The bodies of functions in a row stand where the functions do. -/
theorem standAll {fs : List Function} (hs : AllStructured fs) (h : (fs.forM emit : Assembling Unit).run a = .ok ((), a'))
    (hnested : a.symbols.nested = []) (hknown : a.symbols.All (Binding.Callable (Signature.Known calls)))
    (hcalls : ∀ x f, a'.symbols.find? x = some (.function f) → f.Known calls)
    (hplaced : ∀ code, a'.code = a.code ++ code → StandsAt lines a.nextAddress code)
    (hzero : height calls lines a.nextAddress = 0) : StandAll calls lines fs a a' := by
  induction fs generalizing a with
  | nil =>
    obtain ⟨-, rfl⟩ := run_pure_eq_ok.1 h
    exact ⟨nofun, nofun, fun n line hn hlt => absurd hlt (Nat.not_lt.2 hn)⟩
  | cons f fs ih =>
    obtain ⟨a₁, h₁, h₂⟩ := run_forM_emit_cons.1 h
    cases f with
    | fault => exact (run_emit_fault.1 h₁).elim
    | defn pos name params target body close =>
      have hs₂ : AllStructured fs := hs.mono (List.subset_cons_self _ _)
      obtain ⟨f, code, hcompiled, hcode⟩ := emitted hs.head h₁
      obtain ⟨rest, hrest, hcode'⟩ := emittedAll hs₂ h₂
      have hnested₁ := hcompiled.nested_eq_nil hnested
      have hcalls₁ : ∀ x f, a₁.symbols.find? x = some (.function f) → f.Known calls := fun x f hx =>
        hcalls x f (hrest.find?_function hnested₁ hx)
      have hf := hcalls₁ _ f ((hcompiled.find?_function hnested).2 (.inl ⟨rfl, rfl⟩))
      have hknown₁ := (hknown.withFunction hnested hf).of_written Binding.callable_markWritten hcompiled.written
      have hplaced₁ : ∀ c, a₁.code = a.code ++ c → StandsAt lines a.nextAddress c := fun c hc =>
        (hplaced (c ++ rest) (by rw [hcode', hc, List.append_assoc])).left
      have hplaced₂ : ∀ c, a'.code = a₁.code ++ c → StandsAt lines a₁.nextAddress c := fun c hc => by
        have hright := (hplaced (code ++ c) (by rw [hc, hcode, List.append_assoc])).right
        rwa [Assembly.nextAddress_eq, ← List.length_append, ← hcode] at hright
      have hzero₁ : height calls lines a₁.nextAddress = 0 := by
        obtain ⟨_, _, c, -, -, rfl⟩ := hcompiled.body
        rw [Assembly.nextAddress_eq, hcode, List.length_append, List.length_append]
        exact (hplaced₁ _ hcode).height_add_one calls
      have hle : a₁.nextAddress ≤ a'.nextAddress := by
        rw [Assembly.nextAddress_eq, Assembly.nextAddress_eq, hcode', List.length_append]
        exact Nat.le_add_right _ _
      exact .cons h₁ hle (standAll_defn hs.head h₁ hnested hknown (hcalls₁ _) hplaced₁ hzero)
        (ih hs₂ h₂ hnested₁ hknown₁ hplaced₂ hzero₁)

end Function

end

end C0Stack
