import C0Stack.Proofs.Analysis.Operands

/-!
# The analysis restores its context

Whatever part of a text is analysed, and in whichever state: behind it the state has the code, the scopes, the function and the
loops that it had, with something appended (`Analysis.Restores`). It follows that the analysis of a text never panics, and gives
what the compiler gives (`analysis_restores`).
-/

namespace C0Stack

open Analysis Assembling

/-! ## Functions -/

namespace Function

/-- Emits a function where the given loop is the innermost one around it. Around the functions of a program there is none. -/
def emitWithin (loop : Option Nat) : Function → Assembling Unit
  | defn _ name params returns body close => do
    let types ← paramTypes params
    let ty ← resolveType true returns
    let entry ← nextAddress
    declareFunction name ⟨ty, entry, types⟩
    modifySymbols SymbolTable.enterFunction
    declareParams (params.zip types)
    body.emit ⟨some ty, loop⟩
    Assembling.emit .ret none close
    modifySymbols SymbolTable.leave
  | fault _ params error => do
    let _ ← paramTypes params
    throw error

/-- Outside of loops a function is emitted as it is in a program. -/
theorem emitWithin_none (f : Function) : f.emitWithin none = f.emit := by
  cases f <;> rfl

/-- Checking the types of parameters leaves the waiting jumps alone. -/
theorem keepsBreaks_paramTypes (params : List Param) : KeepsBreaks (paramTypes params) :=
  fun _ _ _ h => (run_paramTypes.1 h).2 ▸ rfl

theorem keepsBreaks_declareParams (params : List (Param × Ty)) : KeepsBreaks (declareParams params) := by
  intro a u a' h
  obtain ⟨t, -, rfl⟩ := run_declareParams.1 h
  rfl

/-- The inside of a function is one step. -/
theorem emitWithin_defn (loop : Option Nat) (pos : Position) (name : Ident) (params : List Param) (returns : Ident) (body : Stmt)
    (close : Position) : (defn pos name params returns body close).emitWithin loop = (do
      let types ← paramTypes params
      let ty ← resolveType true returns
      let entry ← nextAddress
      declareFunction name ⟨ty, entry, types⟩
      modifySymbols SymbolTable.enterFunction
      (do
        declareParams (params.zip types)
        body.emit ⟨some ty, loop⟩
        Assembling.emit .ret none close)
      modifySymbols SymbolTable.leave) := by
  rw [emitWithin]
  simp only [bind_assoc]

/-- Reading a function outside of others is emitting it. -/
theorem agrees (ctx : Context) (hctx : ctx.function = none) (inOperand : Bool) (f : Function) :
    AgreesIn ctx inOperand f.analyse (f.barred.emitWithin ctx.loop) := by
  cases f with
  | fault pos params error =>
    rw [analyse, barred, emitWithin]
    exact .bind (.step (keepsBreaks_paramTypes params)) fun _ => .refuse error
  | defn pos name params returns body close =>
    rw [analyse, barred, emitWithin_defn]
    refine .bind (.step (keepsBreaks_paramTypes params)) fun types => .bind (.step (.resolveType _ _)) fun ty => ?_
    refine .bind (.step (m := fun _ => nextAddress) .nextAddress) fun entry => ?_
    refine .bind (.step (.declareFunction _ _)) fun _ => .bind (.step (.modifySymbols _)) fun _ => ?_
    refine .bind ?_ fun _ => .step (.modifySymbols _)
    intro s hs hoperand
    have hfunction : s.function = none := (congrArg Context.function hs).trans hctx
    have hinside : ({ s with function := some ty } : Analysis).context = ⟨some ty, ctx.loop⟩ := by
      rw [← hs]
      rfl
    refine .inFunction hfunction (AgreesIn.bind (.step (keepsBreaks_declareParams _)) (fun _ => ?_) _ hinside hoperand)
    exact .bind (body.agrees _ inOperand) fun _ => .step (.emit _ _ _)

end Function

/-- The parameters of a function are declared in its scope. -/
theorem SymbolTable.DeclaresParams.appends {t t' : SymbolTable} {params : List (Param × Ty)} (h : t.DeclaresParams params t')
    (a : Assembly) : Assembly.Appends { a with symbols := t } { a with symbols := t' } := by
  induction h with
  | nil => exact .refl _
  | @cons t t₁ t₂ t₃ p ty v ps h₁ h₂ _ ih =>
    have hdeclare : Assembly.Appends { a with symbols := t } { a with symbols := t₁ } := .declare (a := { a with symbols := t }) h₁
    have hmark : Assembly.Appends { a with symbols := t₁ } { a with symbols := t₂ } :=
      .markWritten (a := { a with symbols := t₁ }) h₂
    exact (hdeclare.trans hmark).trans ih

/-- A function is added to the outermost scope. Its code is appended, and else nothing changes but notes of writes. -/
theorem Function.appends {f : Function} {loop : Option Nat} {a a' : Assembly} {u : Unit}
    (h : (f.emitWithin loop).run a = .ok (u, a')) :
    ∃ x signature, a.symbols.outermost.find? x = none ∧
      Assembly.Appends { a with symbols := a.symbols.withFunction x signature } a' ∧
      SymbolTable.NotedAll (a.symbols.withFunction x signature).frames a'.symbols.frames := by
  cases f with
  | fault pos params error =>
    rw [emitWithin] at h
    simp only [run_bind_eq_ok, run_throw_eq_ok, and_false, exists_false] at h
  | defn pos name params returns body close =>
    rw [emitWithin] at h
    simp only [run_bind_eq_ok, run_paramTypes, run_resolveType_eq_ok, run_nextAddress_eq_ok, run_declareFunction_eq_ok,
      run_modifySymbols_eq_ok, run_declareParams, run_emit_eq_ok] at h
    obtain ⟨types, _, ⟨-, rfl⟩, ty, _, ⟨-, -, rfl⟩, _, a, ⟨rfl, rfl⟩, _, _, ⟨t₁, h₁, rfl⟩, _, _, rfl, _, _, ⟨t₂, h₂, rfl⟩, _,
      a₁, hbody, _, _, rfl, rfl⟩ := h
    obtain ⟨hnew, rfl⟩ := SymbolTable.declareFunction_eq_ok.1 h₁
    refine ⟨name.name, ⟨ty, a.nextAddress, types⟩, hnew, ?_⟩
    exact ((h₂.appends _).trans ((Stmt.appends hbody).trans (.push a₁ .ret none close))).leave

/-- Outside of all blocks there is no scope around the innermost one. -/
theorem Function.appends_of_depth {f : Function} {loop : Option Nat} {a a' : Assembly} {u : Unit} (hdepth : a.symbols.depth = 0)
    (h : (f.emitWithin loop).run a = .ok (u, a')) : a.Appends a' := by
  obtain ⟨x, signature, -, happends, -⟩ := Function.appends h
  refine ⟨happends.code, happends.breaks, happends.depth_eq, ?_⟩
  have htail : ∀ t : SymbolTable, t.depth = 0 → t.frames.tail = [] := fun t ht =>
    List.eq_nil_of_length_eq_zero (t.length_tail_frames.trans ht)
  rw [htail _ hdepth, htail _ (happends.depth_eq.trans hdepth)]
  exact .nil

/-! ## Programs -/

/-- Functions in a row only append code. -/
theorem Function.isPrefix_code_forM {fs : List Function} {a a' : Assembly} {u : Unit}
    (h : (fs.forM emit : Assembling Unit).run a = .ok (u, a')) : a.code <+: a'.code := by
  induction fs generalizing a with
  | nil =>
    obtain ⟨-, rfl⟩ := run_pure_eq_ok.1 h
    exact List.prefix_refl _
  | cons f fs ih =>
    obtain ⟨a₁, hf, hfs⟩ := run_forM_emit_cons.1 h
    rw [← emitWithin_none] at hf
    obtain ⟨x, signature, -, happends, -⟩ := Function.appends hf
    exact happends.code.trans (ih hfs)

/-- Reading functions in a row is emitting them. -/
theorem Function.agrees_forM (inOperand : Bool) (fs : List Function) :
    AgreesIn .outermost inOperand (fs.forM analyse) ((fs.map barred).forM emit) := by
  induction fs with
  | nil => exact .pure ()
  | cons f fs ih =>
    refine .bind ?_ fun _ => ih
    rw [← emitWithin_none]
    exact f.agrees .outermost rfl inOperand

namespace CompilationUnit

/-- The call of `main` leaves the waiting jumps alone. -/
theorem keepsBreaks_emitMainCall (pos : Position) : KeepsBreaks (emitMainCall pos) := by
  intro a u a' h
  obtain ⟨-, rfl⟩ := run_emitMainCall.1 h
  unfold callMain
  split <;> rfl

/-- Reading the functions of a program is emitting them, with a jump over them in front. -/
theorem agrees_functions (inOperand : Bool) (fs : List Function) :
    AgreesIn .outermost inOperand (analyseFunctions fs) (emitFunctions (fs.map Function.barred)) := by
  cases fs with
  | nil => exact .pure ()
  | cons f fs =>
    rw [analyseFunctions, List.map_cons, emitFunctions, Function.pos_barred, ← List.map_cons]
    intro s hctx hoperand
    refine (Agrees.step (.emitJump _ _) hctx).bind fun skip s₁ h₁ hctx₁ hoperand₁ _ => ?_
    refine (Function.agrees_forM inOperand (f :: fs) s₁ (hctx₁.trans hctx) (hoperand₁.trans hoperand)).bind fun _ s₂ h₂ _ _ _ => ?_
    have hjump := Assembly.operationAt?_of_emitJump h₁
    exact .patch (.inl rfl) (Assembly.operationAt?_of_isPrefix (Function.isPrefix_code_forM h₂) hjump)

/-- Reading a whole program is emitting it. -/
theorem agrees (inOperand : Bool) (u : CompilationUnit) : AgreesIn .outermost inOperand u.analyse u.barred.emit := by
  refine .bind (u.globals.agrees .outermost inOperand) fun _ => .bind (agrees_functions inOperand u.functions) fun _ => ?_
  rw [barred]
  cases u.ending with
  | ok pos => exact .bind (.step (keepsBreaks_emitMainCall pos)) fun _ => .step (.emit _ _ _)
  | error error => exact .refuse error

end CompilationUnit

/-! ## Restoration -/

namespace Analysis

/-- `s'` is `s` with something appended: the code and its places in `s` stand at the start of those in `s'`. As many scopes are open;
those around the innermost one declare the same, and at most more of their slots have been written. The function, the loops and the
note about operands are as they were, except that the innermost loop may have more jumps out of it, which were emitted in between. -/
structure Restores (s s' : Analysis) : Prop where
  code : s.program.lines.toList <+: s'.program.lines.toList
  depth_eq : s'.symbols.depth = s.symbols.depth
  around : List.Forall₂ Frame.Noted s.symbols.frames.tail s'.symbols.frames.tail
  function_eq : s'.function = s.function
  inOperand_eq : s'.inOperand = s.inOperand
  loops : s.loops = [] ∧ s'.loops = [] ∨ ∃ loop outer waiting, s.loops = loop :: outer ∧
    s'.loops = { loop with breaks := waiting ++ loop.breaks } :: outer ∧
    ∀ n ∈ waiting, s.program.size ≤ n ∧ s'.program.operationAt? n = some .jmp

variable {α : Type} {s s' : Analysis} {n : Analysing α} {m : Assembling α} {x : α}

/-- A state whose assembly has had something appended is restored. -/
theorem restores_withAssembly {a : Assembly} (h : s.assembly.Appends a) : s.Restores (s.withAssembly a) where
  code := h.code
  depth_eq := h.depth_eq
  around := h.around
  function_eq := rfl
  inOperand_eq := rfl
  loops := by
    obtain ⟨waiting, hbreaks, hwaiting⟩ := h.breaks
    obtain ⟨symbols, program, function, loops, inOperand⟩ := s
    cases loops with
    | nil => exact .inl ⟨rfl, rfl⟩
    | cons loop outer =>
      refine .inr ⟨loop, outer, waiting, rfl, ?_, hwaiting⟩
      change { loop with breaks := a.breaks } :: outer = _
      rw [hbreaks]
      rfl

/-- An analysis that succeeds leaves what the assembly leaves. -/
theorem Agrees.exists_run (h : Agrees s n m) (hn : n.run s = .ok (x, s')) :
    ∃ a, m.run s.assembly = .ok (x, a) ∧ s' = s.withAssembly a := by
  rw [h.run_eq] at hn
  cases hm : m.run s.assembly with
  | error error =>
    rw [outcome_of_error hm] at hn
    cases hn
  | ok r =>
    rw [outcome_of_ok hm] at hn
    cases hn
    exact ⟨r.2, rfl, rfl⟩

/-- Reading a statement restores the state. -/
theorem restores_stmt {S : Stmt} {u : Unit} (h : S.analyse.run s = .ok (u, s')) : s.Restores s' := by
  obtain ⟨a, ha, rfl⟩ := (S.agrees s.context s.inOperand s rfl rfl).exists_run h
  exact restores_withAssembly (Stmt.appends ha)

/-- Reading an expression that stands alone is emitting it. -/
theorem agrees_whole (e : Expr) (s : Analysis) : s.Agrees e.analyseWhole ((e.barred false).emit s.context) :=
  .reading (e.agrees s.context false { s with inOperand := false } rfl rfl)

/-- Reading an expression that stands alone restores the state. -/
theorem restores_whole {e : Expr} {ty : Ty} (h : e.analyseWhole.run s = .ok (ty, s')) : s.Restores s' := by
  obtain ⟨a, ha, rfl⟩ := (agrees_whole e s).exists_run h
  exact restores_withAssembly (Expr.appends ha)

/-- Reading a function outside of others restores the state, and adds the function to the outermost scope. -/
theorem restores_function {f : Function} {u : Unit} (hdepth : s.symbols.depth = 0) (hfunction : s.function = none)
    (h : f.analyse.run s = .ok (u, s')) :
    s.Restores s' ∧ ∃ y signature, s.symbols.outermost.find? y = none ∧
      (s.symbols.outermost.insert y (.function signature)).Noted s'.symbols.outermost := by
  obtain ⟨a, ha, rfl⟩ := (f.agrees s.context hfunction s.inOperand s rfl rfl).exists_run h
  refine ⟨restores_withAssembly (Function.appends_of_depth hdepth ha), ?_⟩
  obtain ⟨y, signature, hnew, happends, hnoted⟩ := Function.appends ha
  refine ⟨y, signature, hnew, ?_⟩
  have hnil : s.symbols.nested = [] := List.eq_nil_of_length_eq_zero hdepth
  have hnil' : a.symbols.nested = [] := List.eq_nil_of_length_eq_zero (happends.depth_eq.trans hdepth)
  change SymbolTable.NotedAll (s.symbols.nested ++ [_]) (a.symbols.nested ++ [_]) at hnoted
  rw [hnil, hnil'] at hnoted
  cases hnoted with
  | cons hnoted _ => exact hnoted

end Analysis

/-- Reading a text with all checks gives what the compiler gives. -/
theorem analyse_eq_compile (mode : Mode) (source : Source) : analyse mode source = (compile mode source).mapError .refused := by
  have hmap : ∀ (n : Analysing Unit) (m : Assembling Unit), Agrees .empty n m →
      (n.run .empty).map (fun r => r.2.program) = m.assemble.mapError .refused := by
    intro n m h
    have hempty : Analysis.empty.assembly = .empty := rfl
    rw [h.run_eq, Assembling.assemble, ← hempty]
    cases hm : m.run Analysis.empty.assembly with
    | error error =>
      rw [outcome_of_error hm]
      rfl
    | ok r =>
      rw [outcome_of_ok hm]
      rfl
  cases mode with
  | program =>
    have h := (CompilationUnit.parse (TokenStream.ofSource source)).1.agrees false .empty rfl rfl
    rw [CompilationUnit.barred_parse] at h
    exact hmap _ _ h
  | statements =>
    have h := (Stmt.parseAll (TokenStream.ofSource source)).1.agrees .outermost false .empty rfl rfl
    rw [Stmt.barred_parseAll] at h
    exact hmap _ _ h

/-- In every state, reading an expression or a statement is emitting it in the context of that state, and restores the context: code
is only appended, and the scopes, the function, the loops and the note about operands are as before, up to writes that are noted
and jumps that wait for the end of the innermost loop. Outside of blocks and of other functions the same holds of a function, which
adds itself to the outermost scope. There is always a scope; and from a text, with a check before each jump is patched, the same
program or fault comes as from the compiler, so the checks never fail. -/
theorem analysis_restores :
    (∀ (e : Expr) (s : Analysis), e.analyseWhole.run s = s.outcome ((e.barred false).emit s.context) ∧
      ∀ ty s', e.analyseWhole.run s = .ok (ty, s') → s.Restores s') ∧
    (∀ (S : Stmt) (s : Analysis), S.analyse.run s = s.outcome (S.barred.emit s.context) ∧
      ∀ s', S.analyse.run s = .ok ((), s') → s.Restores s') ∧
    (∀ (f : Function) (s s' : Analysis), s.symbols.depth = 0 → s.function = none → f.analyse.run s = .ok ((), s') →
      s.Restores s' ∧ ∃ x signature, s.symbols.outermost.find? x = none ∧
        (s.symbols.outermost.insert x (.function signature)).Noted s'.symbols.outermost) ∧
    (∀ s : Analysis, s.symbols.frames ≠ []) ∧
    ∀ (mode : Mode) (source : Source), analyse mode source = (compile mode source).mapError .refused := by
  refine ⟨?_, ?_, ?_, ?_, analyse_eq_compile⟩
  · intro e s
    exact ⟨(agrees_whole e s).run_eq, fun ty s' => restores_whole⟩
  · intro S s
    exact ⟨(S.agrees s.context s.inOperand s rfl rfl).run_eq, fun s' => restores_stmt⟩
  · intro f s s' hdepth hfunction h
    exact restores_function hdepth hfunction h
  · intro s
    rw [s.symbols.frames_eq_cons]
    exact List.cons_ne_nil _ _

/-- The state inside a loop whose condition has been read. -/
def Sample.insideLoop : Analysis :=
  ⟨.empty, (Program.empty.push .lit (some 1) ⟨0, 6⟩).push .jz (some 0) ⟨0, 0⟩, none, [⟨0, []⟩], false⟩

/-- A conditional that leaves the loop from a block. -/
def Sample.leavingBlock : Stmt := .ifThen ⟨1, 0⟩ (.int ⟨1, 3⟩ 1) (.block (.seq (.leave ⟨1, 7⟩) .nil))

/-- The jump of a conditional that leaves a loop waits for the end of that loop. -/
theorem analysis_restores_leaving : ∃ s', Sample.leavingBlock.analyse.run Sample.insideLoop = .ok ((), s') ∧ s'.loops = [⟨0, [4]⟩] ∧
    Sample.insideLoop.Restores s' := by
  have hrun : Sample.leavingBlock.analyse.run Sample.insideLoop = .ok ((), _) := rfl
  exact ⟨_, hrun, rfl, (analysis_restores.2.1 Sample.leavingBlock Sample.insideLoop).2 _ hrun⟩

end C0Stack
