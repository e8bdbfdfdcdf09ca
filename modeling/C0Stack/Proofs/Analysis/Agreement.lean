import C0Stack.Proofs.Analysis.Appending
import C0Stack.Proofs.Analysis.Basic

/-!
# The analysis agrees with the emission

In every state, the analysis of a tree does what its emission does in the context of that state (`Stmt.agrees`). The context is the
same again behind it, and a jump is found wherever one is to be patched. An assignment that stands as an operand is refused by the
analysis, so it is compared with the tree in which a fault stands in its place (`Expr.barred`).
-/

namespace C0Stack

/-! ## Assignments in the place of operands -/

namespace Expr

mutual

/-- The expression with a fault in the place of each assignment that stands as an operand; `inOperand` says whether the expression
itself does. -/
def barred (inOperand : Bool) : Expr → Expr
  | assign target value =>
    if inOperand then fault ⟨.assignmentAsOperand target.name, target.pos⟩ else assign target (value.barred false)
  | call callee args => call callee (barredAll args)
  | paren pos inner => paren pos (inner.barred false)
  | neg pos operand => neg pos (operand.barred true)
  | cast value pos ty => cast (value.barred inOperand) pos ty
  | binary left op pos right => binary (left.barred inOperand) op pos (right.barred true)
  | cut read error => cut (read.barred false) error
  | int pos value => int pos value
  | literal pos kind => literal pos kind
  | var name => var name
  | fault error => fault error

/-- The same for each argument of a call. -/
def barredAll : List Expr → List Expr
  | [] => []
  | e :: es => e.barred false :: barredAll es

end

/-- Barring changes no place where an expression starts. -/
@[simp] theorem start_barred (inOperand : Bool) (e : Expr) : (e.barred inOperand).start = e.start := by
  induction e using start.induct generalizing inOperand with
  | case8 value pos ty ih => simp only [barred, start, ih]
  | case9 left op pos right ih => simp only [barred, start, ih]
  | case11 read error ih => simp only [barred, start, ih]
  | case5 target value =>
    rw [barred]
    split <;> rfl
  | _ => simp only [barred, start]

@[simp] theorem length_barredAll (es : List Expr) : (barredAll es).length = es.length := by
  induction es with
  | nil => rfl
  | cons e es ih => simp only [barredAll, List.length_cons, ih]

end Expr

/-- The statement with faults in the place of the assignments that stand as operands. -/
def Stmt.barred : Stmt → Stmt
  | seq first rest => seq first.barred rest.barred
  | decl pos constant name ty init => decl pos constant name ty (init.map (Expr.barred false))
  | expr value => expr (value.barred false)
  | block body => block body.barred
  | ifThen pos condition body => ifThen pos (condition.barred false) body.barred
  | ifElse pos condition body elsePos alternative =>
    ifElse pos (condition.barred false) body.barred elsePos alternative.barred
  | loop pos condition body => loop pos (condition.barred false) body.barred
  | retValue pos value => retValue pos (value.barred false)
  | nil => nil
  | empty => empty
  | leave pos => leave pos
  | again pos => again pos
  | ret pos stop => ret pos stop
  | fault error => fault error

/-- The same for a function. -/
def Function.barred : Function → Function
  | defn pos name params returns body close => defn pos name params returns body.barred close
  | fault pos params error => fault pos params error

/-- The same for a whole program. -/
def CompilationUnit.barred (u : CompilationUnit) : CompilationUnit :=
  ⟨u.globals.barred, u.functions.map Function.barred, u.ending⟩

@[simp] theorem Function.pos_barred (f : Function) : f.barred.pos = f.pos := by cases f <;> rfl

/-! ## Steps that agree -/

namespace Assembling

/-- The step leaves the jumps that wait as they are. -/
def KeepsBreaks {α : Type} (m : Assembling α) : Prop := ∀ a x a', m.run a = .ok (x, a') → a'.breaks = a.breaks

namespace KeepsBreaks

variable {α β : Type}

theorem pure (x : α) : KeepsBreaks (pure x) := fun _ _ _ h => (run_pure_eq_ok.1 h).2 ▸ rfl

/-- One step after another leaves the jumps alone if both do. -/
theorem bind {m : Assembling α} {f : α → Assembling β} (hm : KeepsBreaks m) (hf : ∀ x, KeepsBreaks (f x)) :
    KeepsBreaks (m >>= f) := by
  intro a y a' h
  obtain ⟨x, a₁, h₁, h₂⟩ := run_bind_eq_ok.1 h
  exact (hf x a₁ y a' h₂).trans (hm a x a₁ h₁)

theorem fail (cause : Cause) (pos : Position) : KeepsBreaks (fail cause pos : Assembling α) :=
  fun _ _ _ h => (run_fail_eq_ok.1 h).elim

/-- A choice leaves the jumps alone if both branches do. -/
theorem ite {p : Prop} [Decidable p] {m m' : Assembling α} (h : KeepsBreaks m) (h' : KeepsBreaks m') :
    KeepsBreaks (if p then m else m') := by
  split
  · exact h
  · exact h'

/-- Emitting an instruction leaves the waiting jumps alone. -/
theorem emit (op : Operation) (operand : Option Nat) (pos : Position) : KeepsBreaks (emit op operand pos) :=
  fun _ _ _ h => run_emit_eq_ok.1 h ▸ rfl

theorem nextAddress : KeepsBreaks nextAddress := fun _ _ _ h => (run_nextAddress_eq_ok.1 h).2 ▸ rfl

/-- A jump does not wait by being emitted. -/
theorem emitJump (op : Operation) (pos : Position) : KeepsBreaks (emitJump op pos) := fun _ _ _ h => (run_emitJump_eq_ok.1 h).2 ▸ rfl

/-- A change of the names leaves them alone. -/
theorem modifySymbols (f : SymbolTable → SymbolTable) : KeepsBreaks (modifySymbols f) :=
  fun _ _ _ h => run_modifySymbols_eq_ok.1 h ▸ rfl

theorem lookup (x : Ident) : KeepsBreaks (lookup x) := fun _ _ _ h => (run_lookup_eq_ok.1 h).2 ▸ rfl

theorem declare (x : Ident) (constant : Bool) (ty : Ty) : KeepsBreaks (declare x constant ty) := by
  intro a v a' h
  obtain ⟨t, -, rfl⟩ := run_declare_eq_ok.1 h
  rfl

theorem declareFunction (x : Ident) (f : Signature) : KeepsBreaks (declareFunction x f) := by
  intro a v a' h
  obtain ⟨t, -, rfl⟩ := run_declareFunction_eq_ok.1 h
  rfl

theorem markWritten (x : Ident) : KeepsBreaks (markWritten x) := by
  intro a v a' h
  obtain ⟨t, -, rfl⟩ := run_markWritten_eq_ok.1 h
  rfl

theorem resolveType (allowVoid : Bool) (x : Ident) : KeepsBreaks (resolveType allowVoid x) :=
  fun _ _ _ h => (run_resolveType_eq_ok.1 h).2.2 ▸ rfl

theorem requireType (expected found : Ty) (pos : Position) : KeepsBreaks (requireType expected found pos) :=
  .ite (.pure ()) (.fail _ _)

theorem requireValue (expected found : Ty) (pos : Position) : KeepsBreaks (requireValue expected found pos) :=
  .ite (.fail _ _) (.pure ())

end KeepsBreaks

end Assembling

namespace Analysis

variable {s : Analysis} {α β : Type}

@[simp] theorem context_withAssembly (s : Analysis) (a : Assembly) : (s.withAssembly a).context = s.context := by
  obtain ⟨symbols, program, function, loops, inOperand⟩ := s
  cases loops <;> rfl

/-- Of two assemblies that are put in, the second stays. -/
theorem withAssembly_withAssembly (s : Analysis) (a b : Assembly) : (s.withAssembly a).withAssembly b = s.withAssembly b := by
  obtain ⟨symbols, program, function, loops, inOperand⟩ := s
  cases loops <;> rfl

/-- Putting in the assembly that is there changes nothing. -/
theorem withAssembly_assembly (s : Analysis) : s.withAssembly s.assembly = s := by
  obtain ⟨symbols, program, function, loops, inOperand⟩ := s
  cases loops <;> rfl

theorem breaks_assembly_of_loops (h : s.loops = []) : s.assembly.breaks = [] := by
  rw [assembly, h]
  rfl

/-- Jumps out of a loop wait only where there is a loop. -/
theorem assembly_withAssembly {a : Assembly} (h : s.loops = [] → a.breaks = []) : (s.withAssembly a).assembly = a := by
  obtain ⟨symbols, program, function, loops, inOperand⟩ := s
  cases loops with
  | nil =>
    obtain ⟨t, p, breaks⟩ := a
    obtain rfl : breaks = [] := h rfl
    rfl
  | cons => rfl

/-- Where the assembly succeeds, the analysis gives its value in the new state. -/
theorem outcome_of_ok {m : Assembling α} {x : α} {a : Assembly} (h : m.run s.assembly = .ok (x, a)) :
    s.outcome m = .ok (x, s.withAssembly a) := by rw [outcome, h]

/-- Where the assembly fails, the analysis refuses with its fault. -/
theorem outcome_of_error {m : Assembling α} {error : Diagnostic} (h : m.run s.assembly = .error error) :
    s.outcome m = .error (.refused error) := by rw [outcome, h]

/-- In the state `s`, the analysis `n` ends as the assembly `m` does, which leaves no jumps waiting outside loops. -/
structure Agrees (s : Analysis) (n : Analysing α) (m : Assembling α) : Prop where
  run_eq : n.run s = s.outcome m
  breaks_eq : ∀ x a, m.run s.assembly = .ok (x, a) → s.loops = [] → a.breaks = []

namespace Agrees

variable {n : Analysing α} {m : Assembling α}

/-- A value on both sides. -/
theorem pure (s : Analysis) (x : α) : Agrees s (pure x) (pure x) where
  run_eq := by
    rw [outcome]
    change _ = Except.ok (x, s.withAssembly s.assembly)
    rw [withAssembly_assembly]
    rfl
  breaks_eq := by
    rintro _ _ ⟨⟩ hloops
    exact breaks_assembly_of_loops hloops

theorem refuse (s : Analysis) (error : Diagnostic) : Agrees s (Analysing.refuse error : Analysing α) (throw error) :=
  ⟨rfl, fun _ _ h => (Assembling.run_throw_eq_ok.1 h).elim⟩

/-- A step of the assembly that leaves the waiting jumps alone. -/
theorem step {ctx : Context} {m : Context → Assembling α} (h : Assembling.KeepsBreaks (m ctx)) (hctx : s.context = ctx) :
    Agrees s (Analysing.step m) (m ctx) := by
  subst hctx
  exact ⟨rfl, fun x a hm hloops => (h _ x a hm).trans (breaks_assembly_of_loops hloops)⟩

/-- Steps that agree can be put in sequence. The second is taken in the state that the first leads to, in the same context. -/
theorem bind {k : α → Analysing β} {f : α → Assembling β} (h : Agrees s n m)
    (hk : ∀ x s', m.run s.assembly = .ok (x, s'.assembly) → s'.context = s.context → s'.inOperand = s.inOperand →
      s'.loops.isEmpty = s.loops.isEmpty → Agrees s' (k x) (f x)) : Agrees s (n >>= k) (m >>= f) := by
  cases hm : m.run s.assembly with
  | error error =>
    have hmf : (m >>= f).run s.assembly = .error error := by rw [StateT.run_bind, hm]; rfl
    refine ⟨?_, fun x a h' => by rw [hmf] at h'; cases h'⟩
    rw [StateT.run_bind, h.run_eq, outcome_of_error hm, outcome_of_error hmf]
    rfl
  | ok r =>
    obtain ⟨x, a⟩ := r
    have ha := assembly_withAssembly (h.breaks_eq x a hm)
    have hloops : (s.withAssembly a).loops.isEmpty = s.loops.isEmpty := by
      rw [withAssembly]
      cases s.loops <;> rfl
    have hnext := hk x (s.withAssembly a) (ha.symm ▸ hm) (s.context_withAssembly a) rfl hloops
    have hn : (n >>= k).run s = (k x).run (s.withAssembly a) := by
      rw [StateT.run_bind, h.run_eq, outcome_of_ok hm]
      rfl
    have hmf : (m >>= f).run s.assembly = (f x).run (s.withAssembly a).assembly := by
      rw [StateT.run_bind, hm, ha]
      rfl
    constructor
    · rw [hn, hnext.run_eq]
      cases hf : (f x).run (s.withAssembly a).assembly with
      | error error => rw [outcome_of_error hf, outcome_of_error (hmf.trans hf)]
      | ok r => rw [outcome_of_ok hf, outcome_of_ok (hmf.trans hf), withAssembly_withAssembly]
    · intro y b hy hnil
      rw [hmf] at hy
      refine hnext.breaks_eq y b hy ?_
      rwa [← List.isEmpty_iff, hloops, List.isEmpty_iff]

theorem get {k : Analysis → Analysing α} (h : Agrees s (k s) m) : Agrees s (MonadState.get >>= k) m := ⟨h.run_eq, h.breaks_eq⟩

/-- A step may be taken in a state with the same assembly if what differs is put back behind it. -/
theorem around {s' : Analysis} {n' : Analysing α} (h : Agrees s' n m) (back : Analysis → Analysis)
    (hassembly : s'.assembly = s.assembly) (hloops : s'.loops = s.loops) (hback : ∀ a, back (s'.withAssembly a) = s.withAssembly a)
    (hrun : n'.run s = (n.run s').map fun r => (r.1, back r.2)) : Agrees s n' m := by
  constructor
  · rw [hrun, h.run_eq]
    cases hm : m.run s'.assembly with
    | error error =>
      rw [outcome_of_error hm, outcome_of_error (hassembly ▸ hm)]
      rfl
    | ok r =>
      rw [outcome_of_ok hm, outcome_of_ok (hassembly ▸ hm), ← hback]
      rfl
  · rw [← hassembly, ← hloops]
    exact h.breaks_eq

/-- The note about operands is put back behind what is read. -/
theorem reading {inOperand : Bool} (h : Agrees { s with inOperand } n m) : Agrees s (Analysing.reading inOperand n) m := by
  refine h.around (fun s' => { s' with inOperand := s.inOperand }) rfl rfl (fun _ => rfl) ?_
  change (n.run { s with inOperand } >>= fun r => _) = _
  cases n.run { s with inOperand } <;> rfl

/-- The function that is read is noted while it is read, and no other before or behind. -/
theorem inFunction {returns : Ty} {n : Analysing Unit} {m : Assembling Unit} (hfunction : s.function = none)
    (h : Agrees { s with function := some returns } n m) : Agrees s (Analysing.inFunction returns n) m := by
  refine h.around (fun s' => { s' with function := none }) rfl rfl ?_ ?_
  · intro a
    rw [withAssembly, withAssembly, hfunction]
  · change (n.run { s with function := some returns } >>= fun r => _) = _
    cases n.run { s with function := some returns } <;> rfl

/-- The jumps out of a loop are gathered while its body is read. -/
theorem inLoop {head : Nat} {n : Analysing Unit} {m : Assembling Unit} (h : Agrees { s with loops := ⟨head, []⟩ :: s.loops } n m) :
    Agrees s (Analysing.inLoop head n) (do
      let outer ← Assembling.swapBreaks []
      m
      Assembling.swapBreaks outer) := by
  let s' : Analysis := { s with loops := ⟨head, []⟩ :: s.loops }
  let m' : Assembling (List Nat) := do
    let outer ← Assembling.swapBreaks []
    m
    Assembling.swapBreaks outer
  change Agrees s _ m'
  have hn : (Analysing.inLoop head n).run s = (n.run s').map fun r =>
      ((r.2.loops.head?.map Loop.breaks).getD [], { r.2 with loops := r.2.loops.tail }) := by
    change (n.run s' >>= fun r => _) = _
    cases n.run s' <;> rfl
  have hm' : m'.run s.assembly = (m.run s'.assembly).map fun r => (r.2.breaks, { r.2 with breaks := s.assembly.breaks }) := by
    change (m.run s'.assembly >>= fun r => _) = _
    cases m.run s'.assembly <;> rfl
  cases hm : m.run s'.assembly with
  | error error =>
    rw [hm] at hm'
    refine ⟨?_, fun _ _ h' => nomatch hm'.symm.trans h'⟩
    rw [hn, h.run_eq, outcome_of_error hm, outcome_of_error hm']
    rfl
  | ok r =>
    rw [hm] at hm'
    constructor
    · rw [hn, h.run_eq, outcome_of_ok hm, outcome_of_ok hm']
      have hback : s.withAssembly { r.2 with breaks := s.assembly.breaks } =
          { s with symbols := r.2.symbols, program := r.2.program } := by
        obtain ⟨symbols, program, function, loops, inOperand⟩ := s
        cases loops <;> rfl
      rw [hback]
      rfl
    · rintro _ _ h' hloops
      obtain rfl := congrArg Prod.snd (Except.ok.inj (hm'.symm.trans h'))
      exact breaks_assembly_of_loops hloops

/-- A jump that is there is patched. -/
theorem patch {n : Nat} {op : Operation} (hop : op = .jmp ∨ op = .jz) (h : s.program.operationAt? n = some op) :
    Agrees s (Analysing.patch n) (Assembling.patch n) := by
  obtain ⟨line, hline, rfl⟩ := Option.map_eq_some_iff.1 h
  have hpatch : (Analysing.patch n).run s = s.outcome (Assembling.patch n) := by
    unfold Analysing.patch
    simp only [StateT.run_bind, StateT.run_get, pure_bind, hline, if_pos hop]
    rfl
  refine ⟨hpatch, ?_⟩
  intro x a ha hloops
  obtain rfl := Assembling.run_patch_eq_ok.1 ha
  exact breaks_assembly_of_loops hloops

/-- Jumps that are there are patched one after the other. -/
theorem forM_patch {ns : List Nat} (h : ∀ n ∈ ns, s.program.operationAt? n = some .jmp) :
    Agrees s (ns.forM Analysing.patch) (ns.forM Assembling.patch) := by
  induction ns generalizing s with
  | nil => exact .pure s ()
  | cons n ns ih =>
    obtain ⟨hn, hns⟩ := List.forall_mem_cons.1 h
    refine (Agrees.patch (.inl rfl) hn).bind fun _ s' hs' _ _ _ => ih fun k hk => ?_
    have hpatch : s'.assembly = s.assembly.patch n := Assembling.run_patch_eq_ok.1 hs'
    have hk' := s.assembly.operationAt?_patch n k
    rw [← hpatch] at hk'
    exact hk'.trans (hns k hk)

end Agrees

/-- The same in every state in which the place has the given surroundings. -/
def AgreesIn (ctx : Context) (inOperand : Bool) (n : Analysing α) (m : Assembling α) : Prop :=
  ∀ s : Analysis, s.context = ctx → s.inOperand = inOperand → s.Agrees n m

namespace AgreesIn

variable {ctx : Context} {inOperand : Bool} {n : Analysing α} {m : Assembling α}

/-- A value on both sides, in every state. -/
theorem pure (x : α) : AgreesIn ctx inOperand (pure x) (pure x) := fun s _ _ => .pure s x

/-- A refusal on both sides, in every state. -/
theorem refuse (error : Diagnostic) : AgreesIn ctx inOperand (Analysing.refuse error : Analysing α) (throw error) :=
  fun s _ _ => .refuse s error

/-- A step of the assembly, in every state of its context. -/
theorem step {m : Context → Assembling α} (h : Assembling.KeepsBreaks (m ctx)) : AgreesIn ctx inOperand (Analysing.step m) (m ctx) :=
  fun _ hctx _ => .step h hctx

/-- Steps that agree in every state can be put in sequence. -/
theorem bind {k : α → Analysing β} {f : α → Assembling β} (h : AgreesIn ctx inOperand n m)
    (hk : ∀ x, AgreesIn ctx inOperand (k x) (f x)) : AgreesIn ctx inOperand (n >>= k) (m >>= f) := by
  intro s hctx hoperand
  refine (h s hctx hoperand).bind fun x s' _ hctx' hoperand' _ => ?_
  exact hk x s' (hctx'.trans hctx) (hoperand'.trans hoperand)

/-- The note about operands is set for what is read, and put back. -/
theorem reading {inOperand' : Bool} (h : AgreesIn ctx inOperand' n m) :
    AgreesIn ctx inOperand (Analysing.reading inOperand' n) m := by
  intro s hctx _
  exact Agrees.reading (h { s with inOperand := inOperand' } hctx rfl)

end AgreesIn

namespace Agrees

/-- The innermost loop is found in the state where the emission finds it in its context. -/
theorem innermost {ctx : Context} (hctx : s.context = ctx) (keyword : Token.Kind) (pos : Position) :
    Agrees s (Analysing.innermost keyword pos) (Stmt.loopHead ctx keyword pos) := by
  subst hctx
  refine .get ?_
  rw [Stmt.loopHead, context]
  cases s.loops with
  | nil => exact .refuse s _
  | cons loop outer => exact .pure s loop.head

/-- Inside a loop, a jump out of it is added to those that wait. -/
theorem addBreak (h : s.loops ≠ []) (jump : Nat) :
    Agrees s (Analysing.addBreak jump) (modify fun a => { a with breaks := jump :: a.breaks }) := by
  refine ⟨?_, fun _ _ _ hloops => (h hloops).elim⟩
  obtain ⟨symbols, program, function, loops, inOperand⟩ := s
  cases loops with
  | nil => exact (h rfl).elim
  | cons => rfl

end Agrees

end Analysis

/-! ## Expressions -/

namespace Expr

open Analysis Assembling

/-- Reading a variable leaves the waiting jumps alone. -/
theorem keepsBreaks_emitLoad (ctx : Context) (x : Ident) : KeepsBreaks (emitLoad ctx x) := by
  refine .bind (.lookup x) fun b => ?_
  cases b with
  | function => exact .fail _ _
  | storage v => exact .ite (.bind (.emit _ _ _) fun _ => .pure _) (.fail _ _)

/-- Looking up a callee leaves them alone. -/
theorem keepsBreaks_callable (x : Ident) : KeepsBreaks (callable x) := by
  refine .bind (.lookup x) fun b => ?_
  cases b with
  | function => exact .pure _
  | storage => exact .fail _ _

/-- Looking up the target of an assignment leaves them alone. -/
theorem keepsBreaks_assignable (x : Ident) : KeepsBreaks (assignable x) := by
  refine .bind (.lookup x) fun b => ?_
  cases b with
  | function => exact .fail _ _
  | storage => exact .ite (.fail _ _) (.pure _)

mutual

/-- Reading an expression is emitting it, with assignments as operands refused. -/
theorem agrees (ctx : Context) (inOperand : Bool) (e : Expr) : AgreesIn ctx inOperand e.analyse ((e.barred inOperand).emit ctx) := by
  cases e with
  | int pos n =>
    rw [analyse, barred]
    refine .step ?_
    rw [emit]
    exact .bind (.emit _ _ _) fun _ => .pure _
  | literal pos kind =>
    rw [analyse, barred]
    refine .step ?_
    rw [emit]
    exact .fail _ _
  | var x =>
    rw [analyse, barred, emit]
    exact .step (keepsBreaks_emitLoad ctx x)
  | call f args =>
    rw [analyse, barred, emit, length_barredAll]
    refine .bind (.step (keepsBreaks_callable f)) fun s => .bind (agrees_arguments ctx inOperand s.params args) fun _ => ?_
    exact .step (.ite (.bind (.emit _ _ _) fun _ => .pure _) (.fail _ _))
  | assign x value =>
    intro s hctx hoperand
    rw [analyse, barred]
    refine .get ?_
    cases inOperand with
    | true =>
      rw [if_pos hoperand, if_pos rfl, emit]
      exact .refuse s _
    | false =>
      rw [if_neg (Bool.not_eq_true _ ▸ hoperand), if_neg Bool.false_ne_true, emit, start_barred]
      refine AgreesIn.bind (.step (keepsBreaks_assignable x)) (fun v => ?_) s hctx hoperand
      refine .bind (.reading (agrees ctx false value)) fun ty => .bind (.step (.requireType _ _ _)) fun _ => ?_
      exact .bind (.step (.markWritten _)) fun _ => .bind (.step (.emit _ _ _)) fun _ => .pure _
  | paren pos inner =>
    rw [analyse, barred, emit]
    exact .reading (agrees ctx false inner)
  | neg pos operand =>
    rw [analyse, barred, emit, start_barred]
    refine .bind (.step (.emit _ _ _)) fun _ => .bind (.reading (agrees ctx true operand)) fun ty => ?_
    exact .bind (.step (.requireValue _ _ _)) fun _ => .bind (.step (.emit _ _ _)) fun _ => .pure _
  | cast value pos target =>
    rw [analyse, barred, emit]
    refine .bind (agrees ctx inOperand value) fun source => .bind (.step (.resolveType _ _)) fun ty => ?_
    exact .bind (.step (.requireValue _ _ _)) fun _ => .pure _
  | binary left op pos right =>
    rw [analyse, barred, emit]
    refine .bind (agrees ctx inOperand left) fun leftTy => .bind (.reading (agrees ctx true right)) fun rightTy => ?_
    refine .bind (.step (.requireValue _ _ _)) fun _ => .bind (.step (.requireType _ _ _)) fun _ => ?_
    exact .bind (.step (.emit _ _ _)) fun _ => .pure _
  | fault error =>
    rw [analyse, barred, emit]
    exact .refuse error
  | cut read error =>
    rw [analyse, barred, emit]
    exact .bind (.reading (agrees ctx false read)) fun _ => .refuse error

/-- Reading the arguments of a call is emitting them. -/
theorem agrees_arguments (ctx : Context) (inOperand : Bool) (tys : List Ty) (es : List Expr) :
    AgreesIn ctx inOperand (analyseArguments tys es) (emitArguments ctx tys (barredAll es)) := by
  cases es with
  | nil =>
    rw [analyseArguments, barredAll, emitArguments]
    exact .pure ()
  | cons e es =>
    cases tys with
    | nil =>
      rw [analyseArguments, barredAll, emitArguments]
      exact .bind (.reading (agrees ctx false e)) fun _ => agrees_arguments ctx inOperand [] es
    | cons ty tys =>
      rw [analyseArguments, barredAll, emitArguments, start_barred]
      refine .bind (.reading (agrees ctx false e)) fun found => ?_
      exact .bind (.step (.requireType _ _ _)) fun _ => agrees_arguments ctx inOperand tys es

end

end Expr

/-! ## Statements -/

namespace Stmt

open Analysis Assembling

/-- Checking a return leaves the waiting jumps alone. -/
theorem keepsBreaks_checkReturn (ctx : Context) (found : Ty) (pos : Position) : KeepsBreaks (checkReturn ctx found pos) := by
  unfold checkReturn
  cases ctx.function with
  | none => exact .pure ()
  | some expected => exact .requireType _ _ _

/-- Reading a condition is emitting it. -/
theorem agrees_condition (ctx : Context) (inOperand : Bool) (condition : Expr) :
    AgreesIn ctx inOperand (analyseCondition condition) (emitCondition ctx (condition.barred false)) := by
  unfold analyseCondition emitCondition
  rw [Expr.start_barred]
  exact .bind (.reading (condition.agrees ctx false)) fun _ => .step (.requireValue _ _ _)

/-- Reading a declaration is emitting it. -/
theorem agrees_decl (ctx : Context) (inOperand : Bool) (pos : Position) (constant : Bool) (x ty : Ident) (init : Option Expr) :
    AgreesIn ctx inOperand (analyseDecl pos constant x ty init) (emitDecl ctx pos constant x ty (init.map (Expr.barred false))) := by
  refine .bind (.step (.resolveType _ _)) fun found => .bind (.step (.declare _ _ _)) fun v => ?_
  cases init with
  | none => exact .pure ()
  | some value =>
    change AgreesIn ctx inOperand _ (emitInit ctx pos x v (value.barred false))
    unfold emitInit
    rw [Expr.start_barred]
    refine .bind (.reading (value.agrees ctx false)) fun _ => .bind (.step (.requireType _ _ _)) fun _ => ?_
    exact .bind (.step (.emit _ _ _)) fun _ => .step (.markWritten _)

/-- The body of a loop, with the jumps out of it put aside, is one step. -/
theorem emit_loop (ctx : Context) (pos : Position) (condition : Expr) (body : Stmt) :
    (loop pos condition body).emit ctx = (do
      let head ← nextAddress
      emitCondition ctx condition
      let done ← emitJump .jz pos
      let breaks ← (do
        let outer ← swapBreaks []
        body.emit { ctx with loop := some head }
        swapBreaks outer)
      Assembling.emit .jmp (some head) pos
      Assembling.patch done
      breaks.forM Assembling.patch) := by
  rw [emit]
  simp only [bind_assoc]

/-- Behind the body of a loop, what stood before it is there, and so are the jumps that wait. -/
theorem appends_body {ctx : Context} {body : Stmt} {a a' : Assembly} {breaks : List Nat}
    (h : (do
      let outer ← swapBreaks []
      body.emit ctx
      swapBreaks outer : Assembling (List Nat)).run a = .ok (breaks, a')) :
    a.code <+: a'.code ∧ ∀ n ∈ breaks, a'.program.operationAt? n = some .jmp := by
  simp only [run_bind_eq_ok, run_swapBreaks_eq_ok] at h
  obtain ⟨_, _, ⟨rfl, rfl⟩, _, a₁, hbody, rfl, rfl⟩ := h
  obtain ⟨waiting, hbreaks, hwaiting⟩ := (appends hbody).breaks
  refine ⟨(appends hbody).code, fun n hn => (hwaiting n ?_).2⟩
  rwa [hbreaks, List.append_nil] at hn

/-- Reading a statement is emitting it, with assignments as operands refused. In particular there is a jump wherever one is to be
patched. -/
theorem agrees (ctx : Context) (inOperand : Bool) (s : Stmt) : AgreesIn ctx inOperand s.analyse (s.barred.emit ctx) := by
  induction s generalizing ctx with
  | nil | empty =>
    rw [analyse, barred, emit]
    exact .pure ()
  | seq first rest ihfirst ihrest =>
    rw [analyse, barred, emit]
    exact .bind (ihfirst ctx) fun _ => ihrest ctx
  | decl pos constant x ty init =>
    rw [analyse, barred, emit]
    exact agrees_decl ctx inOperand pos constant x ty init
  | expr value =>
    rw [analyse, barred, emit, Expr.start_barred]
    refine .bind (.reading (value.agrees ctx false)) fun ty => ?_
    split
    · exact .step (.emit _ _ _)
    · exact .pure _
  | block body ih =>
    rw [analyse, barred, emit]
    exact .bind (.step (.modifySymbols _)) fun _ => .bind (ih ctx) fun _ => .step (.modifySymbols _)
  | ifThen pos condition body ih =>
    rw [analyse, barred, emit]
    refine .bind (agrees_condition ctx inOperand condition) fun _ => ?_
    intro s hctx hoperand
    refine (Agrees.step (.emitJump _ _) hctx).bind fun skip s₁ h₁ hctx₁ hoperand₁ _ => ?_
    refine (ih ctx s₁ (hctx₁.trans hctx) (hoperand₁.trans hoperand)).bind fun _ s₂ h₂ _ _ _ => ?_
    exact .patch (.inr rfl) (Assembly.operationAt?_of_isPrefix (appends h₂).code (Assembly.operationAt?_of_emitJump h₁))
  | ifElse pos condition body elsePos other ihbody ihother =>
    rw [analyse, barred, emit]
    refine .bind (agrees_condition ctx inOperand condition) fun _ => ?_
    intro s hctx hoperand
    refine (Agrees.step (.emitJump _ _) hctx).bind fun skip s₁ h₁ hctx₁ hoperand₁ _ => ?_
    replace hctx₁ := hctx₁.trans hctx
    replace hoperand₁ := hoperand₁.trans hoperand
    refine (ihbody ctx s₁ hctx₁ hoperand₁).bind fun _ s₂ h₂ hctx₂ hoperand₂ _ => ?_
    replace hctx₂ := hctx₂.trans hctx₁
    refine (Agrees.step (.emitJump _ _) hctx₂).bind fun done s₃ h₃ hctx₃ hoperand₃ _ => ?_
    have hskip := Assembly.operationAt?_of_isPrefix ((appends h₂).trans (.emitJump h₃)).code (Assembly.operationAt?_of_emitJump h₁)
    have hdone := Assembly.operationAt?_of_emitJump h₃
    refine (Agrees.patch (.inr rfl) hskip).bind fun _ s₄ h₄ hctx₄ hoperand₄ _ => ?_
    replace hoperand₄ := hoperand₄.trans (hoperand₃.trans (hoperand₂.trans hoperand₁))
    refine (ihother ctx s₄ (hctx₄.trans (hctx₃.trans hctx₂)) hoperand₄).bind fun _ s₅ h₅ _ _ _ => ?_
    rw [← Assembly.operationAt?_of_patch h₄] at hdone
    exact .patch (.inl rfl) (Assembly.operationAt?_of_isPrefix (appends h₅).code hdone)
  | loop pos condition body ih =>
    rw [analyse, barred, emit_loop]
    refine .bind (.step (m := fun _ => nextAddress) .nextAddress) fun head => ?_
    refine .bind (agrees_condition ctx inOperand condition) fun _ => ?_
    intro s hctx hoperand
    refine (Agrees.step (.emitJump _ _) hctx).bind fun done s₁ h₁ hctx₁ hoperand₁ _ => ?_
    have hbody : Agrees { s₁ with loops := ⟨head, []⟩ :: s₁.loops } body.analyse
      (body.barred.emit { ctx with loop := some head }) := by
      refine ih _ _ ?_ (hoperand₁.trans hoperand)
      rw [← hctx, ← hctx₁]
      rfl
    refine (Agrees.inLoop hbody).bind fun breaks s₂ h₂ hctx₂ _ _ => ?_
    refine (Agrees.step (.emit _ _ _) (hctx₂.trans (hctx₁.trans hctx))).bind fun _ s₃ h₃ hctx₃ _ _ => ?_
    -- the waiting jumps were emitted in the body, and the one at its start before it
    obtain ⟨hcode, hbreaks⟩ := appends_body h₂
    have hpush : s₂.assembly.Appends s₃.assembly := run_emit_eq_ok.1 h₃ ▸ .push _ _ _ _
    have hdone := Assembly.operationAt?_of_isPrefix (hcode.trans hpush.code) (Assembly.operationAt?_of_emitJump h₁)
    refine (Agrees.patch (.inr rfl) hdone).bind fun _ s₄ h₄ _ _ _ => .forM_patch fun n hn => ?_
    exact (Assembly.operationAt?_of_patch h₄).trans (Assembly.operationAt?_of_isPrefix hpush.code (hbreaks n hn))
  | leave pos =>
    rw [analyse, barred, emit]
    intro s hctx hoperand
    refine (Agrees.innermost hctx .kwBreak pos).bind fun head s₁ h₁ hctx₁ _ hloops₁ => ?_
    refine (Agrees.step (.emitJump _ _) (hctx₁.trans hctx)).bind fun jump s₂ _ _ _ hloops₂ => ?_
    refine .addBreak ?_ jump
    intro hnil
    have hnil : s.loops = [] := by
      rw [← List.isEmpty_iff, ← hloops₁, ← hloops₂, hnil]
      rfl
    have hhead := (run_loopHead.1 h₁).1
    rw [← hctx, context, hnil] at hhead
    cases hhead
  | again pos =>
    rw [analyse, barred, emit]
    exact .bind (fun s hctx _ => .innermost hctx .kwContinue pos) fun head => .step (.emit _ _ _)
  | ret pos stop =>
    rw [analyse, barred, emit]
    exact .bind (.step (keepsBreaks_checkReturn _ _ _)) fun _ => .step (.emit _ _ _)
  | retValue pos value =>
    rw [analyse, barred, emit, Expr.start_barred]
    refine .bind (.reading (value.agrees ctx false)) fun ty => ?_
    exact .bind (.step (keepsBreaks_checkReturn _ _ _)) fun _ => .step (.emit _ _ _)
  | fault error =>
    rw [analyse, barred, emit]
    exact .refuse error

end Stmt

end C0Stack
