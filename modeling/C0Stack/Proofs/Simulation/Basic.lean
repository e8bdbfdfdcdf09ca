import C0Stack.Proofs.Simulation.Slots

/-!
# The machine follows the semantics

Where the code of an expression or of a statement stands in the program, the machine executes it as the semantics says. An
expression puts its value on the stack, if it has one. A statement leaves the stack as it was; where the machine then is depends on
how the statement ends (`Machine.Lands`). In both cases the variables have the same values in the store and in the frames.

All is proved in one induction over the derivation of the semantics, since a call executes a body, and a body evaluates expressions.
-/

namespace C0Stack

variable {V : Type}

/-- A variable has a type that has values, and a function, which only code inside functions can see, is the one that is linked. -/
def Binding.Linked (link : String → Option Signature) (inside : Bool) (x : String) : Binding → Prop
  | .storage v => v.ty ≠ .void
  | .function f => inside = true ∧ link x = some f

/-- Whether a variable has been written does not matter. -/
theorem Binding.linked_markWritten {link : String → Option Signature} {inside : Bool} (x : String) (b : Binding) :
    b.markWritten.Linked link inside x ↔ b.Linked link inside x := by
  cases b <;> rfl

/-- The code of the procedure is in the program, at the entry of the signature, and the machine knows how to call it. -/
structure Machine.Loaded (M : Machine V) (link : String → Option Signature) (globals : List String) (f : Signature)
    (d : Procedure) : Prop where
  isVoid : d.isVoid = true ↔ f.returns = .void
  arity : M.arity f.entry = d.params.length
  body : ∃ code close t t', Stmt.Compiled ⟨some f.returns, none⟩ 0 t f.entry d.body code t' ∧
    M.Placed f.entry (code ++ [⟨⟨.ret, none⟩, close⟩]) ∧ t.All (Binding.Linked link true) ∧
    t.Fits ⟨some f.returns, none⟩ globals ⟨some d.params.reverse, globals⟩

/-- Every function that is linked is loaded. -/
def Machine.Links (M : Machine V) (F : String → Option Procedure) (link : String → Option Signature) (globals : List String) :
    Prop :=
  ∀ x f, link x = some f → ∃ d, F x = some d ∧ M.Loaded link globals f d

/-- The machine gets from the state to the address, with these operands and the values of the store in its frames. -/
def Machine.Computes (M : Machine V) (σ : Store V) (s : State V) (pc : Nat) (stack : List V) : Prop :=
  ∃ frames, M.Steps s ⟨pc, stack, frames, s.callers⟩ ∧ σ.Kept frames

/-- Where the machine gets by executing a statement that ends in this way: to the address behind the statement, to the end or to
the condition of the loop around it, or to a `RET` with the returned value on the stack. -/
def Machine.Lands (M : Machine V) (ctx : Context) (globals : List String) (exit stop : Nat) (t : SymbolTable) (s : State V)
    (σ : Store V) : Ending V → Prop
  | .normal => M.Computes σ s stop s.stack ∧ t.Fits ctx globals σ.names
  | .broke => ctx.loop.isSome ∧ M.Computes σ s exit s.stack
  | .continued => ∃ head, ctx.loop = some head ∧ M.Computes σ s head s.stack
  | .returned r => (∀ ty, ctx.function = some ty → (r.isSome ↔ ty ≠ .void)) ∧
      ∃ pc, M.fetch pc = some ⟨.ret, none⟩ ∧ M.Computes σ s pc (r.toList ++ s.stack)

namespace Machine

variable {M : Machine V}

/-- Steps in front. -/
theorem Computes.of_steps {σ : Store V} {s s' : State V} {pc : Nat} {stack : List V} (h : M.Computes σ s' pc stack)
    (hs : M.Steps s s') (hcallers : s'.callers = s.callers) : M.Computes σ s pc stack := by
  obtain ⟨frames, hsteps, hkept⟩ := h
  exact ⟨frames, hcallers ▸ hs.trans hsteps, hkept⟩

namespace Lands

variable {ctx : Context} {globals : List String} {exit stop : Nat} {t : SymbolTable} {s s' : State V} {σ : Store V} {o : Ending V}

/-- Steps in front that leave the stack and the callers. -/
theorem of_steps (h : M.Lands ctx globals exit stop t s' σ o) (hs : M.Steps s s') (hstack : s'.stack = s.stack)
    (hcallers : s'.callers = s.callers) : M.Lands ctx globals exit stop t s σ o := by
  cases o with
  | normal => exact ⟨hstack ▸ h.1.of_steps hs hcallers, h.2⟩
  | broke => exact ⟨h.1, hstack ▸ h.2.of_steps hs hcallers⟩
  | continued =>
    obtain ⟨head, hhead, h⟩ := h
    exact ⟨head, hhead, hstack ▸ h.of_steps hs hcallers⟩
  | returned r =>
    obtain ⟨hty, pc, hret, h⟩ := h
    exact ⟨hty, pc, hret, hstack ▸ h.of_steps hs hcallers⟩

/-- A statement that does not end behind itself ends the statement around it in the same way. -/
theorem of_ne_normal (h : M.Lands ctx globals exit stop t s σ o) (ho : o ≠ .normal) (stop' : Nat) (t' : SymbolTable) :
    M.Lands ctx globals exit stop' t' s σ o := by
  cases o with
  | normal => exact absurd rfl ho
  | broke | continued | returned => exact h

end Lands

end Machine

/-- A scope opened by a statement that declares nothing for what comes after it is closed again, but by a return. -/
theorem Exec.names_eq_of_scoped {A : Arithmetic V} {F : String → Option Procedure} {σ σ' : Store V} {s : Stmt} {o : Ending V}
    (h : Exec A F σ s o σ') (hs : s.Scoped) (ho : ∀ r, o ≠ .returned r) : σ'.names = σ.names := by
  induction s generalizing σ σ' o with
  | block body =>
    cases h with
    | block h =>
      cases o with
      | returned r => exact absurd rfl (ho r)
      | _ => exact Store.names_keep h.extends
  | ifThen pos c body ih =>
    cases h with
    | ifTrue hc _ h => rw [ih h hs ho, hc.names_eq]
    | ifFalse hc => exact hc.names_eq
  | ifElse pos c body elsePos other ih ih' =>
    cases h with
    | elseTrue hc _ h => rw [ih h hs.1 ho, hc.names_eq]
    | elseFalse hc _ h => rw [ih' h hs.2 ho, hc.names_eq]
  | _ => exact hs.elim

/-- An expression that has a type leaves scopes that belong to a table with the same slots. -/
theorem HasType.exists_table {t : SymbolTable} {e : Expr} {ty : Ty} {Γ : Scopes} (h : HasType t.scopes e ty Γ) :
    ∃ t' : SymbolTable, t'.scopes = Γ ∧ t'.written = t.written := by
  obtain ⟨a, hrun, hscopes⟩ := Expr.exists_emit .outermost (a := ⟨t, .empty, []⟩) h
  exact ⟨a.symbols, hscopes, (Expr.emitted hrun).written⟩

section

variable {M : Machine V} {F : String → Option Procedure} {link : String → Option Signature} {globals : List String}

/-- What holds where a part of the tree is about to be executed: the table knows the functions, gives each variable its place, and
the values are there. -/
structure Ready (link : String → Option Signature) (globals : List String) (ctx : Context) (t : SymbolTable) (σ : Store V)
    (frames : Frames (Memory V)) : Prop where
  linked : t.All (Binding.Linked link ctx.function.isSome)
  fits : t.Fits ctx globals σ.names
  kept : σ.Kept frames

namespace Ready

variable {ctx : Context} {t t' : SymbolTable} {σ σ' : Store V} {frames frames' : Frames (Memory V)}

/-- Before anything is declared, code outside functions can be executed. -/
theorem initial : Ready link globals .outermost .empty (Store.empty : Store V) (State.initial V).frames where
  linked := by
    intro f hf x b hb
    obtain rfl := List.mem_singleton.1 hf
    cases hb
  fits := ⟨rfl, nofun, nofun, rfl, nofun⟩
  kept := ⟨.none, trivial⟩

/-- Whether variables have been written does not matter. -/
theorem of_written (h : Ready link globals ctx t σ frames) (ht : t'.written = t.written) :
    Ready link globals ctx t' σ frames :=
  ⟨h.linked.of_written Binding.linked_markWritten ht, h.fits.of_written ht, h.kept⟩

/-- The values may change, as long as they are in the frames too. -/
theorem of_names (h : Ready link globals ctx t σ frames) (hn : σ'.names = σ.names) (hk : σ'.Kept frames') :
    Ready link globals ctx t σ' frames' :=
  ⟨h.linked, hn ▸ h.fits, hk⟩

/-- Nor does the loop around matter. -/
theorem of_function (h : Ready link globals ctx t σ frames) {ctx' : Context} (hctx : ctx'.function = ctx.function) :
    Ready link globals ctx' t σ frames :=
  ⟨hctx ▸ h.linked, h.fits.of_function hctx, h.kept⟩

end Ready

/-! ## Expressions -/

/-- Wherever the code of the expression stands, the machine evaluates it so. -/
def Machine.Evaluates (M : Machine V) (link : String → Option Signature) (globals : List String) (σ : Store V) (e : Expr)
    (r : Option V) (σ' : Store V) : Prop :=
  ∀ ⦃ctx : Context⦄ ⦃t : SymbolTable⦄ ⦃ty : Ty⦄ ⦃Γ : Scopes⦄ ⦃base : Nat⦄ ⦃frames : Frames (Memory V)⦄ (stack : List V)
    (callers : List (Nat × Option (Memory V))), HasType t.scopes e ty Γ → Ready link globals ctx t σ frames →
    M.Placed base (e.code ctx t) →
    M.Computes σ' ⟨base, stack, frames, callers⟩ (base + (e.code ctx t).length) (r.toList ++ stack) ∧ (r.isSome ↔ ty ≠ .void)

/-- Wherever the code of the expressions stands, the machine evaluates them so. -/
def Machine.EvaluatesAll (M : Machine V) (link : String → Option Signature) (globals : List String) (σ : Store V)
    (es : List Expr) (vs : List V) (σ' : Store V) : Prop :=
  ∀ ⦃ctx : Context⦄ ⦃t : SymbolTable⦄ ⦃tys : List Ty⦄ ⦃Γ : Scopes⦄ ⦃base : Nat⦄ ⦃frames : Frames (Memory V)⦄ (stack : List V)
    (callers : List (Nat × Option (Memory V))), HaveTypes t.scopes es tys Γ → Ready link globals ctx t σ frames →
    M.Placed base (Expr.codeOfAll ctx t es) →
    M.Computes σ' ⟨base, stack, frames, callers⟩ (base + (Expr.codeOfAll ctx t es).length) (vs.reverse ++ stack)

/-- Wherever the code of the statement stands, the machine executes it so. -/
def Machine.Executes (M : Machine V) (link : String → Option Signature) (globals : List String) (σ : Store V) (s : Stmt)
    (o : Ending V) (σ' : Store V) : Prop :=
  ∀ ⦃ctx : Context⦄ ⦃exit : Nat⦄ ⦃t : SymbolTable⦄ ⦃base : Nat⦄ ⦃code : List CodeLine⦄ ⦃t' : SymbolTable⦄
    ⦃frames : Frames (Memory V)⦄ (stack : List V) (callers : List (Nat × Option (Memory V))),
      Stmt.Compiled ctx exit t base s code t' →
    Ready link globals ctx t σ frames → M.Placed base code →
    M.Lands ctx globals exit (base + code.length) t' ⟨base, stack, frames, callers⟩ σ' o

namespace Machine.Evaluates

variable {σ σ₁ σ₂ : Store V} {pos : Position} {e left right : Expr} {r : Option V} {v w z : V} {x : Ident}

/-- A literal is put on the stack. -/
theorem int {n : UInt64} : M.Evaluates link globals σ (.int pos n) (some (M.literal n.toNat)) σ := by
  intro ctx t ty Γ base frames stack callers ht hr hp
  cases ht
  rw [Expr.code] at hp ⊢
  exact ⟨⟨frames, steps_lit hp.1, hr.kept⟩, by simp⟩

/-- A variable is read from its place. -/
theorem var (hx : σ.read x.name = some v) : M.Evaluates link globals σ (.var x) (some v) σ := by
  intro ctx t ty Γ base frames stack callers ht hr hp
  cases ht with
  | var hfind =>
    obtain ⟨y, hy, rfl, -⟩ := SymbolTable.find?_scopes_eq_var.1 hfind
    rw [Expr.code, SymbolTable.codeFor_of_find? hy, Context.loadCode] at hp ⊢
    have hread := hr.kept.read hx (hr.fits.located x.name y hy)
    have hty : y.ty ≠ .void := hr.linked.of_find? hy
    exact ⟨⟨frames, steps_load hp.1 hread, hr.kept⟩, by simpa using hty⟩

/-- The value is stored in the place of the variable. -/
theorem assign (he : M.Evaluates link globals σ e (some v) σ₁) (hn : σ₁.names = σ.names) (hx : σ₁.write? x.name v = some σ₂) :
    M.Evaluates link globals σ (.assign x e) none σ₂ := by
  intro ctx t ty Γ base frames stack callers ht hr hp
  cases ht with
  | assign hfind hty =>
    obtain ⟨y, hy, -⟩ := SymbolTable.find?_scopes_eq_var.1 hfind
    rw [Expr.code, SymbolTable.codeFor_of_find? hy, Context.storeCode] at hp ⊢
    obtain ⟨hpe, hstore, -⟩ := placed_append.1 hp
    obtain ⟨⟨frames₁, hsteps, hkept⟩, -⟩ := he stack callers hty hr hpe
    have hl : σ₁.names.locate x.name = some (ctx.location y) := hn ▸ hr.fits.located x.name y hy
    rw [List.length_append, ← Nat.add_assoc]
    exact ⟨⟨_, hsteps.trans (steps_store hstore), hkept.write hx hl⟩, by simp⟩

/-- Parentheses have no code of their own. -/
theorem paren (he : M.Evaluates link globals σ e r σ₁) : M.Evaluates link globals σ (.paren pos e) r σ₁ := by
  intro ctx t ty Γ base frames stack callers ht hr hp
  cases ht with
  | paren hty =>
    rw [Expr.code] at hp ⊢
    exact he stack callers hty hr hp

/-- The operand is subtracted from zero. -/
theorem neg (he : M.Evaluates link globals σ e (some v) σ₁) (hw : M.apply .sub (M.literal 0) v = some w) :
    M.Evaluates link globals σ (.neg pos e) (some w) σ₁ := by
  intro ctx t ty Γ base frames stack callers ht hr hp
  cases ht with
  | neg hty hvoid =>
    rw [Expr.code] at hp ⊢
    obtain ⟨hlit, hp⟩ := placed_cons.1 hp
    obtain ⟨hpe, hsub, -⟩ := placed_append.1 hp
    change M.fetch _ = some ⟨BinaryOp.sub.operation, none⟩ at hsub
    obtain ⟨⟨frames₁, hsteps, hkept⟩, -⟩ := he (M.literal 0 :: stack) callers hty hr hpe
    rw [List.length_cons, List.length_append, Nat.add_comm _ 1, ← Nat.add_assoc, ← Nat.add_assoc]
    exact ⟨⟨frames₁, (steps_lit hlit).trans (hsteps.trans (steps_binary hsub hw)), hkept⟩, by simpa using hvoid⟩

/-- A cast has no code of its own. -/
theorem cast {target : Ident} (he : M.Evaluates link globals σ e (some v) σ₁) :
    M.Evaluates link globals σ (.cast e pos target) (some v) σ₁ := by
  intro ctx t ty Γ base frames stack callers ht hr hp
  cases ht with
  | cast hty _ _ hvoid =>
    rw [Expr.code] at hp ⊢
    exact ⟨(he stack callers hty hr hp).1, by simpa using hvoid⟩

/-- Both operands are put on the stack, and the operator takes them. -/
theorem binary {op : BinaryOp} (hl : M.Evaluates link globals σ left (some v) σ₁) (hn : σ₁.names = σ.names)
    (hr : M.Evaluates link globals σ₁ right (some w) σ₂) (hz : M.apply op v w = some z) :
    M.Evaluates link globals σ (.binary left op pos right) (some z) σ₂ := by
  intro ctx t ty Γ base frames stack callers ht hready hp
  cases ht with
  | @binary _ _ _ _ _ _ _ operand htl htr hvoid =>
    obtain ⟨t₁, rfl, hw₁⟩ := htl.exists_table
    rw [Expr.code, ← Expr.code_eq_of_written hw₁ ctx right] at hp ⊢
    obtain ⟨hpl, hp⟩ := placed_append.1 hp
    obtain ⟨hpr, hop, -⟩ := placed_append.1 hp
    obtain ⟨⟨frames₁, hsteps₁, hkept₁⟩, -⟩ := hl stack callers htl hready hpl
    have hready₁ := (hready.of_names hn hkept₁).of_written hw₁
    obtain ⟨⟨frames₂, hsteps₂, hkept₂⟩, -⟩ := hr (v :: stack) callers htr hready₁ hpr
    rw [List.length_append, List.length_append, ← Nat.add_assoc, ← Nat.add_assoc]
    refine ⟨⟨frames₂, hsteps₁.trans (hsteps₂.trans (steps_binary hop hz)), hkept₂⟩, ?_⟩
    have hresult : op.resultType operand ≠ .void := by
      unfold BinaryOp.resultType
      split
      · exact Ty.noConfusion
      · exact hvoid
    simpa using hresult

end Machine.Evaluates

namespace Machine.EvaluatesAll

variable {σ σ₁ σ₂ : Store V} {e : Expr} {es : List Expr} {v : V} {vs : List V}

/-- Without arguments nothing is put on the stack. -/
theorem nil : M.EvaluatesAll link globals σ [] [] σ := by
  intro ctx t tys Γ base frames stack callers _ hr _
  exact ⟨frames, .refl, hr.kept⟩

/-- The arguments are put on the stack in order. -/
theorem cons (he : M.Evaluates link globals σ e (some v) σ₁) (hn : σ₁.names = σ.names)
    (hes : M.EvaluatesAll link globals σ₁ es vs σ₂) : M.EvaluatesAll link globals σ (e :: es) (v :: vs) σ₂ := by
  intro ctx t tys Γ base frames stack callers ht hr hp
  cases ht with
  | cons hty htys =>
    obtain ⟨t₁, rfl, hw₁⟩ := hty.exists_table
    rw [Expr.codeOfAll, ← Expr.codeOfAll_eq_of_written hw₁ ctx es] at hp ⊢
    obtain ⟨hpe, hpes⟩ := placed_append.1 hp
    obtain ⟨⟨frames₁, hsteps₁, hkept₁⟩, -⟩ := he stack callers hty hr hpe
    have hr₁ := (hr.of_names hn hkept₁).of_written hw₁
    obtain ⟨frames₂, hsteps₂, hkept₂⟩ := hes (v :: stack) callers htys hr₁ hpes
    rw [List.length_append, ← Nat.add_assoc, List.reverse_cons, List.append_assoc]
    exact ⟨frames₂, hsteps₁.trans hsteps₂, hkept₂⟩

end Machine.EvaluatesAll

/-! ### Calls -/

/-- From the entry of a loaded procedure the machine executes the body and returns to the caller, with the result on the stack. -/
theorem Machine.Loaded.returns {f : Signature} {d : Procedure} (hl : M.Loaded link globals f d) {σ σ' : Store V} {vs : List V}
    {o : Ending V} {r : Option V} {frames : Frames (Memory V)} (hlen : vs.length = d.params.length)
    (hglobals : σ.names.global = globals) (hkept : σ.Kept frames)
    (hbody : M.Executes link globals ⟨some (Env.ofParams d.params vs), σ.global⟩ d.body o σ') (hgives : d.Gives o r) (pc : Nat)
    (stack : List V) (callers : List (Nat × Option (Memory V))) :
    (∃ global, M.Steps
        ⟨f.entry, stack, ⟨some fun slot => vs[slot]?, frames.global⟩, (pc, frames.inner) :: callers⟩
        ⟨pc, r.toList ++ stack, ⟨frames.inner, global⟩, callers⟩ ∧ σ'.global.Held global) ∧
      (r.isSome ↔ f.returns ≠ .void) := by
  obtain ⟨code, close, t, t', hcompiled, hplaced, hlinked, hfits⟩ := hl.body
  obtain ⟨hpcode, hret, -⟩ := placed_append.1 hplaced
  have hready : Ready link globals ⟨some f.returns, none⟩ t ⟨some (Env.ofParams d.params vs), σ.global⟩
      ⟨some fun slot => vs[slot]?, frames.global⟩ := by
    refine ⟨hlinked, ?_, .some (Env.held_ofParams d.params vs), hkept.global⟩
    have hnames : Store.names ⟨some (Env.ofParams d.params vs), σ.global⟩ = ⟨some d.params.reverse, globals⟩ := by
      simp only [Store.names, Frames.map, Option.map_some, Env.names_ofParams hlen]
      exact congrArg _ hglobals
    rw [hnames]
    exact hfits
  have hland := hbody stack ((pc, frames.inner) :: callers) hcompiled hready hpcode
  cases hgives with
  | returned =>
    obtain ⟨hty, _, hfetch, frames', hsteps, hkept'⟩ := hland
    exact ⟨⟨frames'.global, hsteps.trans (steps_ret hfetch), hkept'.global⟩, hty _ rfl⟩
  | ended hvoid =>
    obtain ⟨⟨frames', hsteps, hkept'⟩, -⟩ := hland
    exact ⟨⟨frames'.global, hsteps.trans (steps_ret hret), hkept'.global⟩, by simp [hl.isVoid.1 hvoid]⟩

/-- A call takes the arguments from the stack, executes the body, and puts the result there. -/
theorem Machine.Evaluates.call {σ σ₁ σ₂ : Store V} {f : Ident} {args : List Expr} {vs : List V} {d : Procedure} {o : Ending V}
    {r : Option V} (hlinks : M.Links F link globals) (hf : F f.name = some d)
    (hargs : M.EvaluatesAll link globals σ args vs σ₁) (hn : σ₁.names = σ.names) (hlen : vs.length = d.params.length)
    (hbody : M.Executes link globals ⟨some (Env.ofParams d.params vs), σ₁.global⟩ d.body o σ₂) (hgives : d.Gives o r) :
    M.Evaluates link globals σ (.call f args) r { σ₁ with global := σ₂.global } := by
  intro ctx t ty Γ base frames stack callers ht hr hp
  cases ht with
  | call hfind htys =>
    obtain ⟨g, hg, rfl, rfl⟩ := SymbolTable.find?_scopes_eq_function.1 hfind
    obtain ⟨hinside, hlink⟩ := hr.linked.of_find? hg
    obtain ⟨d', hd', hl⟩ := hlinks f.name g hlink
    obtain rfl : d = d' := Option.some.inj (hf.symm.trans hd')
    rw [Expr.code, SymbolTable.codeFor_of_find? hg, Expr.callCode] at hp ⊢
    obtain ⟨hpargs, hcall, -⟩ := placed_append.1 hp
    obtain ⟨frames₁, hsteps₁, hkept₁⟩ := hargs stack callers htys hr hpargs
    have hglobals : σ₁.names.global = globals := by
      rw [hn]
      exact hr.fits.global hinside
    obtain ⟨⟨global, hsteps₂, hheld⟩, hty⟩ := hl.returns hlen hglobals hkept₁ hbody hgives
      (base + (Expr.codeOfAll ctx t args).length + 1) stack callers
    have hstep := hsteps₁.trans ((steps_call hcall (hl.arity.trans hlen.symm)).trans hsteps₂)
    rw [List.length_append, ← Nat.add_assoc]
    exact ⟨⟨⟨frames₁.inner, global⟩, hstep, hkept₁.inner, hheld⟩, hty⟩

/-! ## Statements -/

/-- A condition is evaluated and taken from the stack, and the machine goes on behind the jump or at its target. -/
theorem Machine.Evaluates.condition {σ σ₁ : Store V} {c : Expr} {v : V} (hc : M.Evaluates link globals σ c (some v) σ₁)
    (hn : σ₁.names = σ.names) {ctx : Context} {t : SymbolTable} {ty : Ty} {Γ : Scopes} {base target : Nat} {pos : Position}
    {rest : List CodeLine} {frames : Frames (Memory V)} (ht : HasType t.scopes c ty Γ) (hr : Ready link globals ctx t σ frames)
    (hp : M.Placed base (c.code ctx t ++ ⟨⟨.jz, some target⟩, pos⟩ :: rest)) (stack : List V)
    (callers : List (Nat × Option (Memory V))) :
    ∃ frames₁, M.Steps ⟨base, stack, frames, callers⟩
        ⟨if M.isZero v then target else base + (c.code ctx t).length + 1, stack, frames₁, callers⟩ ∧
      Ready link globals ctx t σ₁ frames₁ ∧ M.Placed (base + (c.code ctx t).length + 1) rest := by
  obtain ⟨hpc, hjz, hprest⟩ := placed_append.1 hp
  obtain ⟨⟨frames₁, hsteps, hkept⟩, -⟩ := hc stack callers ht hr hpc
  exact ⟨frames₁, hsteps.trans (steps_jz hjz), hr.of_names hn hkept, hprest⟩

namespace Machine.Executes

variable {σ σ₁ σ₂ σ₃ : Store V} {pos elsePos : Position} {e c : Expr} {first rest body other : Stmt} {o o' : Ending V}
  {r : Option V} {v : V} {x target : Ident} {constant : Bool}

/-- At the end of a list of statements there is nothing to execute. -/
theorem nil : M.Executes link globals σ .nil .normal σ := by
  intro ctx exit t base code t' frames stack callers hc hr _
  cases hc
  exact ⟨⟨frames, .refl, hr.kept⟩, hr.fits⟩

/-- The empty statement has no code. -/
theorem empty : M.Executes link globals σ .empty .normal σ := by
  intro ctx exit t base code t' frames stack callers hc hr _
  cases hc
  exact ⟨⟨frames, .refl, hr.kept⟩, hr.fits⟩

/-- A statement that ends behind itself, and then the others. -/
theorem seq (h₁ : M.Executes link globals σ first .normal σ₁) (h₂ : M.Executes link globals σ₁ rest o σ₂) :
    M.Executes link globals σ (.seq first rest) o σ₂ := by
  intro ctx exit t base code t' frames stack callers hc hr hp
  cases hc with
  | seq hc₁ hc₂ =>
    obtain ⟨hp₁, hp₂⟩ := placed_append.1 hp
    obtain ⟨⟨frames₁, hsteps, hkept⟩, hfits⟩ := h₁ stack callers hc₁ hr hp₁
    have hlinked := hc₁.all Binding.linked_markWritten (fun _ _ hv _ => hv) hr.linked
    rw [List.length_append, ← Nat.add_assoc]
    exact (h₂ stack callers hc₂ ⟨hlinked, hfits, hkept⟩ hp₂).of_steps hsteps rfl rfl

/-- A statement that ends elsewhere, so that the others are not reached. -/
theorem stop (h : M.Executes link globals σ first o σ₁) (ho : o ≠ .normal) :
    M.Executes link globals σ (.seq first rest) o σ₁ := by
  intro ctx exit t base code t' frames stack callers hc hr hp
  cases hc with
  | seq hc₁ hc₂ => exact (h stack callers hc₁ hr (placed_append.1 hp).1).of_ne_normal ho _ _

/-- A declaration without a value has no code. -/
theorem decl : M.Executes link globals σ (.decl pos constant x target none) .normal (σ.declare x.name) := by
  intro ctx exit t base code t' frames stack callers hc hr _
  cases hc with
  | decl _ hd => exact ⟨⟨frames, .refl, hr.kept.declare x.name⟩, Store.names_declare σ x.name ▸ hr.fits.declare hd⟩

/-- The initial value of a declaration is stored in the new slot. -/
theorem init (he : M.Evaluates link globals (σ.declare x.name) e (some v) σ₁) (hn : σ₁.names = (σ.declare x.name).names)
    (hx : σ₁.write? x.name v = some σ₂) :
    M.Executes link globals σ (.decl pos constant x target (some e)) .normal σ₂ := by
  intro ctx exit t base code t' frames stack callers hc hr hp
  cases hc with
  | @init _ _ _ t₁ _ _ _ _ _ _ ty y _ _ hty hd ht hw =>
    obtain ⟨hpe, hstore, -⟩ := placed_append.1 hp
    have hy : t₁.find? x.name = some (.storage y) := by rw [SymbolTable.find?_declare hd, if_pos rfl]
    have hlinked : t₁.All (Binding.Linked link ctx.function.isSome) := by
      refine hr.linked.declare hd ?_
      obtain ⟨-, rfl, -⟩ := SymbolTable.declare_eq_ok.1 hd
      exact hty
    have hfits : t₁.Fits ctx globals (σ.declare x.name).names := Store.names_declare σ x.name ▸ hr.fits.declare hd
    obtain ⟨⟨frames₁, hsteps, hkept⟩, -⟩ := he stack callers ht ⟨hlinked, hfits, hr.kept.declare x.name⟩ hpe
    have hl : σ₁.names.locate x.name = some (ctx.location y) := hn ▸ hfits.located x.name y hy
    have hn₂ : σ₂.names = (σ.declare x.name).names := (Store.names_write? hx).trans hn
    rw [List.length_append, ← Nat.add_assoc]
    exact ⟨⟨_, hsteps.trans (steps_store hstore), hkept.write hx hl⟩, hn₂ ▸ hfits.of_written hw⟩

/-- An expression is evaluated, and its value taken from the stack. -/
theorem expr (he : M.Evaluates link globals σ e r σ₁) (hn : σ₁.names = σ.names) :
    M.Executes link globals σ (.expr e) .normal σ₁ := by
  intro ctx exit t base code t' frames stack callers hc hr hp
  cases hc with
  | @expr _ _ _ _ _ _ ty ht hw =>
    obtain ⟨hpe, hpop⟩ := placed_append.1 hp
    obtain ⟨⟨frames₁, hsteps, hkept⟩, hty⟩ := he stack callers ht hr hpe
    refine ⟨⟨frames₁, hsteps.trans ?_, hkept⟩, hn ▸ hr.fits.of_written hw⟩
    rw [List.length_append, ← Nat.add_assoc]
    by_cases hvoid : ty = .void
    · -- nothing was pushed, and nothing is dropped
      obtain rfl : r = none := by simpa [hvoid] using hty
      rw [if_pos hvoid]
      exact .refl
    · obtain ⟨w, rfl⟩ := Option.isSome_iff_exists.1 (hty.2 hvoid)
      rw [if_neg hvoid] at hpop ⊢
      exact steps_pop hpop.1

/-- A block is executed as its body, and what it declared goes out of scope. -/
theorem block (h : M.Executes link globals σ body o σ₁) (hext : σ.names.Extends σ₁.names) :
    M.Executes link globals σ (.block body) o (o.close σ σ₁) := by
  intro ctx exit t base code t' frames stack callers hc hr hp
  cases hc with
  | block hbody =>
    have hland := h stack callers hbody ⟨hr.linked.enter _, hr.fits.enterBlock, hr.kept⟩ hp
    cases o with
    | normal =>
      obtain ⟨⟨frames₁, hsteps, hkept⟩, -⟩ := hland
      exact ⟨⟨frames₁, hsteps, hkept.keep _⟩, Store.names_keep hext ▸ hr.fits.of_written hbody.written_leave⟩
    | broke =>
      obtain ⟨hloop, frames₁, hsteps, hkept⟩ := hland
      exact ⟨hloop, frames₁, hsteps, hkept.keep _⟩
    | continued =>
      obtain ⟨head, hhead, frames₁, hsteps, hkept⟩ := hland
      exact ⟨head, hhead, frames₁, hsteps, hkept.keep _⟩
    | returned => exact hland

/-- A conditional whose condition holds executes its body. -/
theorem ifTrue (hcond : M.Evaluates link globals σ c (some v) σ₁) (hn : σ₁.names = σ.names) (hv : M.isZero v = false)
    (h : M.Executes link globals σ₁ body o σ₂) : M.Executes link globals σ (.ifThen pos c body) o σ₂ := by
  intro ctx exit t base code t' frames stack callers hc hr hp
  generalize hlast : base + code.length = last
  cases hc with
  | ifThen ht _ hw _ hbody _ =>
    obtain ⟨frames₁, hsteps, hr₁, hp₁⟩ := hcond.condition hn ht hr hp stack callers
    rw [hv, if_neg Bool.false_ne_true] at hsteps
    have hland := (h stack callers hbody (hr₁.of_written hw) hp₁).of_steps hsteps rfl rfl
    rw [List.length_append, List.length_cons, Nat.add_comm _ 1, ← Nat.add_assoc, ← Nat.add_assoc] at hlast
    rwa [hlast] at hland

/-- A conditional whose condition does not hold is skipped. -/
theorem ifFalse (hcond : M.Evaluates link globals σ c (some v) σ₁) (hn : σ₁.names = σ.names) (hv : M.isZero v = true) :
    M.Executes link globals σ (.ifThen pos c body) .normal σ₁ := by
  intro ctx exit t base code t' frames stack callers hc hr hp
  generalize hlast : base + code.length = last
  cases hc with
  | @ifThen _ _ skip _ _ _ _ _ _ _ _ _ ht _ hw hw' _ hskip =>
    obtain ⟨frames₁, hsteps, hr₁, -⟩ := hcond.condition hn ht hr hp stack callers
    rw [hv, if_pos rfl] at hsteps
    obtain rfl : last = skip := by
      simp only [List.length_append, List.length_cons] at hlast
      omega
    exact ⟨⟨frames₁, hsteps, hr₁.kept⟩, hr₁.fits.of_written (hw'.trans hw)⟩

/-- The first branch is executed, and the second skipped. -/
theorem elseTrue (hcond : M.Evaluates link globals σ c (some v) σ₁) (hn : σ₁.names = σ.names) (hv : M.isZero v = false)
    (h : M.Executes link globals σ₁ body o σ₂) : M.Executes link globals σ (.ifElse pos c body elsePos other) o σ₂ := by
  intro ctx exit t base code t' frames stack callers hc hr hp
  generalize hlast : base + code.length = last
  cases hc with
  | @ifElse _ _ _ stop _ _ _ _ _ _ _ _ _ _ _ _ _ ht _ hw _ hw'' hbody hskip _ hstop =>
    obtain ⟨frames₁, hsteps, hr₁, hp₁⟩ := hcond.condition hn ht hr hp stack callers
    rw [hv, if_neg Bool.false_ne_true] at hsteps
    obtain ⟨hpbody, hjmp, -⟩ := placed_append.1 hp₁
    have hland := (h stack callers hbody (hr₁.of_written hw) hpbody).of_steps hsteps rfl rfl
    cases o with
    | normal =>
      -- the body is left by the jump over the alternative
      obtain ⟨⟨frames₂, hsteps₂, hkept⟩, hfits⟩ := hland
      obtain rfl : last = stop := by
        simp only [List.length_append, List.length_cons] at hlast
        omega
      exact ⟨⟨frames₂, hsteps₂.trans (steps_jmp hjmp), hkept⟩, hfits.of_written hw''⟩
    | broke | continued | returned => exact hland.of_ne_normal (by simp) _ _

/-- The first branch is skipped, and the second executed. -/
theorem elseFalse (hcond : M.Evaluates link globals σ c (some v) σ₁) (hn : σ₁.names = σ.names) (hv : M.isZero v = true)
    (h : M.Executes link globals σ₁ other o σ₂) : M.Executes link globals σ (.ifElse pos c body elsePos other) o σ₂ := by
  intro ctx exit t base code t' frames stack callers hc hr hp
  generalize hlast : base + code.length = last
  cases hc with
  | @ifElse _ _ _ stop _ _ _ _ _ _ _ _ _ _ _ _ _ ht _ hw hw' _ _ hskip hother hstop =>
    obtain ⟨frames₁, hsteps, hr₁, hp₁⟩ := hcond.condition hn ht hr hp stack callers
    rw [hv, if_pos rfl] at hsteps
    obtain ⟨-, -, hpother⟩ := placed_append.1 hp₁
    rw [← hskip] at hpother
    have hland := (h stack callers hother (hr₁.of_written (hw'.trans hw)) hpother).of_steps hsteps rfl rfl
    obtain rfl : last = stop := by
      simp only [List.length_append, List.length_cons] at hlast
      omega
    rwa [← hstop] at hland

/-- The machine is behind the jump at the start of the loop, and about to execute the body. -/
theorem loop_body (hcond : M.Evaluates link globals σ c (some v) σ₁) (hn : σ₁.names = σ.names) (hv : M.isZero v = false)
    (h : M.Executes link globals σ₁ body o σ₂) {ctx : Context} {stop : Nat} {t t₁ t₂ : SymbolTable} {base : Nat} {ty : Ty}
    {code : List CodeLine} {frames : Frames (Memory V)} (ht : HasType t.scopes c ty t₁.scopes) (hw : t₁.written = t.written)
    (hbody : Stmt.Compiled { ctx with loop := some base } stop t₁ (base + (c.code ctx t).length + 1) body code t₂)
    (hr : Ready link globals ctx t σ frames)
    (hp : M.Placed base (c.code ctx t ++ ⟨⟨.jz, some stop⟩, pos⟩ :: (code ++ [⟨⟨.jmp, some base⟩, pos⟩]))) (stack : List V)
    (callers : List (Nat × Option (Memory V))) :
    M.Lands { ctx with loop := some base } globals stop (base + (c.code ctx t).length + 1 + code.length) t₂
        ⟨base, stack, frames, callers⟩ σ₂ o ∧
      M.fetch (base + (c.code ctx t).length + 1 + code.length) = some ⟨.jmp, some base⟩ := by
  obtain ⟨frames₁, hsteps, hr₁, hp₁⟩ := hcond.condition hn ht hr hp stack callers
  rw [hv, if_neg Bool.false_ne_true] at hsteps
  obtain ⟨hpbody, hjmp, -⟩ := placed_append.1 hp₁
  exact ⟨(h stack callers hbody ((hr₁.of_written hw).of_function rfl) hpbody).of_steps hsteps rfl rfl, hjmp⟩

/-- A loop whose condition does not hold is left. -/
theorem loopDone (hcond : M.Evaluates link globals σ c (some v) σ₁) (hn : σ₁.names = σ.names) (hv : M.isZero v = true) :
    M.Executes link globals σ (.loop pos c body) .normal σ₁ := by
  intro ctx exit t base code t' frames stack callers hc hr hp
  generalize hlast : base + code.length = last
  cases hc with
  | @loop _ _ stop _ _ _ _ _ _ _ _ _ ht _ hw hw' _ _ hstop =>
    obtain ⟨frames₁, hsteps, hr₁, -⟩ := hcond.condition hn ht hr hp stack callers
    rw [hv, if_pos rfl] at hsteps
    obtain rfl : last = stop := by
      simp only [List.length_append, List.length_cons, List.length_nil] at hlast
      omega
    exact ⟨⟨frames₁, hsteps, hr₁.kept⟩, hr₁.fits.of_written (hw'.trans hw)⟩

/-- A jump out of the body ends the loop. -/
theorem loopBreak (hcond : M.Evaluates link globals σ c (some v) σ₁) (hn : σ₁.names = σ.names) (hv : M.isZero v = false)
    (h : M.Executes link globals σ₁ body .broke σ₂) (hn₂ : body.Scoped → σ₂.names = σ₁.names) :
    M.Executes link globals σ (.loop pos c body) .normal σ₂ := by
  intro ctx exit t base code t' frames stack callers hc hr hp
  generalize hlast : base + code.length = last
  cases hc with
  | @loop _ _ stop _ _ _ _ _ _ _ _ _ ht _ hw hw' hscoped hbody hstop =>
    obtain ⟨⟨-, hcomputes⟩, -⟩ := loop_body hcond hn hv h ht hw hbody hr hp stack callers
    obtain rfl : last = stop := by
      simp only [List.length_append, List.length_cons, List.length_nil] at hlast
      omega
    have hnames : σ₂.names = σ.names := (hn₂ hscoped).trans hn
    exact ⟨hcomputes, hnames ▸ hr.fits.of_written (hw'.trans hw)⟩

/-- A return from the body ends the loop and the function. -/
theorem loopReturn (hcond : M.Evaluates link globals σ c (some v) σ₁) (hn : σ₁.names = σ.names) (hv : M.isZero v = false)
    (h : M.Executes link globals σ₁ body (.returned r) σ₂) : M.Executes link globals σ (.loop pos c body) (.returned r) σ₂ := by
  intro ctx exit t base code t' frames stack callers hc hr hp
  cases hc with
  | loop ht _ hw _ _ hbody _ => exact (loop_body hcond hn hv h ht hw hbody hr hp stack callers).1

/-- Behind the body, or at a jump to the condition, the machine is in front of the same loop again. -/
theorem loopNext (hcond : M.Evaluates link globals σ c (some v) σ₁) (hn : σ₁.names = σ.names) (hv : M.isZero v = false)
    (h : M.Executes link globals σ₁ body o σ₂) (hn₂ : body.Scoped → σ₂.names = σ₁.names) (ho : o = .normal ∨ o = .continued)
    (hloop : M.Executes link globals σ₂ (.loop pos c body) o' σ₃) : M.Executes link globals σ (.loop pos c body) o' σ₃ := by
  intro ctx exit t base code t' frames stack callers hc hr hp
  have hagain := hc
  cases hc with
  | loop ht _ hw hw' hscoped hbody hstop =>
    obtain ⟨hland, hjmp⟩ := loop_body hcond hn hv h ht hw hbody hr hp stack callers
    have hback : M.Computes σ₂ ⟨base, stack, frames, callers⟩ base stack := by
      rcases ho with rfl | rfl
      · obtain ⟨⟨frames₂, hsteps, hkept⟩, -⟩ := hland
        exact ⟨frames₂, hsteps.trans (steps_jmp hjmp), hkept⟩
      · obtain ⟨_, ⟨⟩, hcomputes⟩ := hland
        exact hcomputes
    obtain ⟨frames₂, hsteps, hkept⟩ := hback
    have hr₂ : Ready link globals ctx t σ₂ frames₂ := hr.of_names ((hn₂ hscoped).trans hn) hkept
    exact (hloop stack callers hagain hr₂ hp).of_steps hsteps rfl rfl

/-- A `break` jumps behind the loop. -/
theorem leave : M.Executes link globals σ (.leave pos) .broke σ := by
  intro ctx exit t base code t' frames stack callers hc hr hp
  cases hc with
  | leave hloop => exact ⟨hloop, frames, steps_jmp hp.1, hr.kept⟩

/-- A `continue` jumps to the condition of the loop. -/
theorem again : M.Executes link globals σ (.again pos) .continued σ := by
  intro ctx exit t base code t' frames stack callers hc hr hp
  cases hc with
  | again hhead => exact ⟨_, hhead, frames, steps_jmp hp.1, hr.kept⟩

/-- A return without a value stands at its `RET`. -/
theorem ret {last : Position} : M.Executes link globals σ (.ret pos last) (.returned none) σ := by
  intro ctx exit t base code t' frames stack callers hc hr hp
  cases hc with
  | ret hty => exact ⟨fun ty hf => by simp [hty ty hf], base, hp.1, frames, .refl, hr.kept⟩

/-- A return with a value puts it on the stack in front of its `RET`. -/
theorem retValue (he : M.Evaluates link globals σ e r σ₁) : M.Executes link globals σ (.retValue pos e) (.returned r) σ₁ := by
  intro ctx exit t base code t' frames stack callers hc hr hp
  cases hc with
  | retValue ht _ hfound =>
    obtain ⟨hpe, hret, -⟩ := placed_append.1 hp
    obtain ⟨hcomputes, hty⟩ := he stack callers ht hr hpe
    exact ⟨fun ty hf => hfound ty hf ▸ hty, _, hret, hcomputes⟩

end Machine.Executes

/-! ## The induction -/

mutual

/-- The machine evaluates an expression as the semantics does. -/
theorem Eval.evaluates {σ σ' : Store V} {e : Expr} {r : Option V} (hl : M.Links F link globals) :
    Eval M.toArithmetic F σ e r σ' → M.Evaluates link globals σ e r σ'
  | .int => .int
  | .var hx => .var hx
  | .call hf hargs hlen hbody hgives => .call hl hf (hargs.evaluatesAll hl) hargs.names_eq hlen (hbody.executes hl) hgives
  | .assign he hx => .assign (he.evaluates hl) he.names_eq hx
  | .paren he => .paren (he.evaluates hl)
  | .neg he hw => .neg (he.evaluates hl) hw
  | .cast he => .cast (he.evaluates hl)
  | .binary hl₁ hr hz => .binary (hl₁.evaluates hl) hl₁.names_eq (hr.evaluates hl) hz

/-- The machine evaluates arguments as the semantics does. -/
theorem EvalAll.evaluatesAll {σ σ' : Store V} {es : List Expr} {vs : List V} (hl : M.Links F link globals) :
    EvalAll M.toArithmetic F σ es vs σ' → M.EvaluatesAll link globals σ es vs σ'
  | .nil => .nil
  | .cons he hes => .cons (he.evaluates hl) he.names_eq (hes.evaluatesAll hl)

/-- The machine executes a statement as the semantics does. -/
theorem Exec.executes {σ σ' : Store V} {s : Stmt} {o : Ending V} (hl : M.Links F link globals) :
    Exec M.toArithmetic F σ s o σ' → M.Executes link globals σ s o σ'
  | .nil => .nil
  | .seq h₁ h₂ => .seq (h₁.executes hl) (h₂.executes hl)
  | .stop h ho => .stop (h.executes hl) ho
  | .empty => .empty
  | .decl => .decl
  | .init he hx => .init (he.evaluates hl) he.names_eq hx
  | .expr he => .expr (he.evaluates hl) he.names_eq
  | .block h => .block (h.executes hl) h.extends
  | .ifTrue hc hv h => .ifTrue (hc.evaluates hl) hc.names_eq hv (h.executes hl)
  | .ifFalse hc hv => .ifFalse (hc.evaluates hl) hc.names_eq hv
  | .elseTrue hc hv h => .elseTrue (hc.evaluates hl) hc.names_eq hv (h.executes hl)
  | .elseFalse hc hv h => .elseFalse (hc.evaluates hl) hc.names_eq hv (h.executes hl)
  | .loopDone hc hv => .loopDone (hc.evaluates hl) hc.names_eq hv
  | .loopBreak hc hv h => .loopBreak (hc.evaluates hl) hc.names_eq hv (h.executes hl) fun hs => h.names_eq_of_scoped hs nofun
  | .loopReturn hc hv h => .loopReturn (hc.evaluates hl) hc.names_eq hv (h.executes hl)
  | .loopNext hc hv h ho hloop =>
    .loopNext (hc.evaluates hl) hc.names_eq hv (h.executes hl)
      (fun hs => h.names_eq_of_scoped hs (by rcases ho with rfl | rfl <;> exact nofun)) ho (hloop.executes hl)
  | .leave => .leave
  | .again => .again
  | .ret => .ret
  | .retValue he => .retValue (he.evaluates hl)

end

end

end C0Stack
