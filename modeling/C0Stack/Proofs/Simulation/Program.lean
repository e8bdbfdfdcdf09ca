import C0Stack.Proofs.Code.CompilationUnit
import C0Stack.Proofs.Simulation.Basic

/-!
# Loading a program

The functions of a unit are emitted one after the other (`Function.CompiledAll`). From one to the next the table only gains a
function, and the variables outside functions keep their slots, so that what a function sees when it is emitted is what it finds
when it is called. Each function is therefore loaded, in the sense of the simulation, once its code is in the program.
-/

namespace C0Stack

variable {V : Type}

/-! ## Tables outside functions -/

namespace SymbolTable

/-- Tables that differ only in what has been written find the same functions. -/
theorem find?_function_of_written {t t' : SymbolTable} (h : t'.written = t.written) {x : String} {f : Signature}
    (hx : t'.find? x = some (.function f)) : t.find? x = some (.function f) := by
  have hw := find?_written t' x
  rw [h, find?_written, hx, Option.map_some, Option.map_eq_some_iff] at hw
  obtain ⟨b, hb, hmark⟩ := hw
  cases b with
  | storage v => cases hmark
  | function g =>
    cases hmark
    exact hb

/-- Only the outermost scope is open, and its variables are in the slots of these names. -/
structure TopLevel (globals : List String) (t : SymbolTable) : Prop where
  nested : t.nested = []
  storage : ∀ x v, t.find? x = some (.storage v) → v.ty ≠ .void ∧ v.scope = .outermost ∧ slotOf globals x = some v.slot

/-- Whether variables have been written does not matter. -/
theorem TopLevel.of_written {globals : List String} {t t' : SymbolTable} (h : t.TopLevel globals) (ht : t'.written = t.written) :
    t'.TopLevel globals where
  nested := nested_eq_nil_of_written ht h.nested
  storage x v hx := by
    obtain ⟨w, hw, hty, -, hslot, hscope⟩ := find?_storage_of_written ht hx
    rw [← hty, ← hslot, ← hscope]
    exact h.storage x w hw

/-- A function in the outermost scope takes no slot. -/
theorem TopLevel.withFunction {globals : List String} {t : SymbolTable} (h : t.TopLevel globals) (x : String) (f : Signature) :
    (t.withFunction x f).TopLevel globals where
  nested := h.nested
  storage y v hy := by
    rw [find?_withFunction h.nested] at hy
    split at hy
    · cases hy
    · exact h.storage y v hy

/-- Where a body starts, before its parameters are declared, it finds the variables outside functions. -/
theorem TopLevel.fits {globals : List String} {t : SymbolTable} (h : t.TopLevel globals) (ty : Ty) :
    t.enterFunction.Fits ⟨some ty, none⟩ globals ⟨some [], globals⟩ where
  inner := rfl
  nested _ := List.cons_ne_nil _ _
  located x v hx := by
    obtain ⟨-, hscope, hslot⟩ := h.storage x v hx
    simp [Frames.locate, slotOf, hslot, Context.location, Context.isRemote, hscope]
  nextSlot := rfl
  global _ := rfl

/-- Parameters are kept in the slots behind those in use. -/
theorem Fits.declaresParams {ctx : Context} {globals locals : List String} {t t' : SymbolTable} {params : List (Param × Ty)}
    (h : t.Fits ctx globals ⟨some locals, globals⟩) (hp : t.DeclaresParams params t') :
    t'.Fits ctx globals ⟨some (((params.map Prod.fst).map fun p => p.name.name).reverse ++ locals), globals⟩ := by
  induction hp generalizing locals with
  | nil => exact h
  | cons hd hm _ ih =>
    have hfits := ih ((h.declare hd).of_written (written_markWritten hm))
    rw [List.map_cons, List.map_cons, List.reverse_cons, List.append_assoc]
    exact hfits

/-- Parameters are variables of types that have values. -/
theorem All.declaresParams {ok : String → Binding → Prop} (hok : ∀ x b, ok x b.markWritten ↔ ok x b)
    (hstorage : ∀ x v, v.ty ≠ .void → ok x (.storage v)) {t t' : SymbolTable} {params : List (Param × Ty)} (h : t.All ok)
    (hp : t.DeclaresParams params t') (htypes : ∀ p ∈ params, p.2 ≠ .void) : t'.All ok := by
  induction hp with
  | nil => exact h
  | cons hd hm _ ih =>
    have hty := htypes _ List.mem_cons_self
    refine ih ((h.declare hd (hstorage _ _ ?_)).of_written hok (written_markWritten hm))
      fun p hp => htypes p (List.mem_cons_of_mem _ hp)
    obtain ⟨-, rfl, -⟩ := declare_eq_ok.1 hd
    exact hty

/-- The functions of the table start below the address, no two of them at the same one. -/
structure EntriesBelow (base : Nat) (t : SymbolTable) : Prop where
  lt : ∀ x f, t.find? x = some (.function f) → f.entry < base
  injective : ∀ x y f g, t.find? x = some (.function f) → t.find? y = some (.function g) → f.entry = g.entry → x = y

end SymbolTable

/-! ## One function -/

namespace Function.Compiled

variable {name target : Ident} {params : List Param} {body : Stmt} {close : Position} {t t' : SymbolTable} {base : Nat}
  {f : Signature} {code : List CodeLine} {globals : List String}

/-- Behind a function its name stands for it, and every other name for what it stood for. -/
theorem find?_function (h : Compiled name params target body close t base f code t') (ht : t.nested = []) {x : String}
    {g : Signature} : t'.find? x = some (.function g) ↔ x = name.name ∧ g = f ∨ t.find? x = some (.function g) := by
  have hfresh : t.find? name.name = none := by rw [SymbolTable.find?_of_nested_eq_nil ht, h.fresh]
  have hwith : t'.find? x = some (.function g) ↔ (t.withFunction name.name f).find? x = some (.function g) :=
    ⟨SymbolTable.find?_function_of_written h.written, SymbolTable.find?_function_of_written h.written.symm⟩
  rw [hwith, SymbolTable.find?_withFunction ht]
  by_cases hx : x = name.name
  · simp [hx, hfresh, eq_comm]
  · simp [hx]

/-- Behind a function, exactly its name is new. -/
theorem find?_eq_none (h : Compiled name params target body close t base f code t') (ht : t.nested = []) {x : String} :
    t'.find? x = none ↔ x ≠ name.name ∧ t.find? x = none := by
  have hwith := congrArg (fun t => t.find? x) h.written
  simp only [SymbolTable.find?_written, SymbolTable.find?_withFunction ht] at hwith
  rw [← Option.map_eq_none_iff, hwith, Option.map_eq_none_iff]
  by_cases hx : x = name.name <;> simp [hx]

/-- Behind a function only the outermost scope is open. -/
theorem nested_eq_nil (h : Compiled name params target body close t base f code t') (ht : t.nested = []) : t'.nested = [] :=
  SymbolTable.nested_eq_nil_of_written h.written ht

/-- The variables outside functions are where they were. -/
theorem topLevel (h : Compiled name params target body close t base f code t') (ht : t.TopLevel globals) : t'.TopLevel globals :=
  (ht.withFunction name.name f).of_written h.written

/-- A function whose code is in the program, and that sees only functions that are linked, is loaded. -/
theorem loaded {M : Machine V} {link : String → Option Signature} (h : Compiled name params target body close t base f code t')
    (ht : t.TopLevel globals) (hp : M.Placed base code)
    (hlink : ∀ x g, t'.find? x = some (.function g) → link x = some g ∧ M.arity g.entry = g.params.length) :
    M.Loaded link globals f ⟨params.map fun p => p.name.name, decide (Ty.named? target.name = some .void), body⟩ where
  isVoid := by simp [h.returns]
  arity := by
    rw [(hlink name.name f ((h.find?_function ht.nested).2 (.inl ⟨rfl, rfl⟩))).2, List.length_map, h.types.length_eq]
  body := by
    obtain ⟨t₁, t₂, lines, hdeclares, hcompiled, rfl⟩ := h.body
    have htop := ht.withFunction name.name f
    have hzip := List.forall₂_iff_zip.1 h.types
    rw [h.entry_eq]
    refine ⟨lines, close, t₁, t₂, hcompiled, hp, ?_, ?_⟩
    · have hall : (t.withFunction name.name f).All (Binding.Linked link true) := by
        refine .of_nested_eq_nil htop.nested fun x b hx => ?_
        cases b with
        | storage v => exact (htop.storage x v hx).1
        | function g => exact ⟨rfl, (hlink x g (SymbolTable.find?_function_of_written h.written.symm hx)).1⟩
      exact (hall.enter 0).declaresParams Binding.linked_markWritten (fun _ _ hv => hv) hdeclares fun p hp => (hzip.2 hp).2
    · have hfits := (htop.fits f.returns).declaresParams hdeclares
      rw [List.append_nil, List.map_fst_zip (Nat.le_of_eq hzip.1)] at hfits
      exact hfits

/-- The next function starts behind this one. -/
theorem entriesBelow (h : Compiled name params target body close t base f code t') (ht : t.nested = [])
    (he : t.EntriesBelow base) : t'.EntriesBelow (base + code.length) := by
  have hpos : 0 < code.length := by
    obtain ⟨_, _, _, -, -, rfl⟩ := h.body
    simp
  constructor
  · intro x g hx
    rcases (h.find?_function ht).1 hx with ⟨-, rfl⟩ | hx
    · rw [h.entry_eq]
      omega
    · have := he.lt x g hx
      omega
  · intro x y g g' hx hy hentry
    rcases (h.find?_function ht).1 hx with ⟨rfl, rfl⟩ | hx <;> rcases (h.find?_function ht).1 hy with ⟨rfl, rfl⟩ | hy
    · rfl
    · have := he.lt y g' hy
      have := h.entry_eq
      omega
    · have := he.lt x g hx
      have := h.entry_eq
      omega
    · exact he.injective x y g g' hx hy hentry

end Function.Compiled

/-! ## All functions -/

namespace Function.CompiledAll

variable {fs : List Function} {code : List CodeLine} {t t' : SymbolTable} {base : Nat} {globals : List String}

/-- Behind all functions the variables outside them are where they were. -/
theorem topLevel (h : CompiledAll t base fs code t') (ht : t.TopLevel globals) : t'.TopLevel globals := by
  induction h with
  | nil => exact ht
  | cons h _ ih => exact ih (h.topLevel ht)

/-- A function that is there in front of the functions is there behind them. -/
theorem find?_function (h : CompiledAll t base fs code t') (ht : t.nested = []) {x : String} {g : Signature}
    (hx : t.find? x = some (.function g)) : t'.find? x = some (.function g) := by
  induction h with
  | nil => exact hx
  | cons h _ ih => exact ih (h.nested_eq_nil ht) ((h.find?_function ht).2 (.inr hx))

/-- The name of each function stands for a function behind all of them, which has as many parameters. -/
theorem exists_find?_of_lookup (h : CompiledAll t base fs code t') (ht : t.nested = []) {x : String} {d : Procedure}
    (hx : (fs.filterMap procedure?).lookup x = some d) :
    ∃ g, t'.find? x = some (.function g) ∧ g.params.length = d.params.length := by
  induction h with
  | nil => cases hx
  | @cons t t₁ t₂ base pos close name target params body f fs code rest h hfs ih =>
    rw [lookup_procedure?] at hx
    split at hx
    · rename_i hname
      cases hx
      refine ⟨f, hfs.find?_function (h.nested_eq_nil ht) ((h.find?_function ht).2 (.inl ⟨hname, rfl⟩)), ?_⟩
      rw [List.length_map, h.types.length_eq]
    · exact ih (h.nested_eq_nil ht) hx

/-- All functions start below the end of the code, no two at the same address. -/
theorem entriesBelow (h : CompiledAll t base fs code t') (ht : t.nested = []) (he : t.EntriesBelow base) :
    t'.EntriesBelow (base + code.length) := by
  induction h with
  | nil => exact he
  | cons h _ ih =>
    rw [List.length_append, ← Nat.add_assoc]
    exact ih (h.nested_eq_nil ht) (h.entriesBelow ht he)

/-- A name that stands for a function behind the functions stood for it in front of them, or it is the name of one of them, which is
loaded. -/
theorem loaded {M : Machine V} {link : String → Option Signature} (h : CompiledAll t base fs code t') (ht : t.TopLevel globals)
    (hp : M.Placed base code)
    (hlink : ∀ x g, t'.find? x = some (.function g) → link x = some g ∧ M.arity g.entry = g.params.length) {x : String}
    {g : Signature} (hx : t'.find? x = some (.function g)) :
    t.find? x = some (.function g) ∨
      t.find? x = none ∧ ∃ d, (fs.filterMap procedure?).lookup x = some d ∧ M.Loaded link globals g d := by
  induction h with
  | nil => exact .inl hx
  | @cons t t₁ t₂ base pos close name target params body f fs code rest h hfs ih =>
    obtain ⟨hcode, hrest⟩ := Machine.placed_append.1 hp
    rcases ih (h.topLevel ht) hrest hlink hx with hx₁ | ⟨hnone, d, hd, hloaded⟩
    · rcases (h.find?_function ht.nested).1 hx₁ with ⟨rfl, rfl⟩ | hx₀
      · refine .inr ⟨by rw [SymbolTable.find?_of_nested_eq_nil ht.nested, h.fresh], _, ?_,
          h.loaded ht hcode fun y g' hy => hlink y g' (hfs.find?_function (h.nested_eq_nil ht.nested) hy)⟩
        rw [lookup_procedure?, if_pos rfl]
      · exact .inl hx₀
    · obtain ⟨hname, hx₀⟩ := (h.find?_eq_none ht.nested).1 hnone
      exact .inr ⟨hx₀, d, by rw [lookup_procedure?, if_neg hname, hd], hloaded⟩

end Function.CompiledAll

/-! ## Units -/

/-- The binding is a variable outside functions. -/
def Binding.Global : Binding → Prop
  | .storage v => v.ty ≠ .void ∧ v.scope = .outermost
  | .function _ => False

namespace CompilationUnit.Compiled

variable {M : Machine V} {u : CompilationUnit} {globals jump functions call : List CodeLine} {pos : Position} {t t' : SymbolTable}

/-- In front of the functions there are only variables. -/
theorem binding_global (h : u.Compiled globals jump functions call pos t t') {x : String} {b : Binding} (hx : t.find? x = some b) :
    b.Global := by
  have hall : t.All fun _ b => b.Global := by
    refine h.globals_compiled.all ?_ ?_ ?_
    · intro _ b
      cases b <;> rfl
    · exact fun _ v hty hscope => ⟨hty, hscope⟩
    · exact .of_nested_eq_nil rfl nofun
  exact hall.of_find? hx

/-- In front of the functions only the outermost scope is open. -/
theorem nested_eq_nil (h : u.Compiled globals jump functions call pos t t') : t.nested = [] := by
  rw [← SymbolTable.scope_eq_outermost]
  exact SymbolTable.scope_of_tail_frames h.globals_compiled.tail_frames

/-- No two functions start at the same address. -/
theorem entry_injective (h : u.Compiled globals jump functions call pos t t') {x y : String} {f g : Signature}
    (hx : t'.find? x = some (.function f)) (hy : t'.find? y = some (.function g)) (hentry : f.entry = g.entry) : x = y := by
  refine (h.functions_compiled.entriesBelow h.nested_eq_nil ⟨?_, ?_⟩).injective x y f g hx hy hentry
  · exact fun x f hx => (h.binding_global hx).elim
  · exact fun x _ f _ hx _ _ => (h.binding_global hx).elim

/-- The functions are skipped. -/
theorem steps_jump (h : u.Compiled globals jump functions call pos t t') (hp : M.Placed globals.length (jump ++ functions))
    (stack : List V) (frames : Frames (Memory V)) (callers : List (Nat × Option (Memory V))) :
    M.Steps ⟨globals.length, stack, frames, callers⟩
      ⟨(globals ++ (jump ++ functions)).length, stack, frames, callers⟩ := by
  rcases h.jump_eq with ⟨-, rfl, rfl⟩ | ⟨-, pos, hjump⟩
  · rw [List.append_nil, List.append_nil]
  · rw [hjump] at hp
    exact Machine.steps_jmp hp.1

/-- The declarations leave the variables of the unit in their slots. -/
theorem runs_globals (h : u.Compiled globals jump functions call pos t t') (hp : M.Placed 0 (globals ++ (jump ++ functions)))
    {σ : Store V} (hexec : Exec M.toArithmetic u.procedure? .empty u.globals .normal σ) :
    t.TopLevel σ.global.names ∧ ∃ mem, σ.global.Held mem ∧
      M.Steps (.initial V) ⟨(globals ++ (jump ++ functions)).length, [], ⟨none, mem⟩, []⟩ := by
  obtain ⟨hpglobals, hprest⟩ := Machine.placed_append.1 hp
  rw [Nat.zero_add] at hprest
  have hlinks : M.Links u.procedure? (fun _ => none) [] := nofun
  obtain ⟨⟨⟨inner, mem⟩, hsteps, hkept⟩, hfits⟩ := hexec.executes hlinks [] [] h.globals_compiled .initial hpglobals
  rw [Nat.zero_add] at hsteps
  have hinner : σ.inner = none := Option.map_eq_none_iff.1 (hexec.extends.inner_eq_none rfl)
  obtain rfl : inner = none := by
    have hrel := hkept.inner
    rw [hinner] at hrel
    cases hrel
    rfl
  refine ⟨⟨h.nested_eq_nil, fun x v hx => ?_⟩, mem, hkept.global, hsteps.trans (h.steps_jump hprest _ _ _)⟩
  obtain ⟨hty, hscope⟩ := h.binding_global hx
  exact ⟨hty, hscope, hfits.slotOf_global hx⟩

/-- All functions are loaded. -/
theorem links (h : u.Compiled globals jump functions call pos t t') {names : List String} (ht : t.TopLevel names)
    (hp : M.Placed (globals ++ jump).length functions)
    (harity : ∀ x f, t'.find? x = some (.function f) → M.arity f.entry = f.params.length) :
    M.Links u.procedure? t'.signature? names := by
  intro x f hx
  have hx' := SymbolTable.signature?_eq_some.1 hx
  rcases h.functions_compiled.loaded ht hp (fun y g hy => ⟨SymbolTable.signature?_eq_some.2 hy, harity y g hy⟩) hx' with
    hfront | ⟨-, d, hd, hloaded⟩
  · exact (h.binding_global hfront).elim
  · exact ⟨d, hd, hloaded⟩

/-- A call of `main` ends behind the call, with the result of `main` on the stack. -/
theorem runs_main (h : u.Compiled globals jump functions call pos t t') {names : List String} (ht : t.TopLevel names)
    (hlinks : M.Links u.procedure? t'.signature? names)
    (harity : ∀ x f, t'.find? x = some (.function f) → M.arity f.entry = f.params.length) {pc : Nat} (hp : M.Placed pc call)
    {d : Procedure} (hd : u.procedure? "main" = some d) {env : Env V} {σ : Store V} {o : Ending V} {r : Option V}
    (hexec : Exec M.toArithmetic u.procedure? ⟨some [], env⟩ d.body o σ) (hgives : d.Gives o r)
    (hnames : env.names = names) {mem : Memory V} (hmem : env.Held mem) :
    ∃ mem', σ.global.Held mem' ∧
      M.Steps ⟨pc, [], ⟨none, mem⟩, []⟩ ⟨pc + call.length, r.toList, ⟨none, mem'⟩, []⟩ := by
  obtain ⟨f, hf, -⟩ := h.functions_compiled.exists_find?_of_lookup ht.nested hd
  have hmain := SymbolTable.signature?_eq_some.2 hf
  obtain ⟨d', hd', hloaded⟩ := hlinks _ f hmain
  obtain rfl : d = d' := Option.some.inj (hd.symm.trans hd')
  have hzero : M.arity f.entry = 0 := by rw [harity _ f hf, h.main_params f hmain, List.length_nil]
  have hcall : call = [⟨⟨.call, some f.entry⟩, pos⟩] := by
    rw [h.call_eq, hmain]
    rfl
  rw [hcall] at hp ⊢
  have hargs : Env.ofParams d.params ([] : List V) = [] := by simp [Env.ofParams]
  have hlen : ([] : List V).length = d.params.length := by rw [← hloaded.arity, hzero, List.length_nil]
  have hkept : Store.Kept ⟨none, mem⟩ (⟨none, env⟩ : Store V) := ⟨.none, hmem⟩
  have hglobal : (Store.names (⟨none, env⟩ : Store V)).global = names := hnames
  rw [← hargs] at hexec
  have hcalled : M.Steps ⟨pc, ([] : List V).reverse ++ [], ⟨none, mem⟩, []⟩ _ := Machine.steps_call hp.1 hzero
  obtain ⟨⟨mem', hreturns, hmem'⟩, -⟩ :=
    hloaded.returns hlen hglobal hkept (hexec.executes hlinks) hgives (pc + 1) [] []
  rw [List.append_nil] at hreturns
  exact ⟨mem', hmem', hcalled.trans hreturns⟩

/-- The machine runs a unit as the semantics says, up to the last `RET`. -/
theorem runs (h : u.Compiled globals jump functions call pos t t')
    (hp : M.Placed 0 (globals ++ (jump ++ functions) ++ call))
    (harity : ∀ x f, t'.find? x = some (.function f) → M.arity f.entry = f.params.length) {env : Env V} {r : Option V}
    (hr : u.Runs M.toArithmetic env r) :
    t'.TopLevel env.names ∧ ∃ mem, env.Held mem ∧
      M.Steps (.initial V) ⟨(globals ++ (jump ++ functions) ++ call).length, r.toList, ⟨none, mem⟩, []⟩ := by
  obtain ⟨hpfront, hpcall⟩ := Machine.placed_append.1 hp
  rw [Nat.zero_add] at hpcall
  have hpfunctions : M.Placed (globals ++ jump).length functions := by
    rw [← List.append_assoc, Machine.placed_append, Nat.zero_add] at hpfront
    exact hpfront.2
  rw [List.length_append]
  cases hr with
  | @idle σ hglobals hmain =>
    obtain ⟨ht, mem, hmem, hsteps⟩ := h.runs_globals hpfront hglobals
    have hcall : call = [] := by
      rw [h.call_eq]
      cases hsig : t'.signature? "main" with
      | none => rfl
      | some f =>
        obtain ⟨d, hd, -⟩ := h.links ht hpfunctions harity _ f hsig
        rw [hmain] at hd
        cases hd
    rw [hcall]
    exact ⟨h.functions_compiled.topLevel ht, mem, hmem, hsteps⟩
  | @main σ σ' d o r hglobals hd hexec hgives =>
    obtain ⟨ht, mem, hmem, hsteps⟩ := h.runs_globals hpfront hglobals
    obtain ⟨mem', hmem', hsteps'⟩ := h.runs_main ht (h.links ht hpfunctions harity) harity hpcall hd hexec hgives rfl hmem
    have hnames : σ'.global.names = σ.global.names := hexec.extends.global_eq rfl
    exact ⟨hnames ▸ h.functions_compiled.topLevel ht, mem', hmem', hsteps.trans hsteps'⟩

end CompilationUnit.Compiled

end C0Stack
