import C0Stack.Proofs.Emission.CompilationUnit
import C0Stack.Proofs.Static.Depths

/-!
# Storage is not shared

No two variables that are declared at one time have the same storage (`SymbolTable.Separate`): a declaration takes the next slot of
the innermost scope, a block goes on where the scope around it stands, and a function starts anew in a frame of its own. This holds
in front of every statement that is emitted (`Emission.separate_of_covers`, `CompilationUnit.Begins.separate`).
-/

namespace C0Stack

/-- Variables that are written by the same instruction are in the same place. -/
theorem Context.location_eq_of_store {ctx : Context} {v w : Variable}
    (h : (⟨ctx.storeOp v, some v.slot⟩ : Instruction) = ⟨ctx.storeOp w, some w.slot⟩) : ctx.location v = ctx.location w := by
  simp only [Instruction.mk.injEq, Option.some.injEq] at h
  obtain ⟨hop, hslot⟩ := h
  unfold storeOp at hop
  unfold location
  rw [hslot]
  cases hv : ctx.isRemote v <;> cases hw : ctx.isRemote w <;> simp_all

namespace SymbolTable

/-- The declared variables are in different places. The slots of the current frame that are in use are below the next ones that its
scopes hand out, and a variable is marked as one of the outermost scope just if it is declared there. -/
structure Separate (ctx : Context) (t : SymbolTable) : Prop where
  nested : ctx.function.isSome → t.nested ≠ []
  scope : ∀ d x v, t.declared? d x = some (.storage v) → (v.scope = .outermost ↔ d = 0)
  bounded : ∀ d d' x v f, t.declared? d x = some (.storage v) → ctx.isRemote v = false → d ≤ d' → t.frameAt? d' = some f →
    v.slot < f.nextSlot
  distinct : ∀ d d' x x' v v', t.declared? d x = some (.storage v) → t.declared? d' x' = some (.storage v') →
    ctx.location v = ctx.location v' → d = d' ∧ x = x'

namespace Separate

variable {ctx : Context} {t t' : SymbolTable}

/-- Before anything is declared, storage is separate. -/
theorem empty : SymbolTable.empty.Separate .outermost where
  nested := nofun
  scope d x v h := by
    rw [declared?_empty] at h
    cases h
  bounded d d' x v f h := by
    rw [declared?_empty] at h
    cases h
  distinct d d' x x' v v' h := by
    rw [declared?_empty] at h
    cases h

/-- Whether slots have been written does not matter. -/
theorem of_written (h : t.Separate ctx) (ht : t'.written = t.written) : t'.Separate ctx where
  nested hf := by
    have hdepth := depth_of_written ht
    intro hnil
    unfold depth at hdepth
    rw [hnil] at hdepth
    exact h.nested hf (List.eq_nil_of_length_eq_zero hdepth.symm)
  scope d x v hx := by
    obtain ⟨flag, hx⟩ := declared?_storage_of_written ht.symm hx
    exact h.scope d x { v with initialized := flag } hx
  bounded d d' x v f hx hlocal hd hf := by
    obtain ⟨flag, hx⟩ := declared?_storage_of_written ht.symm hx
    obtain ⟨g, hg, hslot⟩ := nextSlot_of_written ht hf
    rw [hslot]
    exact h.bounded d d' x { v with initialized := flag } g hx hlocal hd hg
  distinct d d' x x' v v' hx hx' hl := by
    obtain ⟨flag, hx⟩ := declared?_storage_of_written ht.symm hx
    obtain ⟨flag', hx'⟩ := declared?_storage_of_written ht.symm hx'
    exact h.distinct d d' x x' { v with initialized := flag } { v' with initialized := flag' } hx hx' hl

/-- Nor does the loop around. -/
theorem of_function (h : t.Separate ctx) {ctx' : Context} (hctx : ctx'.function = ctx.function) : t.Separate ctx' := by
  have hremote : ∀ v, ctx'.isRemote v = ctx.isRemote v := by
    intro v
    unfold Context.isRemote
    rw [hctx]
  have hlocation : ∀ v, ctx'.location v = ctx.location v := by
    intro v
    unfold Context.location
    rw [hremote]
  refine ⟨hctx ▸ h.nested, h.scope, ?_, ?_⟩
  · intro d d' x v f hx hlocal
    exact h.bounded d d' x v f hx (hremote v ▸ hlocal)
  · intro d d' x x' v v' hx hx' hl
    rw [hlocation, hlocation] at hl
    exact h.distinct d d' x x' v v' hx hx' hl

/-- A block goes on behind the slots in use. -/
theorem enterBlock (h : t.Separate ctx) : t.enterBlock.Separate ctx where
  nested _ := List.cons_ne_nil _ _
  scope d x v hx := h.scope d x v (declared?_enter t _ d x ▸ hx)
  bounded d d' x v f hx hlocal hd hf := by
    have hx : t.declared? d x = some (.storage v) := declared?_enter t _ d x ▸ hx
    have hf := (frameAt?_enter t _ d').symm.trans hf
    split at hf
    · cases hf
      exact h.bounded d t.depth x v t.current hx hlocal (le_depth_of_declared? hx) t.frameAt?_depth
    · exact h.bounded d d' x v f hx hlocal hd hf
  distinct d d' x x' v v' hx hx' :=
    h.distinct d d' x x' v v' (declared?_enter t _ d x ▸ hx) (declared?_enter t _ d' x' ▸ hx')

section

variable {x : String} {constant : Bool} {ty : Ty} {pos : Position} {v : Variable}

/-- A variable that is declared is kept in the current frame. -/
theorem isRemote_of_declare (h : t.Separate ctx) (hd : t.declare x constant ty pos = .ok (v, t')) : ctx.isRemote v = false := by
  obtain ⟨-, rfl, -⟩ := declare_eq_ok.1 hd
  cases hf : ctx.function with
  | none => simp [Context.isRemote, hf]
  | some ty' =>
    have hnested := h.nested (by rw [hf]; rfl)
    simp [Context.isRemote, SymbolTable.scope, hnested]

/-- It gets a place where no other variable is. -/
theorem location_ne_of_declare (h : t.Separate ctx) (hd : t.declare x constant ty pos = .ok (v, t')) {d : Nat} {y : String}
    {w : Variable} (hy : t.declared? d y = some (.storage w)) : ctx.location w ≠ ctx.location v := by
  intro heq
  have hlocal := h.isRemote_of_declare hd
  obtain ⟨-, rfl, -⟩ := declare_eq_ok.1 hd
  unfold Context.location at heq
  rw [hlocal] at heq
  cases hw : ctx.isRemote w with
  | true => simp [hw] at heq
  | false =>
    have hlt := h.bounded d t.depth y w _ hy hw (le_depth_of_declared? hy) t.frameAt?_depth
    simp only [hw, Bool.false_eq_true, if_false, Location.here.injEq] at heq
    omega

/-- A declaration keeps storage separate. -/
theorem declare (h : t.Separate ctx) (hd : t.declare x constant ty pos = .ok (v, t')) : t'.Separate ctx := by
  have hlocal := h.isRemote_of_declare hd
  have hdeclared := declared?_declare hd
  have hslot : v.slot = t.current.nextSlot ∧ v.scope = t.scope := by
    obtain ⟨-, rfl, -⟩ := declare_eq_ok.1 hd
    exact ⟨rfl, rfl⟩
  refine ⟨fun hf => ?_, fun d y w hy => ?_, fun d d' y w f hy hw hle hf => ?_, fun d d' y y' w w' hy hy' hl => ?_⟩
  · have hdepth : t'.nested.length = t.nested.length := depth_declare hd
    exact List.length_pos_iff.1 (hdepth ▸ List.length_pos_iff.2 (h.nested hf))
  · rw [hdeclared] at hy
    split at hy
    · rename_i hnew
      cases hy
      rw [hslot.2, hnew.1, SymbolTable.scope, depth]
      cases t.nested <;> simp
    · exact h.scope d y w hy
  · rw [hdeclared] at hy
    obtain ⟨g, hg, hnext⟩ := exists_frameAt?_of_declare hd hf
    split at hy
    · rename_i hnew
      cases hy
      obtain rfl : d' = t.depth := Nat.le_antisymm (le_depth_of_frameAt? hg) (hnew.1 ▸ hle)
      rw [frameAt?_depth] at hg
      cases hg
      rw [hnext, hslot.1, if_pos rfl]
      exact Nat.lt_succ_self _
    · have hlt := h.bounded d d' y w g hy hw hle hg
      rw [hnext]
      split <;> omega
  · rw [hdeclared] at hy hy'
    split at hy <;> split at hy'
    · rename_i hnew hnew'
      exact ⟨hnew.1.trans hnew'.1.symm, hnew.2.trans hnew'.2.symm⟩
    · cases hy
      exact absurd hl.symm (h.location_ne_of_declare hd hy')
    · cases hy'
      exact absurd hl (h.location_ne_of_declare hd hy)
    · exact h.distinct d d' y y' w w' hy hy' hl

end

/-- A function that is declared takes no storage. -/
theorem withFunction (h : t.Separate ctx) (x : String) (f : Signature) : (t.withFunction x f).Separate ctx := by
  have hstorage : ∀ d y v, (t.withFunction x f).declared? d y = some (.storage v) → t.declared? d y = some (.storage v) := by
    intro d y v hy
    rw [declared?_withFunction] at hy
    split at hy
    · cases hy
    · exact hy
  refine ⟨h.nested, fun d y v hy => h.scope d y v (hstorage d y v hy), fun d d' y v g hy hlocal hd hg => ?_,
    fun d d' y y' v v' hy hy' => h.distinct d d' y y' v v' (hstorage d y v hy) (hstorage d' y' v' hy')⟩
  obtain ⟨g', hg', hnext⟩ : ∃ g', t.frameAt? d' = some g' ∧ g.nextSlot = g'.nextSlot := by
    obtain ⟨nested, outermost⟩ := t
    unfold frameAt? SymbolTable.withFunction frames at hg
    unfold frameAt? frames
    rw [List.reverse_append] at hg ⊢
    cases d' with
    | zero =>
      cases hg
      exact ⟨outermost, rfl, rfl⟩
    | succ d' => exact ⟨g, hg, rfl⟩
  rw [hnext]
  exact h.bounded d d' y v g' (hstorage d y v hy) hlocal hd hg'

/-- In a function the variables outside it are in another frame. -/
theorem enterFunction (h : t.Separate .outermost) (hnested : t.nested = []) (ty : Ty) :
    t.enterFunction.Separate ⟨some ty, none⟩ := by
  have hzero : ∀ d x v, t.enterFunction.declared? d x = some (.storage v) →
      t.declared? d x = some (.storage v) ∧ d = 0 ∧ v.scope = .outermost := by
    intro d x v hx
    have hx : t.declared? d x = some (.storage v) := declared?_enter t _ d x ▸ hx
    have hd := le_depth_of_declared? hx
    rw [depth, hnested, List.length_nil, Nat.le_zero] at hd
    exact ⟨hx, hd, (h.scope d x v hx).2 hd⟩
  have hremote : ∀ v : Variable, v.scope = .outermost → Context.isRemote ⟨some ty, none⟩ v = true := by
    intro v hv
    simp [Context.isRemote, hv]
  refine ⟨fun _ => List.cons_ne_nil _ _, fun d x v hx => ?_, fun d d' x v f hx hlocal => ?_, fun d d' x x' v v' hx hx' hl => ?_⟩
  · exact h.scope d x v (hzero d x v hx).1
  · rw [hremote v (hzero d x v hx).2.2] at hlocal
    cases hlocal
  · obtain ⟨hx, -, hv⟩ := hzero d x v hx
    obtain ⟨hx', -, hv'⟩ := hzero d' x' v' hx'
    refine h.distinct d d' x x' v v' hx hx' ?_
    unfold Context.location at hl
    rw [hremote v hv, hremote v' hv', if_pos rfl, if_pos rfl, Location.global.injEq] at hl
    simp [Context.location, Context.isRemote, Context.outermost, hl]

theorem declaresParams (h : t.Separate ctx) {params : List (Param × Ty)} (hp : t.DeclaresParams params t') : t'.Separate ctx := by
  induction hp with
  | nil => exact h
  | cons hd hm _ ih => exact ih ((h.declare hd).of_written (written_markWritten hm))

end Separate

end SymbolTable

/-! ## Statements -/

/-- A statement closes the scopes that it opens. -/
theorem Stmt.Compiled.depth_eq {ctx : Context} {exit : Nat} {t t' : SymbolTable} {base : Nat} {s : Stmt} {code : List CodeLine}
    (h : Compiled ctx exit t base s code t') : t'.depth = t.depth := by
  have hlength := congrArg List.length h.tail_frames
  rw [SymbolTable.length_tail_frames, SymbolTable.length_tail_frames] at hlength
  simpa [SymbolTable.written, SymbolTable.depth] using hlength

/-- A statement keeps the storage of the variables apart. -/
theorem Stmt.Compiled.separate {ctx : Context} {exit : Nat} {t t' : SymbolTable} {base : Nat} {s : Stmt} {code : List CodeLine}
    (h : Compiled ctx exit t base s code t') (ht : t.Separate ctx) : t'.Separate ctx := by
  induction h with
  | nil | empty | leave | again | ret => exact ht
  | seq _ _ ih₁ ih₂ => exact ih₂ (ih₁ ht)
  | decl _ hd => exact ht.declare hd
  | init _ hd _ hw => exact (ht.declare hd).of_written hw
  | expr _ hw => exact ht.of_written hw
  | block h => exact ht.of_written h.written_leave
  | ifThen _ _ hw hw' => exact ht.of_written (hw'.trans hw)
  | ifElse _ _ hw hw' hw'' => exact ht.of_written (hw''.trans (hw'.trans hw))
  | loop _ _ hw hw' => exact ht.of_written (hw'.trans hw)
  | retValue _ hw => exact ht.of_written hw

namespace Emission

variable {E E' : Emission}

/-- The storage of variables is as separate in front of the parts of a statement as it is in front of the whole. -/
theorem Has.separate (h : E.Has E') (hs : E.stmt.Structured) (ht : E.before.symbols.Separate E.ctx) :
    E'.before.symbols.Separate E'.ctx := by
  cases h with
  | first => exact ht
  | rest h₁ _ =>
    obtain ⟨code, waiting, hasm⟩ := Stmt.emitted hs.1 h₁
    exact (hasm.compiled 0).separate ht
  | block => exact ht.enterBlock
  | ifThen hc | ifElse hc => exact ht.of_written (Expr.emitted hc).written
  | alternative hc _ h₁ _ =>
    obtain ⟨code, waiting, hasm⟩ := Stmt.emitted hs.2.2.1 h₁
    exact (hasm.compiled 0).separate (ht.of_written (Expr.emitted hc).written)
  | loop hc => exact (ht.of_written (Expr.emitted hc).written).of_function rfl

/-- The parts of a structured statement are structured. -/
theorem Has.structured (h : E.Has E') (hs : E.stmt.Structured) : E'.stmt.Structured := by
  cases h with
  | first => exact hs.1
  | rest => exact hs.2
  | block => exact hs
  | ifThen => exact hs.2
  | ifElse => exact hs.2.2.1
  | alternative => exact hs.2.2.2
  | loop => exact hs.2

/-- Storage is separate in front of parts at any depth. -/
theorem separate_of_covers (h : E.Covers E') (hs : E.stmt.Structured) (ht : E.before.symbols.Separate E.ctx) :
    E'.before.symbols.Separate E'.ctx ∧ E'.stmt.Structured := by
  induction h with
  | refl => exact ⟨ht, hs⟩
  | tail _ hlast ih => exact ⟨hlast.separate ih.2 ih.1, hlast.structured ih.2⟩

end Emission

/-! ## Functions and units -/

/-- Storage is separate where the body of a function begins. -/
theorem Function.EmitsBody.separate {fs : List Function} {a : Assembly} {E : Emission} (h : EmitsBody fs a E)
    (hs : AllStructured fs) (hnested : a.symbols.nested = []) (ht : a.symbols.Separate .outermost) :
    E.before.symbols.Separate E.ctx := by
  induction h with
  | head htypes hty h₁ h₂ hbody =>
    obtain ⟨-, rfl⟩ := SymbolTable.declareFunction_eq_ok.1 h₁
    exact ((ht.withFunction _ _).enterFunction hnested _).declaresParams h₂
  | @tail f fs a a₁ E h₁ _ ih =>
    cases f with
    | fault => exact (run_emit_fault.1 h₁).elim
    | defn pos name params target body close =>
      obtain ⟨f, code, hcompiled, -⟩ := emitted hs.head h₁
      refine ih (hs.mono (List.subset_cons_self _ _)) (hcompiled.nested_eq_nil hnested) ?_
      exact (ht.withFunction _ _).of_written hcompiled.written

/-- The storage of variables is separate where a unit begins with its declarations and with the body of each of its functions. -/
theorem CompilationUnit.Begins.separate {u : CompilationUnit} {E : Emission} (h : u.Begins E) (hg : u.globals.Structured)
    (hf : Function.AllStructured u.functions) : E.before.symbols.Separate E.ctx := by
  cases h with
  | globals => exact .empty
  | @body a f fs _ h₁ hfs hE =>
    obtain ⟨code, waiting, hasm⟩ := Stmt.emitted hg h₁
    have hcompiled : Stmt.Compiled .outermost 0 .empty 0 u.globals (code 0) a.symbols := hasm.compiled 0
    have hnested : a.symbols.nested = [] := List.eq_nil_of_length_eq_zero hcompiled.depth_eq
    exact hE.separate hf hnested (hcompiled.separate .empty)

end C0Stack
