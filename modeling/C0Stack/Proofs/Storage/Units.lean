import C0Stack.Proofs.Balance
import C0Stack.Proofs.Storage.Declarations

/-!
# The variables of a program

Each function starts with its parameters, in the first slots of its frame, and sees the variables outside functions
(`Function.EmitsBody`, `CompilationUnit.EmitsBodyOf`). The instructions of a program that access a slot are those of the declarations
outside functions and those of the bodies (`CompilationUnit.exists_begins`).
-/

namespace C0Stack

open Assembling

/-! ## Parameters -/

namespace SymbolTable

/-- A parameter is declared in the innermost scope, and noted as written there. -/
theorem declared?_param {t t₁ t₂ : SymbolTable} {x : String} {constant : Bool} {ty : Ty} {pos pos' : Position} {v : Variable}
    (hd : t.declare x constant ty pos = .ok (v, t₁)) (hm : t₁.markWritten x pos' = .ok t₂) (d : Nat) (y : String) :
    t₂.declared? d y = if d = t.depth ∧ y = x then some (.storage { v with initialized := true }) else t.declared? d y := by
  obtain ⟨d', b, hb, hdeep, hmark⟩ := declared?_markWritten hm
  have hself : t₁.declared? t.depth x = some (.storage v) := by rw [declared?_declare hd, if_pos ⟨rfl, rfl⟩]
  obtain rfl : d' = t.depth := by
    refine Nat.le_antisymm ?_ ?_
    · rw [← depth_declare hd]
      exact le_depth_of_declared? hb
    · by_contra hlt
      rw [hdeep _ (Nat.lt_of_not_le hlt)] at hself
      cases hself
  rw [hself] at hb
  cases hb
  rw [hmark, declared?_declare hd]
  split
  · rfl
  · rfl

/-- A parameter takes the next slot. -/
theorem nextSlot_param {t t₁ t₂ : SymbolTable} {x : String} {constant : Bool} {ty : Ty} {pos pos' : Position} {v : Variable}
    (hd : t.declare x constant ty pos = .ok (v, t₁)) (hm : t₁.markWritten x pos' = .ok t₂) :
    t₂.current.nextSlot = t.current.nextSlot + 1 ∧ t₂.depth = t.depth := by
  have hw := written_markWritten hm
  refine ⟨?_, (depth_of_written hw).trans (depth_declare hd)⟩
  rw [← nextSlot_current_written, hw, nextSlot_current_written]
  obtain ⟨-, -, rfl⟩ := declare_eq_ok.1 hd
  rw [current_setCurrent]

namespace DeclaresParams

variable {t t' : SymbolTable} {params : List (Param × Ty)}

theorem depth_eq (h : t.DeclaresParams params t') : t'.depth = t.depth := by
  induction h with
  | nil => rfl
  | cons hd hm _ ih => exact ih.trans (nextSlot_param hd hm).2

/-- Nothing is declared outside the innermost scope. -/
theorem declared?_of_ne (h : t.DeclaresParams params t') {d : Nat} (hd : d ≠ t.depth) (x : String) :
    t'.declared? d x = t.declared? d x := by
  induction h with
  | nil => rfl
  | cons hdecl hm _ ih =>
    rw [ih ((nextSlot_param hdecl hm).2 ▸ hd), declared?_param hdecl hm, if_neg]
    exact fun h => hd h.1

/-- Parameters stay as they are declared. -/
theorem declared?_of_some (h : t.DeclaresParams params t') {d : Nat} {x : String} {b : Binding} (hx : t.declared? d x = some b) :
    t'.declared? d x = some b := by
  induction h with
  | nil => exact hx
  | cons hdecl hm _ ih =>
    refine ih ?_
    rw [declared?_param hdecl hm, if_neg, hx]
    rintro ⟨rfl, rfl⟩
    rw [declared?_eq_none_of_declare hdecl] at hx
    cases hx

/-- The slots of the parameters are the next ones, in order. -/
theorem exists_declared? (h : t.DeclaresParams params t') {k : Nat} {p : Param} {ty : Ty} (hk : params[k]? = some (p, ty)) :
    ∃ v, t'.declared? t.depth p.name.name = some (.storage v) ∧ v.slot = t.current.nextSlot + k ∧ v.constant = p.constant := by
  induction h generalizing k with
  | nil => cases hk
  | @cons t t₁ t₂ t₃ q ty' v ps hdecl hm hps ih =>
    obtain ⟨hnext, hdepth⟩ := nextSlot_param hdecl hm
    cases k with
    | zero =>
      cases hk
      refine ⟨{ v with initialized := true }, hps.declared?_of_some ?_, ?_⟩
      · rw [declared?_param hdecl hm, if_pos ⟨rfl, rfl⟩]
      · obtain ⟨-, rfl, -⟩ := declare_eq_ok.1 hdecl
        exact ⟨rfl, rfl⟩
    | succ k =>
      obtain ⟨w, hw, hslot, hconstant⟩ := ih hk
      refine ⟨w, hdepth ▸ hw, ?_, hconstant⟩
      rw [hslot, hnext]
      omega

/-- What is declared is a parameter, and its slot is its number, or was declared before. -/
theorem exists_param (h : t.DeclaresParams params t') {x : String} {v : Variable}
    (hx : t'.declared? t.depth x = some (.storage v)) :
    t.declared? t.depth x = some (.storage v) ∨
      ∃ k p ty, params[k]? = some (p, ty) ∧ p.name.name = x ∧ v.slot = t.current.nextSlot + k := by
  induction h with
  | nil => exact .inl hx
  | @cons t t₁ t₂ t₃ q ty' w ps hdecl hm hps ih =>
    obtain ⟨hnext, hdepth⟩ := nextSlot_param hdecl hm
    rcases ih (hdepth.symm ▸ hx) with hbefore | ⟨k, p, ty, hk, hp, hslot⟩
    · rw [hdepth, declared?_param hdecl hm] at hbefore
      split at hbefore
      · rename_i hself
        cases hbefore
        obtain ⟨-, rfl, -⟩ := declare_eq_ok.1 hdecl
        exact .inr ⟨0, q, ty', rfl, hself.2.symm, rfl⟩
      · exact .inl hbefore
    · refine .inr ⟨k + 1, p, ty, hk, hp, ?_⟩
      rw [hslot, hnext]
      omega

end DeclaresParams

end SymbolTable

/-! ## Functions -/

/-- The parameters of the function. -/
def Function.params : Function → List Param
  | defn _ _ params _ _ _ => params
  | fault _ params _ => params

/-- While the unit is emitted, so is the body of the function. -/
def CompilationUnit.EmitsBodyOf (u : CompilationUnit) (f : Function) (E : Emission) : Prop :=
  ∃ a first fs pre post a₁, Emission.Runs ⟨.outermost, u.globals, .empty, a⟩ ∧ u.functions = first :: fs ∧
    u.functions = pre ++ f :: post ∧
    (pre.forM Function.emit : Assembling Unit).run (a.push .jmp (some 0) first.pos) = .ok ((), a₁) ∧ Function.EmitsBody [f] a₁ E

/-- Functions declare no variables outside. -/
theorem Function.CompiledAll.declared? {t t' : SymbolTable} {base : Nat} {fs : List Function} {code : List CodeLine}
    (h : CompiledAll t base fs code t') {d : Nat} {x : String} {v : Variable} (hx : t'.declared? d x = some (.storage v)) :
    ∃ w, t.declared? d x = some (.storage w) := by
  induction h generalizing v with
  | nil => exact ⟨v, hx⟩
  | cons hf _ ih =>
    obtain ⟨w, hx⟩ := ih hx
    obtain ⟨flag, hx⟩ := SymbolTable.declared?_storage_of_written hf.written.symm hx
    rw [SymbolTable.declared?_withFunction] at hx
    split at hx
    · cases hx
    · exact ⟨_, hx⟩

namespace Function

variable {f : Function} {fs : List Function} {a a' : Assembly} {E : Emission}

/-- Where the body of a function begins, the outermost scope holds the variables outside functions and the innermost one holds the
parameters. -/
structure Opens (f : Function) (a : Assembly) (E : Emission) : Prop where
  function : E.ctx.function.isSome = true
  nextAddress_eq : E.before.nextAddress = a.nextAddress
  depth_eq : E.before.symbols.depth = 1
  global_iff : ∀ x v, E.before.symbols.declared? 0 x = some (.storage v) ↔ a.symbols.declared? 0 x = some (.storage v)
  param : ∀ (k : Nat) q, f.params[k]? = some q →
    ∃ v, E.before.symbols.declared? 1 q.name.name = some (.storage v) ∧ v.slot = k ∧ v.constant = q.constant
  exists_param : ∀ x v, E.before.symbols.declared? 1 x = some (.storage v) → ∃ q, f.params[v.slot]? = some q ∧ q.name.name = x

/-- A function that is emitted opens its body so. -/
theorem opens {pos close : Position} {name target : Ident} {params : List Param} {body : Stmt} {types : List Ty} {ty : Ty}
    {t₁ t₂ : SymbolTable} {a₁ : Assembly} (hnested : a.symbols.nested = []) (htypes : List.Forall₂ Param.HasType params types)
    (h₁ : a.symbols.declareFunction name.name ⟨ty, a.nextAddress, types⟩ name.pos = .ok t₁)
    (h₂ : t₁.enterFunction.DeclaresParams (params.zip types) t₂) :
    Opens (defn pos name params target body close) a ⟨⟨some ty, none⟩, body, { a with symbols := t₂ }, a₁⟩ := by
  obtain ⟨hfresh, rfl⟩ := SymbolTable.declareFunction_eq_ok.1 h₁
  have hdepth : (a.symbols.withFunction name.name ⟨ty, a.nextAddress, types⟩).enterFunction.depth = 1 := by
    change a.symbols.nested.length + 1 = 1
    rw [hnested]
    rfl
  have hempty : ∀ x, (a.symbols.withFunction name.name ⟨ty, a.nextAddress, types⟩).enterFunction.declared? 1 x = none := by
    intro x
    rw [← hdepth, SymbolTable.declared?_depth]
    rfl
  have hzip : ∀ (k : Nat) q, params[k]? = some q → ∃ ty', (params.zip types)[k]? = some (q, ty') := by
    intro k q hk
    obtain ⟨hlt, rfl⟩ := List.getElem?_eq_some_iff.1 hk
    have hlt' : k < types.length := htypes.length_eq ▸ hlt
    exact ⟨types[k], by rw [List.getElem?_zip_eq_some]; exact ⟨hk, List.getElem?_eq_getElem hlt'⟩⟩
  refine ⟨rfl, rfl, h₂.depth_eq.trans hdepth, fun x v => ?_, fun k q hk => ?_, fun x v hx => ?_⟩
  · have hzero : t₂.declared? 0 x = _ := h₂.declared?_of_ne (by rw [hdepth]; exact Nat.zero_ne_one) x
    change t₂.declared? 0 x = _ ↔ _
    rw [hzero]
    change SymbolTable.declared? { a.symbols.withFunction _ _ with nested := .startingAt 0 :: _ } 0 x = _ ↔ _
    rw [SymbolTable.declared?_enter, SymbolTable.declared?_withFunction]
    split
    · rename_i hself
      have hnone : a.symbols.declared? 0 x = none := by
        have hcurrent := a.symbols.declared?_depth x
        rw [SymbolTable.depth, SymbolTable.current, hnested, hself.2] at hcurrent
        rw [hself.2, ← hfresh]
        exact hcurrent
      simp [hnone]
    · rfl
  · obtain ⟨ty', hk⟩ := hzip k q hk
    obtain ⟨v, hv, hslot, hconstant⟩ := h₂.exists_declared? hk
    rw [hdepth] at hv
    exact ⟨v, hv, hslot.trans (Nat.zero_add k), hconstant⟩
  · rw [← hdepth] at hx
    rcases h₂.exists_param hx with hbefore | ⟨k, q, ty', hk, hq, hslot⟩
    · rw [hdepth, hempty] at hbefore
      cases hbefore
    · obtain rfl : v.slot = k := hslot.trans (Nat.zero_add k)
      exact ⟨q, (List.getElem?_zip_eq_some.1 hk).1, hq⟩

theorem EmitsBody.opens (h : EmitsBody [f] a E) (hnested : a.symbols.nested = []) : f.Opens a E := by
  cases h with
  | head htypes hty h₁ h₂ hbody => exact Function.opens hnested htypes h₁ h₂
  | tail _ h => cases h

/-- The body that is emitted is that of one of the functions. -/
theorem EmitsBody.exists_of (h : EmitsBody fs a E) :
    ∃ f pre post a₁, fs = pre ++ f :: post ∧ (pre.forM emit : Assembling Unit).run a = .ok ((), a₁) ∧ EmitsBody [f] a₁ E := by
  induction h with
  | head htypes hty h₁ h₂ hbody => exact ⟨_, [], _, _, rfl, rfl, .head htypes hty h₁ h₂ hbody⟩
  | tail h₁ _ ih =>
    obtain ⟨f, pre, post, a₁, rfl, hpre, hbody⟩ := ih
    exact ⟨f, _ :: pre, post, a₁, rfl, run_forM_emit_cons.2 ⟨_, h₁, hpre⟩, hbody⟩

/-- Each function has a body. -/
theorem exists_emitsBody_of_mem (h : (fs.forM emit : Assembling Unit).run a = .ok ((), a')) (hf : f ∈ fs) :
    ∃ E pre post a₁, fs = pre ++ f :: post ∧ (pre.forM emit : Assembling Unit).run a = .ok ((), a₁) ∧ EmitsBody [f] a₁ E := by
  induction fs generalizing a with
  | nil => cases hf
  | cons g fs ih =>
    obtain ⟨a₁, h₁, h₂⟩ := run_forM_emit_cons.1 h
    rcases List.mem_cons.1 hf with rfl | hf
    · cases f with
      | fault => exact (run_emit_fault.1 h₁).elim
      | defn pos name params target body close =>
        obtain ⟨types, ty, t₁, t₂, a₂, htypes, hty, hd, hp, hbody, -⟩ := run_emit_defn.1 h₁
        exact ⟨_, [], fs, a, rfl, rfl, .head htypes hty hd hp hbody⟩
    · obtain ⟨E, pre, post, b, rfl, hpre, hE⟩ := ih h₂ hf
      exact ⟨E, g :: pre, post, b, rfl, run_forM_emit_cons.2 ⟨a₁, h₁, hpre⟩, hE⟩

/-- A body that is emitted is that of a function in the list. -/
theorem EmitsBody.exists_mem (h : EmitsBody fs a E) :
    ∃ pos name params target close, .defn pos name params target E.stmt close ∈ fs := by
  induction h with
  | head => exact ⟨_, _, _, _, _, List.mem_cons_self⟩
  | tail _ _ ih =>
    obtain ⟨pos, name, params, target, close, hmem⟩ := ih
    exact ⟨pos, name, params, target, close, List.mem_cons_of_mem _ hmem⟩

/-- Functions in front do not matter, but for the assembly that they leave. -/
theorem EmitsBody.behind {pre : List Function} (hpre : (pre.forM emit : Assembling Unit).run a = .ok ((), a'))
    (h : EmitsBody fs a' E) : EmitsBody (pre ++ fs) a E := by
  induction pre generalizing a with
  | nil =>
    obtain ⟨-, rfl⟩ := run_pure_eq_ok.1 hpre
    exact h
  | cons f pre ih =>
    obtain ⟨a₁, h₁, h₂⟩ := run_forM_emit_cons.1 hpre
    exact .tail h₁ (ih h₂)

section

variable {calls : Nat → Option Signature} {lines : List CodeLine}

/-- A function writes the variables outside functions that it notes as written. -/
theorem evolves_of_stands (hf : f.emit.run a = .ok ((), a')) (hnested : a.symbols.nested = []) (hs : AllStructured [f])
    (hstands : ∀ E, EmitsBody [f] a E → E.Stands calls lines) :
    Assembly.Evolves (Context.Writes ⟨some .void, none⟩ lines) 0 a a' ∧ a'.symbols.nested = [] := by
  cases f with
  | fault => exact (run_emit_fault.1 hf).elim
  | defn pos name params target body close =>
    obtain ⟨f, code, hcompiled, -⟩ := emitted hs.head hf
    obtain ⟨types, ty, t₁, t₂, a₁, htypes, hty, h₁, h₂, hbody, rfl⟩ := run_emit_defn.1 hf
    have hE : EmitsBody [defn pos name params target body close] a _ := .head htypes hty h₁ h₂ hbody
    have hopens := hE.opens hnested
    have hinside : Assembly.Evolves (Context.Writes ⟨some ty, none⟩ lines) 0 { a with symbols := t₂ } a₁ :=
      Emission.evolves_of_stands (hstands _ hE)
    refine ⟨?_, hcompiled.nested_eq_nil hnested⟩
    refine ((Assembly.Evolves.of_storage_iff (Nat.le_of_eq hopens.nextAddress_eq.symm) hopens.global_iff).trans hinside).trans ?_
    obtain ⟨code, waiting, hasm⟩ := Stmt.emitted hs.head hbody
    have hdepth : a₁.symbols.depth = 1 := (hasm.compiled 0).depth_eq.trans hopens.depth_eq
    have hne : a₁.symbols.nested ≠ [] := by
      intro hnil
      rw [SymbolTable.depth, hnil] at hdepth
      cases hdepth
    refine .of_storage_iff (Nat.le_trans (Nat.le_succ _) (Nat.le_of_eq (a₁.nextAddress_push ..).symm)) fun x v => ?_
    change a₁.symbols.leave.declared? 0 x = _ ↔ _
    rw [SymbolTable.declared?_leave hne, hdepth, if_neg Nat.zero_ne_one]

/-- So do functions in sequence. -/
theorem evolves_forM (hs : AllStructured fs) (h : (fs.forM emit : Assembling Unit).run a = .ok ((), a'))
    (hnested : a.symbols.nested = []) (hstands : ∀ E, EmitsBody fs a E → E.Stands calls lines) :
    Assembly.Evolves (Context.Writes ⟨some .void, none⟩ lines) 0 a a' ∧ a'.symbols.nested = [] := by
  induction fs generalizing a with
  | nil =>
    obtain ⟨-, rfl⟩ := run_pure_eq_ok.1 h
    exact ⟨.refl _, hnested⟩
  | cons f fs ih =>
    obtain ⟨a₁, h₁, h₂⟩ := run_forM_emit_cons.1 h
    have hs₁ : AllStructured [f] := hs.mono (List.cons_subset_cons f (List.nil_subset fs))
    have hf := evolves_of_stands h₁ hnested hs₁ fun E hE => hstands E (hE.append fs)
    have hfs := ih (hs.mono (List.subset_cons_self _ _)) h₂ hf.2 fun E hE => hstands E (.tail h₁ hE)
    exact ⟨hf.1.trans hfs.1, hfs.2⟩

/-- The instructions of functions that access a slot are those of their bodies. -/
theorem exists_emitsBody (hs : AllStructured fs) (h : (fs.forM emit : Assembling Unit).run a = .ok ((), a'))
    (hplaced : ∀ code, a'.code = a.code ++ code → StandsAt lines a.nextAddress code) {n : Nat} {line : CodeLine}
    (hn : a.nextAddress ≤ n) (hlt : n < a'.nextAddress) (hline : lines[n]? = some line)
    (hop : line.instruction.op.isAccess = true) :
    ∃ E, EmitsBody fs a E ∧ E.before.nextAddress ≤ n ∧ n < E.after.nextAddress := by
  induction fs generalizing a with
  | nil =>
    obtain ⟨-, rfl⟩ := run_pure_eq_ok.1 h
    exact absurd hlt (Nat.not_lt.2 hn)
  | cons f fs ih =>
    obtain ⟨a₁, h₁, h₂⟩ := run_forM_emit_cons.1 h
    have hs₂ : AllStructured fs := hs.mono (List.subset_cons_self _ _)
    obtain ⟨rest, -, hcode'⟩ := emittedAll hs₂ h₂
    cases f with
    | fault => exact (run_emit_fault.1 h₁).elim
    | defn pos name params target body close =>
      obtain ⟨types, ty, t₁, t₂, b, htypes, hty, hd, hp, hbody, rfl⟩ := run_emit_defn.1 h₁
      obtain ⟨code, waiting, hasm⟩ := Stmt.emitted hs.head hbody
      have hcode : (b.push .ret none close).code = a.code ++ (code 0 ++ [⟨⟨.ret, none⟩, close⟩]) := by
        rw [Assembly.code_push, hasm.code_eq, List.append_assoc]
        rfl
      have hstands : StandsAt lines a.nextAddress (code 0 ++ ⟨⟨.ret, none⟩, close⟩ :: rest) := by
        refine hplaced _ ?_
        rw [hcode']
        change (b.push .ret none close).code ++ rest = _
        rw [hcode]
        simp
      rcases Nat.lt_or_ge n b.nextAddress with hmid | hmid
      · exact ⟨_, .head htypes hty hd hp hbody, hn, hmid⟩
      · have hend : b.nextAddress = a.nextAddress + (code 0).length := hasm.nextAddress_eq 0
        have hpush : ({ b.push .ret none close with symbols := b.symbols.leave } : Assembly).nextAddress = b.nextAddress + 1 :=
          b.nextAddress_push ..
        rcases Nat.lt_or_eq_of_le hmid with hgt | rfl
        · obtain ⟨E, hE, hrange⟩ := by
            refine ih hs₂ h₂ (fun c hc => ?_) (Nat.le_trans (Nat.le_of_eq hpush) hgt)
            obtain rfl : c = rest := List.append_cancel_left (hc.symm.trans hcode')
            rw [hpush, hend]
            exact hstands.of_cons
          exact ⟨E, .tail h₁ hE, hrange⟩
        · rw [hend, hstands.getElem?_length] at hline
          cases hline
          cases hop

end

end Function

/-! ## Units -/

namespace CompilationUnit

variable {u : CompilationUnit} {f : Function} {a a' : Assembly} {E : Emission} {calls : Nat → Option Signature}
  {lines : List CodeLine}

/-- A unit begins with its declarations, and with the bodies of its functions. -/
theorem Begins.cases (h : u.Begins E) (hglobals : Emission.Runs ⟨.outermost, u.globals, .empty, a⟩) :
    E = ⟨.outermost, u.globals, .empty, a⟩ ∨ ∃ f, u.EmitsBodyOf f E := by
  cases h with
  | globals h =>
    rw [Emission.Runs, hglobals] at h
    cases h
    exact .inl rfl
  | body h hfs hE =>
    obtain ⟨f, pre, post, a₁, hsplit, hpre, hbody⟩ := hE.exists_of
    exact .inr ⟨f, _, _, _, pre, post, a₁, h, hfs, hsplit, hpre, hbody⟩

/-- Behind the functions no instruction accesses a slot. -/
theorem isAccess_callMain {pos : Position} {n : Nat} {line : CodeLine} (hn : a.nextAddress ≤ n)
    (hline : ((callMain pos a).push .ret none pos).code[n]? = some line) : line.instruction.op.isAccess = false := by
  rw [Assembly.nextAddress_eq] at hn
  rw [Assembly.code_push, code_callMain, List.append_assoc, List.getElem?_append_right hn] at hline
  rcases List.mem_append.1 (List.mem_of_getElem? hline) with hcall | hret
  · obtain ⟨f, -, rfl⟩ := List.mem_map.1 hcall
    rfl
  · obtain rfl := List.mem_singleton.1 hret
    rfl

/-- The instructions of a program that access a slot are those of the declarations outside functions and those of the bodies. -/
theorem exists_begins (hs : Function.AllStructured u.functions) (h : u.emit.run .empty = .ok ((), a))
    {n : Nat} {line : CodeLine} (hline : a.code[n]? = some line) (hop : line.instruction.op.isAccess = true) :
    ∃ E, u.Begins E ∧ E.before.nextAddress ≤ n ∧ n < E.after.nextAddress := by
  obtain ⟨a₁, a₂, pos, h₁, h₂, -, hmain, rfl⟩ := run_emit.1 h
  have hlt : n < a₂.nextAddress := by
    by_contra hge
    rw [isAccess_callMain (Nat.le_of_not_lt hge) hline] at hop
    cases hop
  rcases Nat.lt_or_ge n a₁.nextAddress with hglobals | hge
  · exact ⟨_, .globals h₁, Nat.zero_le n, hglobals⟩
  cases hfs : u.functions with
  | nil =>
    rw [hfs] at h₂
    obtain ⟨-, rfl⟩ := run_pure_eq_ok.1 h₂
    exact absurd hlt (Nat.not_lt.2 hge)
  | cons f fs =>
    rw [hfs] at h₂
    obtain ⟨a₃, h₃, rfl⟩ := run_emitFunctions_cons.1 h₂
    rw [← hfs] at h₃
    have hpush : (a₁.push .jmp (some 0) f.pos).nextAddress = a₁.nextAddress + 1 := a₁.nextAddress_push ..
    obtain ⟨rest, hrest⟩ : ∃ rest, ((callMain pos (a₃.patch a₁.nextAddress)).push .ret none pos).code =
        (a₃.patch a₁.nextAddress).code ++ rest := by
      rw [Assembly.code_push, code_callMain, List.append_assoc]
      exact ⟨_, rfl⟩
    have hjump : ∀ c, a₃.code = (a₁.push .jmp (some 0) f.pos).code ++ c →
        (a₃.patch a₁.nextAddress).code = a₁.code ++ ⟨⟨.jmp, some a₃.code.length⟩, f.pos⟩ :: c := by
      intro c hc
      rw [Assembly.code_push, List.append_assoc, List.singleton_append] at hc
      exact Assembly.code_patch_of_eq hc a₁.nextAddress_eq
    have hplaced : ∀ c, a₃.code = (a₁.push .jmp (some 0) f.pos).code ++ c →
        StandsAt ((callMain pos (a₃.patch a₁.nextAddress)).push .ret none pos).code a₁.nextAddress
          ([⟨⟨.jmp, some a₃.code.length⟩, f.pos⟩] ++ c) := by
      intro c hc
      have hall := StandsAt.self ((callMain pos (a₃.patch a₁.nextAddress)).push .ret none pos).code
      nth_rw 2 [hrest] at hall
      rw [hjump c hc] at hall
      have hright := hall.left.right
      rwa [Nat.zero_add, ← Assembly.nextAddress_eq] at hright
    rcases Nat.lt_or_eq_of_le hge with hgt | rfl
    · rw [Assembly.nextAddress_patch] at hlt
      obtain ⟨E, hE, hrange⟩ := Function.exists_emitsBody hs h₃ (fun c hc => hpush ▸ StandsAt.right (hplaced c hc))
        (hpush ▸ hgt) hlt hline hop
      exact ⟨E, .body h₁ hfs hE, hrange⟩
    · obtain ⟨c, -, hc⟩ := Function.emittedAll hs h₃
      rw [StandsAt.getElem?_head (hplaced c hc)] at hline
      cases hline
      cases hop

/-- The body of each function of a unit is emitted. -/
theorem exists_emitsBodyOf (h : u.emit.run .empty = .ok ((), a)) (hf : f ∈ u.functions) : ∃ E, u.EmitsBodyOf f E := by
  obtain ⟨g, a₂, pos, hglobals, h₂, -⟩ := run_emit.1 h
  cases hfs : u.functions with
  | nil =>
    rw [hfs] at hf
    cases hf
  | cons first fs =>
    rw [hfs] at h₂
    obtain ⟨a₃, h₃, rfl⟩ := run_emitFunctions_cons.1 h₂
    rw [← hfs] at h₃
    obtain ⟨E, pre, post, a₁, hsplit, hpre, hE⟩ := Function.exists_emitsBody_of_mem h₃ hf
    exact ⟨E, g, first, fs, pre, post, a₁, hglobals, hfs, hsplit, hpre, hE⟩

/-- The declarations of a unit of the grammar are a list, and so are the bodies of its functions. -/
theorem listed_of_programText {ts : List Token} {pos : Position} (hu : Grammar.ProgramText ts pos u) (h : u.Begins E) :
    E.stmt.Listed := by
  cases hu with
  | mk hd hf =>
    cases h with
    | globals => exact hd.listed
    | body _ _ hE =>
      obtain ⟨pos, name, params, target, close, hmem⟩ := hE.exists_mem
      exact hf.listed hmem

/-- The statements of the unit stand in `lines`, and its declarations lead to the assembly `g`. All instructions that access a slot
are those of the declarations and of the bodies of the functions. -/
structure Placed (u : CompilationUnit) (g : Assembly) (calls : Nat → Option Signature) (lines : List CodeLine) : Prop where
  globals : Emission.Runs ⟨.outermost, u.globals, .empty, g⟩
  structured : u.globals.Structured
  declarative : u.globals.Declarative
  allStructured : Function.AllStructured u.functions
  listed : ∀ E, u.Begins E → E.stmt.Listed
  stands : ∀ E, u.Begins E → E.Stands calls lines
  exists_body : ∀ f ∈ u.functions, ∃ E, u.EmitsBodyOf f E
  exists_begins : ∀ n line, lines[n]? = some line → line.instruction.op.isAccess = true →
    ∃ E, u.Begins E ∧ E.before.nextAddress ≤ n ∧ n < E.after.nextAddress

/-- A unit of the grammar that is emitted is placed so. -/
theorem exists_placed {ts : List Token} {pos : Position} (hu : Grammar.ProgramText ts pos u) (h : u.emit.run .empty = .ok ((), a)) :
    ∃ g calls, u.Placed g calls a.code := by
  obtain ⟨hg, hf⟩ := hu.structured
  obtain ⟨L, t, -, hstand⟩ := exists_standAll hg hf hu.declarative h
  obtain ⟨g, a₂, pos, hglobals, -⟩ := run_emit.1 h
  exact ⟨g, L.callee?, hglobals, hg, hu.declarative, hf, fun E hE => listed_of_programText hu hE, hstand.stands,
    fun f hf => exists_emitsBodyOf h hf, fun n line hline hop => exists_begins hf h hline hop⟩

namespace Placed

variable {g : Assembly}

theorem begins_globals (h : u.Placed g calls lines) : u.Begins ⟨.outermost, u.globals, .empty, g⟩ := .globals h.globals

theorem separate (h : u.Placed g calls lines) (hE : u.Begins E) : E.before.symbols.Separate E.ctx :=
  hE.separate h.structured h.allStructured

/-- Behind the declarations only the outermost scope is open. -/
theorem nested_eq_nil (h : u.Placed g calls lines) : g.symbols.nested = [] := by
  obtain ⟨code, waiting, hasm⟩ := Stmt.emitted h.structured h.globals
  exact List.eq_nil_of_length_eq_zero (hasm.compiled 0).depth_eq

/-- Where the body of a function begins, the variables outside functions are those declared at the beginning, and the ones noted as
written since have been written by functions. -/
theorem opens (h : u.Placed g calls lines) (hE : u.EmitsBodyOf f E) :
    u.Begins E ∧ ∃ a, f.Opens a E ∧ g.nextAddress < a.nextAddress ∧
      Assembly.Evolves (Context.Writes ⟨some .void, none⟩ lines) 0 g a ∧
      ∀ x v, a.symbols.declared? 0 x = some (.storage v) → ∃ w, g.symbols.declared? 0 x = some (.storage w) := by
  obtain ⟨b, first, fs, pre, post, a, hb, hfs, hsplit, hpre, hE⟩ := hE
  obtain rfl : g = b := by
    have hglobals := h.globals
    rw [Emission.Runs, hb] at hglobals
    cases hglobals
    rfl
  have hbody : ∀ F, Function.EmitsBody u.functions (g.push .jmp (some 0) first.pos) F → u.Begins F :=
    fun F hF => .body h.globals hfs hF
  have hstructured : Function.AllStructured pre := h.allStructured.mono (hsplit ▸ List.subset_append_left _ _)
  have hfunctions : Assembly.Evolves (Context.Writes ⟨some .void, none⟩ lines) 0 (g.push .jmp (some 0) first.pos) a ∧
      a.symbols.nested = [] := by
    refine Function.evolves_forM hstructured hpre h.nested_eq_nil fun F hF => h.stands F (hbody F ?_)
    exact hsplit ▸ hF.append _
  obtain ⟨code, hcompiled, -⟩ := Function.emittedAll hstructured hpre
  refine ⟨hbody E (hsplit ▸ ?_), a, hE.opens hfunctions.2, ?_, .trans (.push ..) hfunctions.1, fun x v hx => hcompiled.declared? hx⟩
  · exact .behind hpre (hE.append post)
  · exact Nat.lt_of_lt_of_le (Nat.lt_of_lt_of_eq (Nat.lt_succ_self _) (g.nextAddress_push ..).symm) hfunctions.1.le

end Placed

end CompilationUnit

end C0Stack
