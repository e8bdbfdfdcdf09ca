import C0Stack.Proofs.Code.CompilationUnit
import C0Stack.Proofs.Static.Depths

/-!
# Emission only appends

Whatever is emitted, the code in front of it stays as it is, the scopes that were open are open again, and of the scopes around the
innermost one nothing changes but that more of their slots have been written. Jumps out of the innermost loop may have been added
to those that wait for its end. This holds of every tree and every assembly (`Stmt.appends`).
-/

namespace C0Stack

/-! ## Notes of writes -/

namespace Frame

/-- The frame with the slots of the chosen names written. -/
def writing (f : Frame) (chosen : String → Bool) : Frame :=
  { f with bindings := f.bindings.map fun (x, b) => if chosen x then (x, b.markWritten) else (x, b) }

/-- The frames declare the same, but more slots may have been written in the second. -/
def Noted (f f' : Frame) : Prop := ∃ chosen, f' = f.writing chosen

/-- A frame in which no write is noted. -/
theorem Noted.refl (f : Frame) : f.Noted f := by
  refine ⟨fun _ => false, ?_⟩
  have hid : (fun p : String × Binding => if false then (p.1, p.2.markWritten) else (p.1, p.2)) = id := rfl
  rw [writing, hid, List.map_id]

/-- Writes that are noted one after another are noted together. -/
theorem writing_writing (f : Frame) (chosen chosen' : String → Bool) :
    (f.writing chosen).writing chosen' = f.writing fun x => chosen x || chosen' x := by
  unfold writing
  rw [List.map_map]
  congr 2
  funext p
  cases h : chosen p.1 <;> cases h' : chosen' p.1 <;> simp [h, h']

theorem Noted.trans {f₁ f₂ f₃ : Frame} (h : f₁.Noted f₂) (h' : f₂.Noted f₃) : f₁.Noted f₃ := by
  obtain ⟨chosen, rfl⟩ := h
  obtain ⟨chosen', rfl⟩ := h'
  exact ⟨_, f₁.writing_writing chosen chosen'⟩

/-- One write that is noted. -/
theorem noted_markWritten (f : Frame) (x : String) : f.Noted (f.markWritten x) := ⟨fun y => y == x, rfl⟩

end Frame

namespace SymbolTable

/-- The same for frames one by one. -/
abbrev NotedAll : List Frame → List Frame → Prop := List.Forall₂ Frame.Noted

theorem NotedAll.refl (fs : List Frame) : NotedAll fs fs := List.forall₂_same.2 fun f _ => .refl f

/-- Writes noted in the frames in two steps are noted. -/
theorem NotedAll.trans {fs₁ fs₂ fs₃ : List Frame} (h : NotedAll fs₁ fs₂) (h' : NotedAll fs₂ fs₃) : NotedAll fs₁ fs₃ := by
  induction h generalizing fs₃ with
  | nil => exact h'
  | cons hf _ ih =>
    cases h' with
    | cons hf' h' => exact .cons (hf.trans hf') (ih h')

/-- Writes noted in all frames are noted in those around the innermost. -/
theorem NotedAll.tail {fs fs' : List Frame} (h : NotedAll fs fs') : NotedAll fs.tail fs'.tail := by
  cases h with
  | nil => exact .nil
  | cons _ h => exact h

/-- Noting a write in the first frame that holds the name notes it in the frames. -/
theorem notedAll_markFirst? {x : String} {fs fs' : List Frame} (h : markFirst? x fs = some fs') : NotedAll fs fs' := by
  induction fs generalizing fs' with
  | nil => cases h
  | cons f fs ih =>
    rw [markFirst?] at h
    split at h
    · cases h
      exact .cons (f.noted_markWritten x) (NotedAll.refl fs)
    · obtain ⟨rest, hrest, rfl⟩ := Option.map_eq_some_iff.1 h
      exact .cons (.refl f) (ih hrest)

/-- Noting a write in a table notes it in its frames. -/
theorem notedAll_markWritten {t t' : SymbolTable} {x : String} {pos : Position} (h : t.markWritten x pos = .ok t') :
    NotedAll t.frames t'.frames := notedAll_markFirst? (markWritten_eq_ok.1 h)

end SymbolTable

/-! ## What emission leaves as it is -/

/-- The operation at an address. -/
def Program.operationAt? (p : Program) (n : Nat) : Option Operation := p.lines[n]?.map fun line => line.instruction.op

namespace Assembly

/-- `a'` is `a` with something appended: the code of `a` starts that of `a'`, the jumps that wait in addition have been emitted in
between, and the scopes that are open are those of `a`, with the ones around the innermost unchanged but for notes of writes. -/
structure Appends (a a' : Assembly) : Prop where
  code : a.code <+: a'.code
  breaks : ∃ waiting, a'.breaks = waiting ++ a.breaks ∧
    ∀ n ∈ waiting, a.nextAddress ≤ n ∧ a'.program.operationAt? n = some .jmp
  depth_eq : a'.symbols.depth = a.symbols.depth
  around : SymbolTable.NotedAll a.symbols.frames.tail a'.symbols.frames.tail

/-- The operation at an address, in the code as a list. -/
theorem operationAt?_eq (a : Assembly) (n : Nat) : a.program.operationAt? n = a.code[n]?.map fun line => line.instruction.op := by
  rw [Program.operationAt?, code, Array.getElem?_toList]

/-- What has been emitted stays where it is. -/
theorem operationAt?_of_isPrefix {a a' : Assembly} (h : a.code <+: a'.code) {n : Nat} {op : Operation}
    (hn : a.program.operationAt? n = some op) : a'.program.operationAt? n = some op := by
  rw [operationAt?_eq] at hn ⊢
  obtain ⟨line, hline, rfl⟩ := Option.map_eq_some_iff.1 hn
  obtain ⟨hlt, -⟩ := List.getElem?_eq_some_iff.1 hline
  obtain ⟨code, hcode⟩ := h
  rw [← hcode, List.getElem?_append_left hlt, hline]
  rfl

/-- An instruction is at the address that was next. -/
theorem operationAt?_push (a : Assembly) (op : Operation) (operand : Option Nat) (pos : Position) :
    (a.push op operand pos).program.operationAt? a.nextAddress = some op := by
  rw [operationAt?_eq, code_push, nextAddress_eq, List.getElem?_concat_length]
  rfl

/-- Patching changes operands only. -/
@[simp] theorem operationAt?_patch (a : Assembly) (address n : Nat) :
    (a.patch address).program.operationAt? n = a.program.operationAt? n := by
  rw [operationAt?_eq, operationAt?_eq, code_patch, List.getElem?_modify]
  cases a.code[n]? with
  | none => rfl
  | some line => split <;> rfl

/-- A jump is at the address that emitting it gives. -/
theorem operationAt?_of_emitJump {a a' : Assembly} {op : Operation} {pos : Position} {n : Nat}
    (h : (Assembling.emitJump op pos).run a = .ok (n, a')) : a'.program.operationAt? n = some op := by
  obtain ⟨rfl, rfl⟩ := Assembling.run_emitJump_eq_ok.1 h
  exact a.operationAt?_push op (some 0) pos

/-- Giving a jump its target leaves the operations as they are. -/
theorem operationAt?_of_patch {a a' : Assembly} {address : Nat} {u : Unit} (h : (Assembling.patch address).run a = .ok (u, a'))
    {n : Nat} : a'.program.operationAt? n = a.program.operationAt? n := by
  obtain rfl := Assembling.run_patch_eq_ok.1 h
  exact a.operationAt?_patch address n

namespace Appends

variable {a a' a₁ a₂ a₃ : Assembly}

theorem refl (a : Assembly) : Appends a a := ⟨List.prefix_refl _, ⟨[], rfl, List.forall_mem_nil _⟩, rfl, .refl _⟩

theorem nextAddress_le (h : Appends a a') : a.nextAddress ≤ a'.nextAddress := h.code.length_le

/-- What is appended in two steps is appended. -/
theorem trans (h : Appends a₁ a₂) (h' : Appends a₂ a₃) : Appends a₁ a₃ where
  code := h.code.trans h'.code
  breaks := by
    obtain ⟨waiting, hbreaks, hjumps⟩ := h.breaks
    obtain ⟨waiting', hbreaks', hjumps'⟩ := h'.breaks
    refine ⟨waiting' ++ waiting, by rw [hbreaks', hbreaks, List.append_assoc], List.forall_mem_append.2 ⟨?_, ?_⟩⟩
    · intro n hn
      exact ⟨Nat.le_trans h.nextAddress_le (hjumps' n hn).1, (hjumps' n hn).2⟩
    · intro n hn
      exact ⟨(hjumps n hn).1, operationAt?_of_isPrefix h'.code (hjumps n hn).2⟩
  depth_eq := h'.depth_eq.trans h.depth_eq
  around := h.around.trans h'.around

/-- An instruction is appended. -/
theorem push (a : Assembly) (op : Operation) (operand : Option Nat) (pos : Position) : Appends a (a.push op operand pos) where
  code := by rw [code_push]; exact List.prefix_append _ _
  breaks := ⟨[], rfl, List.forall_mem_nil _⟩
  depth_eq := rfl
  around := .refl _

theorem emitJump {op : Operation} {pos : Position} {n : Nat} (h : (Assembling.emitJump op pos).run a = .ok (n, a')) :
    Appends a a' := by
  obtain ⟨rfl, rfl⟩ := Assembling.run_emitJump_eq_ok.1 h
  exact push a op (some 0) pos

/-- A jump that has been appended may be given its target. -/
theorem patch (h : Appends a a') {n : Nat} (hn : a.nextAddress ≤ n) : Appends a (a'.patch n) where
  code := by
    rw [code_patch, List.modify_eq_take_drop]
    exact (List.prefix_take_iff.2 ⟨h.code, hn⟩).trans (List.prefix_append _ _)
  breaks := by simpa using h.breaks
  depth_eq := h.depth_eq
  around := h.around

/-- Jumps that have been appended may be given their targets. -/
theorem patchAll (h : Appends a a') {ns : List Nat} (hns : ∀ n ∈ ns, a.nextAddress ≤ n) :
    Appends a (ns.foldl Assembly.patch a') := by
  induction ns generalizing a' with
  | nil => exact h
  | cons n ns ih =>
    obtain ⟨hn, hns⟩ := List.forall_mem_cons.1 hns
    exact ih (h.patch hn) hns

/-- A change of the names that keeps the scopes around the innermost one appends nothing else. -/
theorem of_symbols {t : SymbolTable} (hdepth : t.depth = a.symbols.depth)
    (haround : SymbolTable.NotedAll a.symbols.frames.tail t.frames.tail) : Appends a { a with symbols := t } :=
  ⟨List.prefix_refl _, ⟨[], rfl, List.forall_mem_nil _⟩, hdepth, haround⟩

/-- A declaration changes the innermost scope only. -/
theorem declare {t : SymbolTable} {x : String} {constant : Bool} {ty : Ty} {pos : Position} {v : Variable}
    (h : a.symbols.declare x constant ty pos = .ok (v, t)) : Appends a { a with symbols := t } := by
  refine .of_symbols (SymbolTable.depth_declare h) ?_
  obtain ⟨-, -, rfl⟩ := SymbolTable.declare_eq_ok.1 h
  rw [SymbolTable.frames_setCurrent]
  exact .refl _

theorem markWritten {t : SymbolTable} {x : String} {pos : Position} (h : a.symbols.markWritten x pos = .ok t) :
    Appends a { a with symbols := t } :=
  .of_symbols (SymbolTable.depth_of_written (SymbolTable.written_markWritten h)) (SymbolTable.notedAll_markWritten h).tail

/-- What has been appended in a scope of its own leaves all of the scopes around it. -/
theorem leave {f : Frame} (h : Appends { a with symbols := { a.symbols with nested := f :: a.symbols.nested } } a') :
    Appends a { a' with symbols := a'.symbols.leave } ∧ SymbolTable.NotedAll a.symbols.frames a'.symbols.leave.frames := by
  have hnested : a'.symbols.nested ≠ [] := by
    have hdepth := h.depth_eq
    intro hnil
    rw [SymbolTable.depth, hnil] at hdepth
    cases hdepth
  have hframes : a'.symbols.leave.frames = a'.symbols.frames.tail := by
    unfold SymbolTable.leave SymbolTable.frames
    rw [List.tail_append_of_ne_nil hnested]
  have hall : SymbolTable.NotedAll a.symbols.frames a'.symbols.leave.frames := hframes ▸ h.around
  refine ⟨⟨h.code, h.breaks, ?_, hall.tail⟩, hall⟩
  have hdepth : a'.symbols.depth = a.symbols.depth + 1 := h.depth_eq
  rw [SymbolTable.depth, SymbolTable.leave, List.length_tail]
  unfold SymbolTable.depth at hdepth ⊢
  omega

/-- The jumps out of a loop do not wait any more behind it. -/
theorem closeLoop (h : Appends { a with breaks := [] } a') : Appends a { a' with breaks := a.breaks } :=
  ⟨h.code, ⟨[], rfl, List.forall_mem_nil _⟩, h.depth_eq, h.around⟩

end Appends

end Assembly

/-! ## Expressions -/

namespace Expr

variable {ctx : Context}

mutual

/-- An expression notes writes, and changes nothing else about the names in scope. -/
theorem notedAll {e : Expr} {ty : Ty} {a a' : Assembly} (h : (e.emit ctx).run a = .ok (ty, a')) :
    SymbolTable.NotedAll a.symbols.frames a'.symbols.frames := by
  cases e with
  | int pos n =>
    obtain ⟨-, rfl⟩ := run_emit_int.1 h
    exact .refl _
  | literal pos kind =>
    rw [emit] at h
    exact (Assembling.run_fail_eq_ok.1 h).elim
  | var x =>
    obtain ⟨v, -, -, -, rfl⟩ := run_emit_var.1 h
    exact .refl _
  | call f args =>
    obtain ⟨s, a₁, -, hargs, hlen, -, rfl⟩ := run_emit_call.1 h
    rw [Assembly.symbols_push]
    exact notedAll_arguments hlen hargs
  | assign x value =>
    obtain ⟨v, a₁, t, -, -, hvalue, ht, -, rfl⟩ := run_emit_assign.1 h
    exact (notedAll hvalue).trans (SymbolTable.notedAll_markWritten ht)
  | paren pos inner =>
    rw [emit_paren] at h
    exact notedAll h
  | neg pos operand =>
    obtain ⟨a₁, hoperand, -, rfl⟩ := run_emit_neg.1 h
    have hoperand := notedAll hoperand
    rwa [Assembly.symbols_push] at hoperand ⊢
  | cast value pos target =>
    obtain ⟨source, hvalue, -⟩ := run_emit_cast.1 h
    exact notedAll hvalue
  | binary left op pos right =>
    obtain ⟨operand, a₁, a₂, hleft, hright, -, -, rfl⟩ := run_emit_binary.1 h
    rw [Assembly.symbols_push]
    exact (notedAll hleft).trans (notedAll hright)
  | fault error =>
    rw [emit] at h
    exact (Assembling.run_throw_eq_ok.1 h).elim
  | cut read error =>
    rw [emit, Assembling.run_bind_eq_ok] at h
    obtain ⟨_, _, -, h⟩ := h
    exact (Assembling.run_throw_eq_ok.1 h).elim

/-- The arguments of a call note writes, and change nothing else about the names in scope. -/
theorem notedAll_arguments {es : List Expr} {tys : List Ty} (hlen : es.length = tys.length) {a a' : Assembly} {u : Unit}
    (h : (emitArguments ctx tys es).run a = .ok (u, a')) : SymbolTable.NotedAll a.symbols.frames a'.symbols.frames := by
  cases es with
  | nil =>
    rw [emitArguments] at h
    obtain ⟨-, rfl⟩ := Assembling.run_pure_eq_ok.1 h
    exact .refl _
  | cons e es =>
    cases tys with
    | nil => cases hlen
    | cons ty tys =>
      obtain ⟨a₁, he, hes⟩ := run_emitArguments_cons.1 h
      exact (notedAll he).trans (notedAll_arguments (Nat.succ.inj hlen) hes)

end

/-- What an expression emits is appended to the assembly. -/
theorem appends {e : Expr} {ty : Ty} {a a' : Assembly} (h : (e.emit ctx).run a = .ok (ty, a')) : a.Appends a' where
  code := by rw [(emitted h).code_eq]; exact List.prefix_append _ _
  breaks := ⟨[], (emitted h).breaks_eq, List.forall_mem_nil _⟩
  depth_eq := SymbolTable.depth_of_written (emitted h).written
  around := (notedAll h).tail

end Expr

/-! ## Statements -/

namespace Stmt

open Assembly

/-- What a statement emits is appended to the assembly. -/
theorem appends {s : Stmt} {ctx : Context} {a a' : Assembly} {u : Unit} (h : (s.emit ctx).run a = .ok (u, a')) : a.Appends a' := by
  induction s generalizing ctx a a' u with
  | nil | empty =>
    rw [emit] at h
    obtain ⟨-, rfl⟩ := Assembling.run_pure_eq_ok.1 h
    exact .refl _
  | seq first rest ihfirst ihrest =>
    obtain ⟨a₁, h₁, h₂⟩ := run_emit_seq.1 h
    exact (ihfirst h₁).trans (ihrest h₂)
  | decl pos constant x target init =>
    cases init with
    | none =>
      obtain ⟨ty, v, t, -, -, ht, rfl⟩ := run_emit_decl.1 h
      exact .declare ht
    | some e =>
      obtain ⟨ty, v, t, a₁, t₁, -, -, ht, he, ht₁, rfl⟩ := run_emit_init.1 h
      have hstore := Appends.push a₁ (ctx.storeOp v) (some v.slot) pos
      exact (((Appends.declare ht).trans (Expr.appends he)).trans hstore).trans (.markWritten ht₁)
  | expr e =>
    obtain ⟨ty, a₁, he, rfl⟩ := run_emit_expr.1 h
    split
    · exact Expr.appends he
    · exact (Expr.appends he).trans (.push a₁ _ _ _)
  | block body ih =>
    obtain ⟨a₁, hbody, rfl⟩ := run_emit_block.1 h
    exact (ih hbody).leave.1
  | ifThen pos condition body ih =>
    obtain ⟨ty, a₁, a₂, hc, -, hbody, rfl⟩ := run_emit_ifThen.1 h
    have hcond := Expr.appends hc
    exact ((hcond.trans (.push a₁ _ _ _)).trans (ih hbody)).patch hcond.nextAddress_le
  | ifElse pos condition body elsePos other ihbody ihother =>
    obtain ⟨ty, a₁, a₂, a₃, hc, -, hbody, hother, rfl⟩ := run_emit_ifElse.1 h
    have hcond := Expr.appends hc
    have hthen := (hcond.trans (.push a₁ .jz (some 0) pos)).trans (ihbody hbody)
    have helse := (hthen.trans (.push a₂ .jmp (some 0) elsePos)).patch hcond.nextAddress_le
    exact (helse.trans (ihother hother)).patch hthen.nextAddress_le
  | loop pos condition body ih =>
    obtain ⟨ty, a₁, a₂, hc, -, hbody, rfl⟩ := run_emit_loop.1 h
    have hcond := Expr.appends hc
    have hjz := hcond.trans (.push a₁ .jz (some 0) pos)
    have hloop := hjz.trans (ih hbody).closeLoop
    refine ((hloop.trans (.push _ _ _ _)).patch hcond.nextAddress_le).patchAll ?_
    -- the jumps that the body leaves waiting were emitted in it
    obtain ⟨waiting, hbreaks, hwaiting⟩ := (ih hbody).breaks
    have hbreaks : a₂.breaks = waiting := hbreaks.trans (List.append_nil _)
    intro n hn
    exact Nat.le_trans hjz.nextAddress_le (hwaiting n (hbreaks ▸ hn)).1
  | leave pos =>
    obtain ⟨-, rfl⟩ := run_emit_leave.1 h
    have hpush := Appends.push a .jmp (some 0) pos
    refine ⟨hpush.code, ⟨[a.nextAddress], rfl, ?_⟩, rfl, hpush.around⟩
    intro n hn
    obtain rfl := List.mem_singleton.1 hn
    exact ⟨Nat.le_refl _, a.operationAt?_push .jmp (some 0) pos⟩
  | again pos =>
    obtain ⟨head, -, rfl⟩ := run_emit_again.1 h
    exact .push a _ _ _
  | ret pos stop =>
    obtain ⟨-, rfl⟩ := run_emit_ret.1 h
    exact .push a _ _ _
  | retValue pos e =>
    obtain ⟨found, a₁, he, -, rfl⟩ := run_emit_retValue.1 h
    exact (Expr.appends he).trans (.push a₁ _ _ _)
  | fault error =>
    rw [emit_fault] at h
    exact (Assembling.run_throw_eq_ok.1 h).elim

end Stmt

end C0Stack
