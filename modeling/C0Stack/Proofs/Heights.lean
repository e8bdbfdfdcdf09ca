import C0Stack.Proofs.Code.Lines
import C0Stack.Proofs.Simulation.Basic

/-!
# Heights of the operand stack

How many operands each instruction takes and leaves, and from that how many are on the stack at each address, where nothing is on it
at the start: after `JMP` and `RET`, behind which nothing goes on, one counts from nothing again. Code that can be walked through
(`Walk`) never takes more than there is. The code of an expression leaves one value, or none if its type is `void`
(`HasType.walk`), and the code of a statement leaves the stack as it was (`Stmt.Compiled.walk`): all its jumps go where nothing is on
the stack, and a return inside a function has just the value that the function gives back.
-/

namespace C0Stack

/-- The number of values of an expression of the type, or of a call that returns it. -/
def Ty.width (ty : Ty) : Nat := if ty = .void then 0 else 1

@[simp] theorem Ty.width_void : Ty.void.width = 0 := rfl

/-- A type other than `void` has one value. -/
theorem Ty.width_of_ne {ty : Ty} (h : ty ≠ .void) : ty.width = 1 := if_neg h

/-! ## Effects -/

namespace Instruction

/-- How many operands the instruction takes. A call takes the arguments of the function that `calls` gives for its address. -/
def pops (calls : Nat → Option Signature) (i : Instruction) : Nat :=
  match i.op with
  | .lit | .lod | .lodg | .jmp | .ret => 0
  | .sto | .stog | .pop | .jz => 1
  | .call => ((i.operand.bind calls).map fun f => f.params.length).getD 0
  | _ => 2

/-- How many operands the instruction leaves in their place. A call leaves what the function returns. -/
def pushes (calls : Nat → Option Signature) (i : Instruction) : Nat :=
  match i.op with
  | .sto | .stog | .pop | .jz | .jmp | .ret => 0
  | .call => ((i.operand.bind calls).map fun f => f.returns.width).getD 0
  | _ => 1

/-- The height of the stack at an address that comes after the instruction in a run, where the height was `h`. -/
def leaves (calls : Nat → Option Signature) (h : Nat) (i : Instruction) : Nat := h - i.pops calls + i.pushes calls

/-- The height at the next address. Nothing goes on there after `JMP` and `RET`. -/
def next (calls : Nat → Option Signature) (h : Nat) (i : Instruction) : Nat :=
  if i.op = .jmp ∨ i.op = .ret then 0 else i.leaves calls h

variable {calls : Nat → Option Signature} {i : Instruction} {h : Nat}

/-- Behind an instruction other than `JMP` and `RET` a run goes on. -/
theorem next_of_ne (hjmp : i.op ≠ .jmp) (hret : i.op ≠ .ret) : i.next calls h = i.leaves calls h :=
  if_neg (not_or.2 ⟨hjmp, hret⟩)

end Instruction

/-- The height behind the code, where it is `h` in front of it. -/
def heightAfter (calls : Nat → Option Signature) (h : Nat) (code : List CodeLine) : Nat :=
  code.foldl (fun h line => line.instruction.next calls h) h

/-- The height behind two pieces is counted on from the first. -/
theorem heightAfter_append (calls : Nat → Option Signature) (h : Nat) (code code' : List CodeLine) :
    heightAfter calls h (code ++ code') = heightAfter calls (heightAfter calls h code) code' :=
  List.foldl_append

/-- The height at the address, with nothing on the stack at the start. -/
def height (calls : Nat → Option Signature) (lines : List CodeLine) (address : Nat) : Nat :=
  heightAfter calls 0 (lines.take address)

theorem height_zero (calls : Nat → Option Signature) (lines : List CodeLine) : height calls lines 0 = 0 := rfl

/-- The height at the next address follows from the instruction in front. -/
theorem height_succ {calls : Nat → Option Signature} {lines : List CodeLine} {n : Nat} {line : CodeLine}
    (h : lines[n]? = some line) : height calls lines (n + 1) = line.instruction.next calls (height calls lines n) := by
  rw [height, List.take_add_one, h, heightAfter_append]
  rfl

/-! ## Pieces of a program -/

/-- The code stands in the program, from the address on. -/
def StandsAt (lines : List CodeLine) (base : Nat) (code : List CodeLine) : Prop :=
  ∃ pre post, lines = pre ++ (code ++ post) ∧ pre.length = base

namespace StandsAt

variable {lines code code' : List CodeLine} {base : Nat}

theorem self (lines : List CodeLine) : StandsAt lines 0 lines := ⟨[], [], by simp, rfl⟩

/-- The first part of a piece stands where the piece does. -/
theorem left (h : StandsAt lines base (code ++ code')) : StandsAt lines base code := by
  obtain ⟨pre, post, hlines, hbase⟩ := h
  exact ⟨pre, code' ++ post, by rw [hlines, List.append_assoc], hbase⟩

theorem right (h : StandsAt lines base (code ++ code')) : StandsAt lines (base + code.length) code' := by
  obtain ⟨pre, post, hlines, hbase⟩ := h
  exact ⟨pre ++ code, post, by rw [hlines, List.append_assoc, List.append_assoc], by rw [List.length_append, hbase]⟩

/-- What comes behind a line stands one address further. -/
theorem of_cons {line : CodeLine} (h : StandsAt lines base (code ++ line :: code')) :
    StandsAt lines (base + code.length + 1) code' := by
  rw [List.append_cons] at h
  have hright := h.right
  rwa [List.length_append] at hright

/-- The lines of a piece are at its addresses. -/
theorem getElem? (h : StandsAt lines base code) {k : Nat} (hk : k < code.length) : lines[base + k]? = code[k]? := by
  obtain ⟨pre, post, rfl, rfl⟩ := h
  rw [List.getElem?_append_right (Nat.le_add_right _ _), Nat.add_sub_cancel_left, List.getElem?_append_left hk]

/-- The line in the middle of a piece is behind the first part. -/
theorem getElem?_length {line : CodeLine} (h : StandsAt lines base (code ++ line :: code')) :
    lines[base + code.length]? = some line := by
  rw [h.getElem? (by simp), List.getElem?_append_right (Nat.le_refl _), Nat.sub_self, List.getElem?_cons_zero]

/-- The lines of a piece are those at its addresses. -/
theorem mem_of_getElem? (h : StandsAt lines base code) {n : Nat} {line : CodeLine} (hline : lines[n]? = some line) (hn : base ≤ n)
    (hlt : n < base + code.length) : line ∈ code := by
  obtain ⟨k, rfl⟩ := Nat.exists_eq_add_of_le hn
  rw [h.getElem? (by omega)] at hline
  exact List.mem_of_getElem? hline

/-- The height behind a piece follows from the one in front of it. -/
theorem height_add (h : StandsAt lines base code) (calls : Nat → Option Signature) :
    height calls lines (base + code.length) = heightAfter calls (height calls lines base) code := by
  obtain ⟨pre, post, rfl, rfl⟩ := h
  rw [height, height, List.take_length_add_append, List.take_left, List.take_left, heightAfter_append]

/-- The height behind a line follows from the one in front of the piece. -/
theorem height_add_one {line : CodeLine} (h : StandsAt lines base (code ++ line :: code')) (calls : Nat → Option Signature) :
    height calls lines (base + code.length + 1) =
      line.instruction.next calls (heightAfter calls (height calls lines base) code) := by
  rw [List.append_cons] at h
  have hadd := h.left.height_add calls
  rwa [List.length_append, heightAfter_append] at hadd

/-- Behind a jump that is always taken, one counts from nothing again. -/
theorem height_behind_jmp {target : Option Nat} {pos : Position} (h : StandsAt lines base (code ++ ⟨⟨.jmp, target⟩, pos⟩ :: code'))
    (calls : Nat → Option Signature) : height calls lines (base + code.length + 1) = 0 :=
  h.height_add_one calls

end StandsAt

/-! ## Walks -/

/-- What a jump and a return must be like where the height is `h`: a jump finds just what it takes and goes to a target, and a return
has a height that it may have. -/
structure Instruction.Goes (calls : Nat → Option Signature) (target returns : Nat → Prop) (h : Nat) (i : Instruction) : Prop where
  jump : i.op.isJump = true → h = i.pops calls ∧ ∃ n, i.operand = some n ∧ target n
  ret : i.op = .ret → returns h

/-- An instruction that is no jump and no return goes nowhere else. -/
theorem Instruction.Goes.of_ne {calls : Nat → Option Signature} {target returns : Nat → Prop} {h : Nat} {i : Instruction}
    (hjump : i.op.isJump = false) (hret : i.op ≠ .ret) : i.Goes calls target returns h where
  jump hi := by
    rw [hjump] at hi
    cases hi
  ret hi := (hret hi).elim

/-- The code takes the height from the first to the second number, and on the way no instruction takes more than there is. -/
inductive Walk (calls : Nat → Option Signature) (target returns : Nat → Prop) : Nat → List CodeLine → Nat → Prop
  | nil {h : Nat} : Walk calls target returns h [] h
  | cons {h h' : Nat} {line : CodeLine} {code : List CodeLine} :
      line.instruction.pops calls ≤ h → line.instruction.Goes calls target returns h →
        Walk calls target returns (line.instruction.next calls h) code h' → Walk calls target returns h (line :: code) h'

namespace Walk

variable {calls : Nat → Option Signature} {target returns : Nat → Prop} {h h' h'' : Nat} {line : CodeLine}
  {code code' : List CodeLine}

/-- Two walks behind each other. -/
theorem append (hw : Walk calls target returns h code h') (hw' : Walk calls target returns h' code' h'') :
    Walk calls target returns h (code ++ code') h'' := by
  induction hw with
  | nil => exact hw'
  | cons hpops hgoes _ ih => exact .cons hpops hgoes (ih hw')

/-- Returns may have more heights. -/
theorem mono {returns' : Nat → Prop} (hw : Walk calls target returns h code h') (hreturns : ∀ n, returns n → returns' n) :
    Walk calls target returns' h code h' := by
  induction hw with
  | nil => exact .nil
  | cons hpops hgoes _ ih => exact .cons hpops ⟨hgoes.jump, fun hi => hreturns _ (hgoes.ret hi)⟩ ih

/-- Pieces that start and end with nothing on the stack. -/
theorem flatten {codes : List (List CodeLine)} (hw : ∀ code ∈ codes, Walk calls target returns 0 code 0) :
    Walk calls target returns 0 codes.flatten 0 := by
  induction codes with
  | nil => exact .nil
  | cons code codes ih =>
    exact (hw code List.mem_cons_self).append (ih fun c hc => hw c (List.mem_cons_of_mem _ hc))

theorem single (hpops : line.instruction.pops calls ≤ h) (hgoes : line.instruction.Goes calls target returns h)
    (hnext : line.instruction.next calls h = h') : Walk calls target returns h [line] h' :=
  .cons hpops hgoes (hnext ▸ .nil)

/-- An instruction that is no jump and no return. -/
theorem plain (hjump : line.instruction.op.isJump = false) (hret : line.instruction.op ≠ .ret)
    (hpops : line.instruction.pops calls ≤ h) (hleaves : line.instruction.leaves calls h = h') :
    Walk calls target returns h [line] h' := by
  refine single hpops (.of_ne hjump hret) ?_
  rw [Instruction.next_of_ne ?_ hret, hleaves]
  intro hop
  rw [hop] at hjump
  cases hjump

/-- The height behind the code is where the walk ends. -/
theorem heightAfter_eq (hw : Walk calls target returns h code h') : heightAfter calls h code = h' := by
  induction hw with
  | nil => rfl
  | cons _ _ _ ih => exact ih

/-- At each instruction of a walk there is as much on the stack as it takes. -/
theorem getElem? (hw : Walk calls target returns h code h') {k : Nat} (hk : code[k]? = some line) :
    line.instruction.pops calls ≤ heightAfter calls h (code.take k) ∧
      line.instruction.Goes calls target returns (heightAfter calls h (code.take k)) := by
  induction hw generalizing k with
  | nil => cases hk
  | cons hpops hgoes _ ih =>
    cases k with
    | zero =>
      cases hk
      exact ⟨hpops, hgoes⟩
    | succ k => exact ih hk

/-- What a walk through a piece of a program says about an address of it. -/
theorem at_address {lines : List CodeLine} {base : Nat} (hw : Walk calls target returns (height calls lines base) code h')
    (hstands : StandsAt lines base code) {k : Nat} (hk : code[k]? = some line) :
    line.instruction.pops calls ≤ height calls lines (base + k) ∧
      line.instruction.Goes calls target returns (height calls lines (base + k)) := by
  have hlt : k ≤ code.length := Nat.le_of_lt (List.getElem?_eq_some_iff.1 hk).1
  have hcut : StandsAt lines base (code.take k ++ code.drop k) := by rwa [List.take_append_drop]
  have hheight := hcut.left.height_add calls
  rw [List.length_take_of_le hlt] at hheight
  rw [hheight]
  exact hw.getElem? hk

end Walk

/-! ## Expressions -/

/-- The function is the one that `calls` gives for its address, and its parameters have values. -/
def Signature.Known (calls : Nat → Option Signature) (f : Signature) : Prop := calls f.entry = some f ∧ Ty.void ∉ f.params

section

variable {calls : Nat → Option Signature} {target returns : Nat → Prop} {ctx : Context}

/-- A literal leaves one operand. -/
theorem Walk.literal {n : Nat} {pos : Position} {h : Nat} : Walk calls target returns h [⟨⟨.lit, some n⟩, pos⟩] (h + 1) :=
  .plain rfl (by simp) (Nat.zero_le _) rfl

/-- So does the read of a variable. -/
theorem Walk.load {v : Variable} {pos : Position} {h : Nat} :
    Walk calls target returns h [⟨⟨ctx.loadOp v, some v.slot⟩, pos⟩] (h + 1) := by
  unfold Context.loadOp
  split
  · exact .plain rfl (by simp) (Nat.zero_le _) rfl
  · exact .plain rfl (by simp) (Nat.zero_le _) rfl

/-- The write of a variable takes one. -/
theorem Walk.store {v : Variable} {pos : Position} {h : Nat} :
    Walk calls target returns (h + 1) [⟨⟨ctx.storeOp v, some v.slot⟩, pos⟩] h := by
  unfold Context.storeOp
  split
  · exact .plain rfl (by simp) (Nat.le_add_left 1 h) rfl
  · exact .plain rfl (by simp) (Nat.le_add_left 1 h) rfl

theorem Walk.operator (op : BinaryOp) {pos : Position} {h : Nat} :
    Walk calls target returns (h + 1 + 1) [⟨⟨op.operation, none⟩, pos⟩] (h + 1) := by
  cases op <;> exact .plain rfl (by simp [BinaryOp.operation]) (Nat.le_add_left 2 h) rfl

/-- A call takes the arguments and leaves what the function returns. -/
theorem Walk.call {f : Signature} (hf : calls f.entry = some f) {pos : Position} {h : Nat} :
    Walk calls target returns (h + f.params.length) [⟨⟨.call, some f.entry⟩, pos⟩] (h + f.returns.width) := by
  have hpops : Instruction.pops calls ⟨.call, some f.entry⟩ = f.params.length := by simp [Instruction.pops, hf]
  have hpushes : Instruction.pushes calls ⟨.call, some f.entry⟩ = f.returns.width := by simp [Instruction.pushes, hf]
  refine .plain rfl (by simp) ?_ ?_
  · rw [hpops]
    exact Nat.le_add_left _ h
  · rw [Instruction.leaves, hpops, hpushes, Nat.add_sub_cancel]

mutual

/-- The code of an expression leaves its value, if it has one. -/
theorem HasType.walk {t : SymbolTable} {e : Expr} {ty : Ty} {Γ : Scopes} (h : HasType t.scopes e ty Γ)
    (ht : t.All (Binding.Callable (Signature.Known calls))) (height : Nat) :
    Walk calls target returns height (e.code ctx t) (height + ty.width) := by
  cases e with
  | literal | fault | cut => cases h
  | int =>
    cases h
    rw [Expr.code]
    exact .literal
  | var =>
    cases h with
    | var hx =>
      obtain ⟨v, hv, rfl, -⟩ := SymbolTable.find?_scopes_eq_var.1 hx
      rw [Expr.code, SymbolTable.codeFor_of_find? hv, Context.loadCode, Ty.width_of_ne (ht.of_find? hv)]
      exact .load
  | call =>
    cases h with
    | call hf hargs =>
      obtain ⟨f, hfind, rfl, rfl⟩ := SymbolTable.find?_scopes_eq_function.1 hf
      obtain ⟨hcalls, hparams⟩ := ht.of_find? hfind
      rw [Expr.code, SymbolTable.codeFor_of_find? hfind, Expr.callCode]
      exact (hargs.walk ht hparams height).append (.call hcalls)
  | assign =>
    cases h with
    | assign hx he =>
      obtain ⟨v, hv, rfl, -⟩ := SymbolTable.find?_scopes_eq_var.1 hx
      rw [Expr.code, SymbolTable.codeFor_of_find? hv, Context.storeCode]
      have hvalue := he.walk ht height
      rw [Ty.width_of_ne (ht.of_find? hv)] at hvalue
      exact hvalue.append .store
  | paren =>
    cases h with
    | paren he =>
      rw [Expr.code]
      exact he.walk ht height
  | neg =>
    cases h with
    | neg he hty =>
      have hoperand := he.walk ht (height + 1)
      rw [Ty.width_of_ne hty] at hoperand ⊢
      rw [Expr.code, ← List.singleton_append]
      exact Walk.literal.append (hoperand.append (.operator .sub))
  | cast =>
    cases h with
    | cast he hs _ hty =>
      have hvalue := he.walk ht height
      rw [Ty.width_of_ne hs] at hvalue
      rw [Expr.code, Ty.width_of_ne hty]
      exact hvalue
  | binary =>
    cases h with
    | binary hl hr hty =>
      obtain ⟨t₁, rfl, hw⟩ := hl.exists_table
      have hleft := hl.walk ht height
      have hright := hr.walk (ht.of_written Binding.callable_markWritten hw) (height + 1)
      rw [Ty.width_of_ne hty] at hleft hright
      rw [Expr.code_eq_of_written hw] at hright
      rw [Expr.code, Ty.width_of_ne]
      · exact hleft.append (hright.append (.operator _))
      · unfold BinaryOp.resultType
        split
        · exact Ty.noConfusion
        · exact hty

/-- The code of the arguments of a call leaves a value for each of them. -/
theorem HaveTypes.walk {t : SymbolTable} {es : List Expr} {tys : List Ty} {Γ : Scopes} (h : HaveTypes t.scopes es tys Γ)
    (ht : t.All (Binding.Callable (Signature.Known calls))) (htys : Ty.void ∉ tys) (height : Nat) :
    Walk calls target returns height (Expr.codeOfAll ctx t es) (height + tys.length) := by
  cases es with
  | nil =>
    cases h
    rw [Expr.codeOfAll]
    exact .nil
  | cons =>
    cases h with
    | cons he hes =>
      obtain ⟨t₁, rfl, hw⟩ := he.exists_table
      rw [List.mem_cons, not_or] at htys
      have hfirst := he.walk ht height
      have hrest := hes.walk (ht.of_written Binding.callable_markWritten hw) htys.2 (height + 1)
      rw [Ty.width_of_ne (Ne.symm htys.1)] at hfirst
      rw [Expr.codeOfAll_eq_of_written hw] at hrest
      rw [Expr.codeOfAll, List.length_cons, Nat.add_comm _ 1, ← Nat.add_assoc]
      exact hfirst.append hrest

end

end

/-! ## Statements -/

/-- The height that a return has in the context: inside a function it is that of a value of the return type. -/
def Context.Returns (ctx : Context) (h : Nat) : Prop := ∀ ty, ctx.function = some ty → h = ty.width

section

variable {calls : Nat → Option Signature} {target returns : Nat → Prop} {h' : Nat} {pos : Position} {code : List CodeLine}

/-- A condition and its `JZ`, which goes to a target, leave nothing for the code behind them. -/
theorem HasType.walk_condition {ctx : Context} {t : SymbolTable} {c : Expr} {ty : Ty} {Γ : Scopes} (h : HasType t.scopes c ty Γ)
    (hty : ty ≠ .void) (ht : t.All (Binding.Callable (Signature.Known calls))) {skip : Nat} (hskip : target skip)
    (hcode : Walk calls target returns 0 code h') :
    Walk calls target returns 0 (c.code ctx t ++ ⟨⟨.jz, some skip⟩, pos⟩ :: code) h' := by
  refine Walk.append (h.walk ht 0) ?_
  rw [Ty.width_of_ne hty]
  exact .cons (Nat.le_refl 1) ⟨fun _ => ⟨rfl, skip, rfl, hskip⟩, nofun⟩ hcode

/-- Behind a condition and its `JZ` there is nothing on the stack. -/
theorem HasType.height_behind_condition {ctx : Context} {t : SymbolTable} {c : Expr} {ty : Ty} {Γ : Scopes}
    (h : HasType t.scopes c ty Γ) (hty : ty ≠ .void) (ht : t.All (Binding.Callable (Signature.Known calls)))
    {lines : List CodeLine} {base skip : Nat} (hstands : StandsAt lines base (c.code ctx t ++ ⟨⟨.jz, some skip⟩, pos⟩ :: code))
    (hzero : height calls lines base = 0) : height calls lines (base + (c.code ctx t).length + 1) = 0 := by
  have hwalk : Walk calls (fun _ => True) (fun _ => True) 0 (c.code ctx t) (0 + ty.width) := h.walk ht 0
  rw [hstands.height_add_one, hzero, hwalk.heightAfter_eq, Ty.width_of_ne hty]
  rfl

/-- A jump with nothing on the stack goes to a target, and one counts from nothing behind it. -/
theorem Walk.jmp {n : Nat} (hn : target n) (hcode : Walk calls target returns 0 code h') :
    Walk calls target returns 0 (⟨⟨.jmp, some n⟩, pos⟩ :: code) h' :=
  .cons (Nat.zero_le _) ⟨fun _ => ⟨rfl, n, rfl, hn⟩, nofun⟩ hcode

/-- A return at a height that it may have. -/
theorem Walk.ret {h : Nat} (hh : returns h) : Walk calls target returns h [⟨⟨.ret, none⟩, pos⟩] 0 :=
  .single (Nat.zero_le _) ⟨nofun, fun _ => hh⟩ rfl

end

/-- Where the code of a statement stands in a program at an address with height zero, it leaves the stack as it was, if the loop
around it starts and ends at such addresses. -/
theorem Stmt.Compiled.walk {calls : Nat → Option Signature} {lines : List CodeLine} {ctx : Context} {exit : Nat}
    {t t' : SymbolTable} {base : Nat} {s : Stmt} {code : List CodeLine} (h : Compiled ctx exit t base s code t')
    (ht : t.All (Binding.Callable (Signature.Known calls))) (hstands : StandsAt lines base code)
    (hzero : height calls lines base = 0)
    (hloop : ∀ head, ctx.loop = some head → height calls lines head = 0 ∧ height calls lines exit = 0) :
    Walk calls (fun n => height calls lines n = 0) ctx.Returns 0 code 0 := by
  induction h with
  | nil | empty | decl => exact .nil
  | seq h₁ h₂ ih₁ ih₂ =>
    have ht₁ := h₁.all Binding.callable_markWritten (fun _ _ hv _ => hv) ht
    have hw₁ := ih₁ ht hstands.left hzero hloop
    have hmid := hstands.left.height_add calls
    rw [hzero, hw₁.heightAfter_eq] at hmid
    exact hw₁.append (ih₂ ht₁ hstands.right hmid hloop)
  | init hty hd he =>
    refine Walk.append (he.walk (ht.declare hd (Binding.callable_of_declare hty hd)) 0) ?_
    rw [Ty.width_of_ne hty]
    exact .store
  | @expr _ _ _ _ _ _ ty he _ =>
    refine Walk.append (he.walk ht 0) ?_
    by_cases hty : ty = .void
    · rw [if_pos hty, hty]
      exact .nil
    · rw [if_neg hty, Ty.width_of_ne hty]
      exact .plain rfl (by simp) (Nat.le_refl 1) rfl
  | block _ ih => exact ih (ht.enter _) hstands hzero hloop
  | ifThen hc hty hw _ _ hskip ih =>
    have hstart := hc.height_behind_condition hty ht hstands hzero
    have hbody := ih (ht.of_written Binding.callable_markWritten hw) hstands.of_cons hstart hloop
    refine hc.walk_condition hty ht ?_ hbody
    rw [hskip, hstands.of_cons.height_add, hstart, hbody.heightAfter_eq]
  | ifElse hc hty hw hw' _ _ hskip _ hstop ih ih' =>
    have ht₁ := ht.of_written Binding.callable_markWritten hw
    have hbodyStands := hstands.of_cons
    have hbody := ih ht₁ hbodyStands.left (hc.height_behind_condition hty ht hstands hzero) hloop
    have hother := hbodyStands.height_behind_jmp calls
    have hotherStands := hbodyStands.of_cons
    rw [← hskip] at hother hotherStands
    have hother' := ih' (ht₁.of_written Binding.callable_markWritten hw') hotherStands hother hloop
    refine hc.walk_condition hty ht ?_ (hbody.append (.jmp ?_ hother'))
    · exact hother
    · rw [hstop, hotherStands.height_add, hother, hother'.heightAfter_eq]
  | loop hc hty hw _ _ _ hstop ih =>
    -- the height behind the loop does not depend on the body, for the last instruction is a jump
    have hend := hstands.of_cons.height_behind_jmp calls
    rw [← hstop] at hend
    have hbody := ih (ht.of_written Binding.callable_markWritten hw) hstands.of_cons.left
      (hc.height_behind_condition hty ht hstands hzero) (by rintro _ ⟨⟩; exact ⟨hzero, hend⟩)
    refine hc.walk_condition hty ht ?_ (hbody.append (.jmp hzero .nil))
    exact hend
  | leave hl =>
    obtain ⟨head, hhead⟩ := Option.isSome_iff_exists.1 hl
    exact .jmp (hloop head hhead).2 .nil
  | again hl => exact .jmp (hloop _ hl).1 .nil
  | ret hty =>
    refine .ret fun ty hfunction => ?_
    rw [hty ty hfunction]
    rfl
  | retValue he _ hty =>
    refine Walk.append (he.walk ht 0) (.ret fun ty hfunction => ?_)
    rw [hty ty hfunction, Nat.zero_add]

end C0Stack
