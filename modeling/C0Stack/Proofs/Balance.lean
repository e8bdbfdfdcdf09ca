import C0Stack.Proofs.Emission.CompilationUnit

/-!
# The operand stack is balanced

For every address of a compiled program there is a height of the operand stack, which each instruction changes by what it takes and
leaves. It is zero where a function or a statement starts, where a statement ends and where a jump goes. At the `RET` of a return it
is one if a value is returned. Of the other `RET`s only the last one of a program can have a height other than zero: it has one if
the function `main` returns a value, for this value stays on the stack.
-/

namespace C0Stack

/-- The heights `H` fit the program, in which `calls` gives the function at each address that is called, and in which the statements
of `emits` are emitted. A `RET` has height one if it is that of a return of a value, or if `final` holds of its address. -/
structure Balanced (p : Program) (calls : Nat → Option Signature) (emits : Emission → Prop) (final : Nat → Prop) (H : Nat → Nat) :
    Prop where
  start : H 0 = 0
  entry : ∀ n f, calls n = some f → H n = 0
  fits : ∀ n i, p.instructions[n]? = some i → i.pops calls ≤ H n
  falls : ∀ n i, p.instructions[n]? = some i → i.op ≠ .jmp → i.op ≠ .ret → H (n + 1) = H n - i.pops calls + i.pushes calls
  jumps : ∀ n i, p.instructions[n]? = some i → i.op.isJump = true →
    ∃ m, i.operand = some m ∧ H m = H n - i.pops calls + i.pushes calls ∧ H m = 0
  begins : ∀ E, emits E → H E.before.nextAddress = 0
  ends : ∀ E, emits E → H E.after.nextAddress = 0
  one : ∀ n i, p.instructions[n]? = some i → i.op = .ret →
    (∃ E ty, emits E ∧ E.Returns ty n ∧ ty ≠ .void) ∨ final n → H n = 1
  zero : ∀ n i, p.instructions[n]? = some i → i.op = .ret →
    ¬ ((∃ E ty, emits E ∧ E.Returns ty n ∧ ty ≠ .void) ∨ final n) → H n = 0

/-- The instruction at an address is that of the line there. -/
theorem Program.getElem?_instructions {p : Program} {n : Nat} {i : Instruction} :
    p.instructions[n]? = some i ↔ ∃ line, p.lines.toList[n]? = some line ∧ line.instruction = i := by
  rw [instructions, List.getElem?_map, Option.map_eq_some_iff]

/-- A jump leaves nothing in the place of what it takes. -/
theorem Instruction.pushes_of_isJump {calls : Nat → Option Signature} {i : Instruction} (h : i.op.isJump = true) :
    i.pushes calls = 0 := by
  obtain ⟨op, operand⟩ := i
  cases op with
  | jmp | jz => rfl
  | _ => cases h

/-- A program that can be walked through is balanced, if its statements stand in it and its `RET`s are as they should be. -/
theorem Balanced.of_walk {p : Program} {calls : Nat → Option Signature} {emits : Emission → Prop} {final : Nat → Prop} {h' : Nat}
    (hwalk : Walk calls (fun n => height calls p.lines.toList n = 0) (fun _ => True) 0 p.lines.toList h')
    (hentry : ∀ n f, calls n = some f → height calls p.lines.toList n = 0)
    (hstands : ∀ E, emits E → E.Stands calls p.lines.toList) (hfinal : ∀ n, final n → height calls p.lines.toList n = 1)
    (hreturns : ∀ n line, p.lines.toList[n]? = some line → line.instruction.op = .ret →
      (∃ E ty, emits E ∧ E.Returns ty n) ∨ final n ∨ height calls p.lines.toList n = 0) :
    Balanced p calls emits final (height calls p.lines.toList) := by
  have hat : ∀ {n : Nat} {line : CodeLine}, p.lines.toList[n]? = some line →
      line.instruction.pops calls ≤ height calls p.lines.toList n ∧
        line.instruction.Goes calls (fun n => height calls p.lines.toList n = 0) (fun _ => True)
          (height calls p.lines.toList n) := by
    intro n line hline
    have hn := hwalk.at_address (.self _) hline
    rwa [Nat.zero_add] at hn
  refine ⟨rfl, hentry, ?_, ?_, ?_, fun E hE => (hstands E hE).zero, fun E hE => (hstands E hE).zero_after, ?_, ?_⟩
  · intro n i hi
    obtain ⟨line, hline, rfl⟩ := Program.getElem?_instructions.1 hi
    exact (hat hline).1
  · intro n i hi hjmp hret
    obtain ⟨line, hline, rfl⟩ := Program.getElem?_instructions.1 hi
    rw [height_succ hline, Instruction.next_of_ne hjmp hret]
    rfl
  · intro n i hi hjump
    obtain ⟨line, hline, rfl⟩ := Program.getElem?_instructions.1 hi
    obtain ⟨hh, m, hm, hzero⟩ := (hat hline).2.jump hjump
    refine ⟨m, hm, ?_, hzero⟩
    rw [hzero, hh, Nat.sub_self, Instruction.pushes_of_isJump hjump]
  · intro n i _ _ hvalue
    rcases hvalue with ⟨E, ty, hE, hreturn, hty⟩ | hn
    · rw [(hstands E hE).height_of_returns hreturn, Ty.width_of_ne hty]
    · exact hfinal n hn
  · intro n i hi hret hvalue
    obtain ⟨line, hline, rfl⟩ := Program.getElem?_instructions.1 hi
    rcases hreturns n line hline hret with ⟨E, ty, hE, hreturn⟩ | hn | hn
    · have hty : ty = .void := by_contra fun hty => hvalue (.inl ⟨E, ty, hE, hreturn, hty⟩)
      rw [(hstands E hE).height_of_returns hreturn, hty, Ty.width_void]
    · exact (hvalue (.inr hn)).elim
    · exact hn

/-! ## Statements -/

/-- Statements stand in their own code. -/
theorem Stmt.Structured.stands {S : Stmt} {a : Assembly} (hS : S.Structured) (h : (S.emit .outermost).run .empty = .ok ((), a)) :
    Emission.Stands (fun _ => none) a.code ⟨.outermost, S, .empty, a⟩ := by
  refine ⟨h, hS, .of_nested_eq_nil rfl nofun, rfl, 0, nofun, fun code waiting hasm => ?_⟩
  have hcode : a.code = code 0 := hasm.code_eq
  rw [← hcode]
  exact .self _

/-- Statements are balanced. -/
theorem Stmt.Structured.balanced {S : Stmt} {a : Assembly} (hS : S.Structured) (h : (S.emit .outermost).run .empty = .ok ((), a)) :
    Balanced a.program (fun _ => none) (Emission.Covers ⟨.outermost, S, .empty, a⟩) (fun _ => False)
      (height (fun _ => none) a.code) := by
  obtain ⟨code, waiting, hasm⟩ := Stmt.emitted hS h
  have hstands := hS.stands h
  have hknown : SymbolTable.empty.All (Binding.Callable (Signature.Known fun _ => none)) := hstands.known
  have hcode : a.code = code 0 := hasm.code_eq
  have hself : StandsAt a.code 0 (code 0) := hcode ▸ .self _
  have hwalk := (hasm.compiled 0).walk hknown hself rfl nofun
  rw [← hcode] at hwalk
  refine .of_walk (hwalk.mono fun _ _ => trivial) nofun (fun E hE => hstands.of_covers hE) nofun fun n line hline hret => .inl ?_
  obtain ⟨E, ty, hE, hreturn⟩ := hstands.hasReturn (Nat.zero_le n) (List.getElem?_eq_some_iff.1 hline).1 hline hret
  exact ⟨E, ty, hE, hreturn⟩

/-! ## Programs -/

/-- Each of several pieces in a row stands behind those before it. -/
theorem StandsAt.flatten {lines : List CodeLine} {base : Nat} {codes : List (List CodeLine)} (h : StandsAt lines base codes.flatten)
    {k : Nat} {code : List CodeLine} (hk : codes[k]? = some code) :
    StandsAt lines (base + (codes.take k).flatten.length) code := by
  obtain ⟨hlt, rfl⟩ := List.getElem?_eq_some_iff.1 hk
  have hsplit : codes.flatten = (codes.take k).flatten ++ (codes[k] ++ (codes.drop (k + 1)).flatten) := by
    rw [← List.flatten_cons, ← List.flatten_append, List.getElem_cons_drop, List.take_append_drop]
  rw [hsplit] at h
  exact h.right.left

/-- A function that is laid out is known by its entry. -/
theorem Layout.Lays.known {L : Layout} {u : CompilationUnit} (h : L.Lays u) {k : Nat} {f : Signature} {code : List CodeLine}
    (hk : L.functions[k]? = some (f, code)) : f.Known L.callee? := by
  refine ⟨by rw [h.entry_eq k f code hk, h.callee?_entry hk], fun hvoid => ?_⟩
  obtain ⟨d, -, hd⟩ := h.exists_defn hk
  cases d with
  | fault => exact hd
  | defn =>
    obtain ⟨i, hi, hget⟩ := List.getElem_of_mem hvoid
    have htypes := List.forall₂_iff_get.1 hd.1
    exact (htypes.2 i (htypes.1 ▸ hi) hi).2 hget

namespace CompilationUnit.LaidOut

variable {u : CompilationUnit} {L : Layout} {lines : List CodeLine} {t : SymbolTable}

/-- The functions start behind the jump past them. -/
theorem stands_bodies (h : u.LaidOut L lines t) (hne : L.functions ≠ []) :
    StandsAt lines (L.entry 0) L.bodies.flatten ∧ ∀ calls, height calls lines (L.entry 0) = 0 := by
  obtain ⟨jump, call, last, hjump, -, hlines⟩ := h.lines_eq
  rw [Layout.jump, if_neg (by simpa using hne), List.map_eq_singleton_iff] at hjump
  obtain ⟨⟨_, pos⟩, rfl, rfl⟩ := hjump
  have hall : StandsAt lines 0 lines := .self lines
  nth_rw 2 [hlines] at hall
  have hstands := hall.left
  rw [List.singleton_append] at hstands
  have hentry : L.entry 0 = 0 + L.globals.length + 1 := by simp [Layout.entry]
  rw [hentry]
  exact ⟨hstands.of_cons, hstands.height_behind_jmp⟩

/-- Each function stands at its entry. -/
theorem stands_function (h : u.LaidOut L lines t) {k : Nat} {f : Signature} {code : List CodeLine}
    (hk : L.functions[k]? = some (f, code)) : StandsAt lines (L.entry k) code := by
  have hstands := (h.stands_bodies (by rintro hnil; rw [hnil] at hk; cases hk)).1
  have hbody : L.bodies[k]? = some code := by rw [Layout.bodies, List.getElem?_map, hk]; rfl
  exact hstands.flatten hbody

/-- Nothing is on the stack where a function starts, and where the last one ends. -/
theorem height_entry_of_le (h : u.LaidOut L lines t) (calls : Nat → Option Signature) (hne : L.functions ≠ []) {k : Nat}
    (hk : k ≤ L.functions.length) : height calls lines (L.entry k) = 0 := by
  cases k with
  | zero => exact (h.stands_bodies hne).2 calls
  | succ k =>
    -- the function in front ends in `RET`
    have hpart : L.functions[k]? = some (L.functions[k].1, L.functions[k].2) := List.getElem?_eq_getElem hk
    obtain ⟨_, _, _, _, close, _, _, hcompiled, -, -⟩ := h.function k _ _ hpart
    obtain ⟨_, _, body, -, -, hcode⟩ := hcompiled.body
    have hstands := h.stands_function hpart
    rw [Layout.entry_succ hpart, hcode, List.length_append]
    rw [hcode] at hstands
    exact hstands.height_add_one calls

/-- Nothing is on the stack where a function starts. -/
theorem height_entry (h : u.LaidOut L lines t) (calls : Nat → Option Signature) {k : Nat} {f : Signature} {code : List CodeLine}
    (hk : L.functions[k]? = some (f, code)) : height calls lines (L.entry k) = 0 := by
  have hlt := (List.getElem?_eq_some_iff.1 hk).1
  exact h.height_entry_of_le calls (List.ne_nil_of_length_pos (Nat.zero_lt_of_lt hlt)) (Nat.le_of_lt hlt)

/-- The code of a function up to its last instruction, which is a `RET`. -/
theorem walk_function (h : u.LaidOut L lines t) {k : Nat} {f : Signature} {code : List CodeLine}
    (hk : L.functions[k]? = some (f, code)) :
    ∃ body close, code = body ++ [⟨⟨.ret, none⟩, close⟩] ∧
      Walk L.callee? (fun n => height L.callee? lines n = 0) (· = f.returns.width) 0 body 0 := by
  obtain ⟨_, _, _, _, close, t₀, _, hcompiled, hnested, ht₀⟩ := h.function k f code hk
  obtain ⟨t₁, _, body, hdeclares, hbody, rfl⟩ := hcompiled.body
  have hearlier : t₀.All (Binding.Callable (Signature.Known L.callee?)) := by
    refine ht₀.mono fun x b hb => hb.mono fun g hg => ?_
    obtain ⟨⟨g, c⟩, hmem, rfl⟩ := List.mem_map.1 hg
    obtain ⟨j, hj⟩ := List.getElem?_of_mem (List.mem_of_mem_take hmem)
    exact h.lays.known hj
  have hknown := hcompiled.all hnested hearlier (h.lays.known hk) hdeclares
  have hstands := h.stands_function hk
  have hzero := h.height_entry L.callee? hk
  rw [← h.lays.entry_eq k f _ hk] at hstands hzero
  exact ⟨body, close, rfl, (hbody.walk hknown hstands.left hzero nofun).mono fun n hn => hn _ rfl⟩

/-- The functions can be walked through with nothing on the stack between them. -/
theorem walk_functions (h : u.LaidOut L lines t) :
    Walk L.callee? (fun n => height L.callee? lines n = 0) (fun _ => True) 0 L.bodies.flatten 0 := by
  refine .flatten fun code hcode => ?_
  obtain ⟨⟨f, code⟩, hmem, rfl⟩ := List.mem_map.1 hcode
  obtain ⟨k, hk⟩ := List.getElem?_of_mem hmem
  obtain ⟨body, close, rfl, hwalk⟩ := h.walk_function hk
  exact (hwalk.mono fun _ _ => trivial).append (.ret trivial)

/-- The program is walked through with nothing on the stack up to the call of `main`, which leaves what `main` returns. -/
theorem exists_walk (h : u.LaidOut L lines t) :
    ∃ front call last, lines = front ++ (call ++ [⟨⟨.ret, none⟩, last⟩]) ∧ call.map CodeLine.instruction = L.call ∧
      Walk L.callee? (fun n => height L.callee? lines n = 0) (fun _ => True) 0 front 0 ∧
      Walk L.callee? (fun n => height L.callee? lines n = 0) (fun _ => True) 0 call
        ((L.main?.map fun f => f.returns.width).getD 0) := by
  obtain ⟨t₀, hglobals⟩ := h.globals
  obtain ⟨jump, call, last, hjump, hcall, hlines⟩ := h.lines_eq
  refine ⟨_, call, last, hlines, hcall, ?_, ?_⟩
  · have hknown : SymbolTable.empty.All (Binding.Callable (Signature.Known L.callee?)) := .of_nested_eq_nil rfl nofun
    have hall : StandsAt lines 0 lines := .self lines
    nth_rw 2 [hlines] at hall
    refine ((hglobals.walk hknown hall.left.left rfl nofun).mono fun _ _ => trivial).append ?_
    by_cases hne : L.functions = []
    · rw [Layout.jump, if_pos (by simpa using hne), List.map_eq_nil_iff] at hjump
      rw [hjump]
      exact h.walk_functions
    · rw [Layout.jump, if_neg (by simpa using hne), List.map_eq_singleton_iff] at hjump
      obtain ⟨⟨_, pos⟩, rfl, rfl⟩ := hjump
      exact .jmp (h.height_entry_of_le _ hne (Nat.le_refl _)) h.walk_functions
  · cases hmain : L.main with
    | none =>
      rw [Layout.call, hmain, Option.toList_none, List.map_nil, List.map_eq_nil_iff] at hcall
      rw [hcall, Layout.main?, hmain]
      exact .nil
    | some k =>
      have hidx := h.lays.main
      rw [hmain] at hidx
      obtain ⟨hlt, -⟩ := List.findIdx?_eq_some_iff_getElem.1 hidx.symm
      rw [h.lays.functions.length_eq] at hlt
      have hk : L.functions[k]? = some (L.functions[k].1, L.functions[k].2) := List.getElem?_eq_getElem hlt
      have hmain? : L.main? = some L.functions[k].1 := by rw [Layout.main?, hmain, Option.bind_some, hk]; rfl
      rw [Layout.call, hmain, Option.toList_some, List.map_singleton, List.map_eq_singleton_iff] at hcall
      obtain ⟨⟨_, pos⟩, rfl, rfl⟩ := hcall
      rw [hmain?, ← h.lays.entry_eq k _ _ hk]
      have hwalk := @Walk.call _ (fun n => height L.callee? lines n = 0) (fun _ => True) _ (h.lays.known hk).1 pos 0
      rw [h.main_params _ hmain?] at hwalk
      simpa using hwalk

/-- The whole program can be walked through. -/
theorem walk (h : u.LaidOut L lines t) :
    Walk L.callee? (fun n => height L.callee? lines n = 0) (fun _ => True) 0 lines 0 := by
  obtain ⟨front, call, last, hlines, -, hfront, hcall⟩ := h.exists_walk
  nth_rw 2 [hlines]
  exact hfront.append (hcall.append (.ret trivial))

/-- At the last `RET` just what `main` returns is on the stack. -/
theorem height_last (h : u.LaidOut L lines t) {n : Nat} (hn : n + 1 = lines.length) :
    height L.callee? lines n = (L.main?.map fun f => f.returns.width).getD 0 := by
  obtain ⟨front, call, last, hlines, -, hfront, hcall⟩ := h.exists_walk
  have hall : StandsAt lines 0 lines := .self lines
  nth_rw 2 [hlines] at hall
  rw [← List.append_assoc] at hall
  have hlength : n = 0 + (front ++ call).length := by
    rw [hlines, ← List.append_assoc, List.length_append, List.length_singleton] at hn
    omega
  rw [hlength, hall.left.height_add, height_zero, heightAfter_append, hfront.heightAfter_eq, hcall.heightAfter_eq]

end CompilationUnit.LaidOut

/-- What the statements of a unit are like where its code is `lines`. -/
structure CompilationUnit.StandAll (u : CompilationUnit) (calls : Nat → Option Signature) (lines : List CodeLine) : Prop where
  stands : ∀ E, u.Begins E → E.Stands calls lines
  lt : ∀ E, u.Begins E → E.after.nextAddress < lines.length
  returns : ∀ n line, lines[n]? = some line → line.instruction.op = .ret →
    (∃ E, u.Begins E ∧ E.HasReturn n) ∨ height calls lines n = 0 ∨ n + 1 = lines.length

namespace CompilationUnit

section

variable {u : CompilationUnit} {L : Layout} {a₁ a₂ : Assembly} {pos : Position} {lines : List CodeLine}

/-- The program starts with the code of the declarations and the functions. -/
theorem standsAt_zero (hlines : lines = (callMain pos a₂).code ++ [⟨⟨.ret, none⟩, pos⟩]) : StandsAt lines 0 a₂.code := by
  have hall : StandsAt lines 0 lines := .self lines
  nth_rw 2 [hlines] at hall
  rw [code_callMain, List.append_assoc] at hall
  exact hall.left

/-- Behind the functions comes at least the last `RET`. -/
theorem nextAddress_lt_length (hlines : lines = (callMain pos a₂).code ++ [⟨⟨.ret, none⟩, pos⟩]) :
    a₂.nextAddress < lines.length := by
  rw [hlines, List.length_append, code_callMain, List.length_append, List.length_singleton, ← Assembly.nextAddress_eq]
  omega

/-- Behind the functions there is only one `RET`, the last instruction. -/
theorem eq_length_of_ret {n : Nat} {line : CodeLine} (hlines : lines = (callMain pos a₂).code ++ [⟨⟨.ret, none⟩, pos⟩])
    (hn : a₂.nextAddress ≤ n) (hline : lines[n]? = some line) (hret : line.instruction.op = .ret) : n + 1 = lines.length := by
  have hall : StandsAt lines 0 lines := .self lines
  nth_rw 2 [hlines] at hall
  rw [code_callMain, List.append_assoc] at hall
  have hcall := hall.right.left
  rw [Nat.zero_add] at hcall
  have hlt := (List.getElem?_eq_some_iff.1 hline).1
  have hlength : lines.length = (callMain pos a₂).code.length + 1 := by rw [hlines, List.length_append, List.length_singleton]
  rw [code_callMain, List.length_append] at hlength
  by_contra hne
  obtain ⟨f, -, rfl⟩ := List.mem_map.1 (hcall.mem_of_getElem? hline hn (by omega))
  cases hret

/-- What a unit begins with: its declarations, and the bodies of its functions behind a jump. -/
theorem Begins.eq_or_emitsBody (h₁ : (u.globals.emit .outermost).run .empty = .ok ((), a₁)) {E : Emission} (hE : u.Begins E) :
    E = ⟨.outermost, u.globals, .empty, a₁⟩ ∨
      ∃ f fs, u.functions = f :: fs ∧ Function.EmitsBody u.functions (a₁.push .jmp (some 0) f.pos) E := by
  cases hE with
  | globals h₁' =>
    rw [Emission.Runs, h₁] at h₁'
    cases h₁'
    exact .inl rfl
  | body h₁' hfs hE =>
    rw [Emission.Runs, h₁] at h₁'
    cases h₁'
    exact .inr ⟨_, _, hfs, hE⟩

/-- The declarations stand at the start of the program, in front of the functions. -/
theorem stands_globals (calls : Nat → Option Signature) (hg : u.globals.Structured) (hf : Function.AllStructured u.functions)
    (h₁ : (u.globals.emit .outermost).run .empty = .ok ((), a₁)) (h₂ : (emitFunctions u.functions).run a₁ = .ok ((), a₂))
    (hs : StandsAt lines 0 a₂.code) :
    Emission.Stands calls lines ⟨.outermost, u.globals, .empty, a₁⟩ ∧ a₁.nextAddress ≤ a₂.nextAddress := by
  obtain ⟨jump, functions, -, hcode, -⟩ := emittedFunctions hf h₂
  constructor
  · refine ⟨h₁, hg, .of_nested_eq_nil rfl nofun, rfl, 0, nofun, fun code waiting hasm => ?_⟩
    have hcode₁ : a₁.code = code 0 := hasm.code_eq
    rw [hcode] at hs
    rw [← hcode₁]
    exact hs.left
  · rw [Assembly.nextAddress_eq, Assembly.nextAddress_eq, hcode, List.length_append]
    exact Nat.le_add_right _ _

/-- The functions stand behind the declarations and the jump past the functions. -/
theorem standAll_functions {a₃ : Assembly} {first : Position} (hg : u.globals.Structured) (hf : Function.AllStructured u.functions)
    (h₁ : (u.globals.emit .outermost).run .empty = .ok ((), a₁))
    (h₃ : (u.functions.forM Function.emit : Assembling Unit).run (a₁.push .jmp (some 0) first) = .ok ((), a₃))
    (hL : u.LaidOut L lines a₃.symbols) (hs : StandsAt lines 0 (a₃.patch a₁.nextAddress).code) :
    Function.StandAll L.callee? lines u.functions (a₁.push .jmp (some 0) first) a₃ ∧
      lines[a₁.nextAddress]? = some ⟨⟨.jmp, some a₃.code.length⟩, first⟩ := by
  obtain ⟨code, waiting, hasm⟩ := Stmt.emitted hg h₁
  have hempty : SymbolTable.empty.All (Binding.Callable (Signature.Known L.callee?)) := .of_nested_eq_nil rfl nofun
  have hknown := (hasm.compiled 0).all Binding.callable_markWritten (fun _ _ hv _ => hv) hempty
  have hnested : a₁.symbols.nested = [] := by
    rw [← SymbolTable.scope_eq_outermost]
    exact SymbolTable.scope_of_tail_frames (hasm.compiled 0).tail_frames
  have hjump : ∀ c, a₃.code = (a₁.push .jmp (some 0) first).code ++ c →
      StandsAt lines 0 (a₁.code ++ ⟨⟨.jmp, some a₃.code.length⟩, first⟩ :: c) := by
    intro c hc
    rw [Assembly.code_push, List.append_assoc, List.singleton_append] at hc
    rwa [Assembly.code_patch_of_eq hc a₁.nextAddress_eq] at hs
  have hnext : (a₁.push .jmp (some 0) first).nextAddress = 0 + a₁.code.length + 1 := by
    rw [Assembly.nextAddress_push, Assembly.nextAddress_eq, Nat.zero_add]
  obtain ⟨c, -, hc⟩ := Function.emittedAll hf h₃
  refine ⟨Function.standAll hf h₃ hnested hknown (fun x g hx => ?_) (fun c hc => ?_) ?_, ?_⟩
  · obtain ⟨k, code, hk⟩ := hL.exists_of_find? x g hx
    exact hL.lays.known hk
  · rw [hnext]
    exact (hjump c hc).of_cons
  · rw [hnext]
    exact (hjump c hc).height_behind_jmp _
  · have hat := (hjump c hc).getElem?_length
    rwa [Nat.zero_add, ← Assembly.nextAddress_eq] at hat

/-- The statements of a unit stand in its code: the declarations, then the functions, then the call of `main`. -/
theorem standAll (hg : u.globals.Structured) (hf : Function.AllStructured u.functions)
    (h₁ : (u.globals.emit .outermost).run .empty = .ok ((), a₁)) (h₂ : (emitFunctions u.functions).run a₁ = .ok ((), a₂))
    (hL : u.LaidOut L lines a₂.symbols) (hlines : lines = (callMain pos a₂).code ++ [⟨⟨.ret, none⟩, pos⟩]) :
    u.StandAll L.callee? lines := by
  have hs := standsAt_zero hlines
  have hlength := nextAddress_lt_length hlines
  obtain ⟨hglobals, hle⟩ := stands_globals L.callee? hg hf h₁ h₂ hs
  have hbegin : u.Begins ⟨.outermost, u.globals, .empty, a₁⟩ := .globals h₁
  cases hfs : u.functions with
  | nil =>
    rw [hfs] at h₂
    obtain ⟨-, rfl⟩ := Assembling.run_pure_eq_ok.1 h₂
    have honly : ∀ E, u.Begins E → E = ⟨.outermost, u.globals, .empty, a₂⟩ := by
      intro E hE
      obtain heq | ⟨f, fs, hcons, -⟩ := hE.eq_or_emitsBody h₁
      · exact heq
      · rw [hfs] at hcons
        cases hcons
    refine ⟨fun E hE => honly E hE ▸ hglobals, fun E hE => honly E hE ▸ hlength, fun n line hline hret => ?_⟩
    rcases Nat.lt_or_ge n a₂.nextAddress with hn | hn
    · exact .inl ⟨_, hbegin, hglobals.hasReturn (Nat.zero_le n) hn hline hret⟩
    · exact .inr (.inr (eq_length_of_ret hlines hn hline hret))
  | cons f fs =>
    rw [hfs] at h₂
    obtain ⟨a₃, h₃, rfl⟩ := run_emitFunctions_cons.1 h₂
    rw [← hfs] at h₃
    obtain ⟨hstand, hjump⟩ := standAll_functions hg hf h₁ h₃ hL hs
    have hcases : ∀ E, u.Begins E → E = ⟨.outermost, u.globals, .empty, a₁⟩ ∨
        Function.EmitsBody u.functions (a₁.push .jmp (some 0) f.pos) E := by
      intro E hE
      refine (hE.eq_or_emitsBody h₁).imp_right ?_
      rintro ⟨f', fs', hcons, hE⟩
      rw [hfs] at hcons
      cases hcons
      exact hE
    refine ⟨fun E hE => ?_, fun E hE => ?_, fun n line hline hret => ?_⟩
    · rcases hcases E hE with rfl | hE
      · exact hglobals
      · exact hstand.stands E hE
    · rcases hcases E hE with rfl | hE
      · exact Nat.lt_of_le_of_lt hle hlength
      · exact Nat.lt_trans (hstand.lt E hE) (Nat.lt_of_le_of_lt (Nat.le_of_eq (a₃.nextAddress_patch _).symm) hlength)
    · -- the declarations, the jump, the functions, and what comes behind them
      rcases Nat.lt_trichotomy n a₁.nextAddress with hn | rfl | hn
      · exact .inl ⟨_, hbegin, hglobals.hasReturn (Nat.zero_le n) hn hline hret⟩
      · rw [hjump] at hline
        cases hline
        cases hret
      · rcases Nat.lt_or_ge n a₃.nextAddress with hn' | hn'
        · rcases hstand.returns n line (by rw [Assembly.nextAddress_push]; exact hn) hn' hline hret with ⟨E, hE, hreturn⟩ | hzero
          · exact .inl ⟨E, .body h₁ hfs hE, hreturn⟩
          · exact .inr (.inl hzero)
        · exact .inr (.inr (eq_length_of_ret hlines (Nat.le_trans (Nat.le_of_eq (a₃.nextAddress_patch _)) hn') hline hret))

end

end CompilationUnit

/-- A unit that is emitted is laid out, and its statements stand in its code. -/
theorem CompilationUnit.exists_standAll {u : CompilationUnit} {a : Assembly} (hg : u.globals.Structured)
    (hf : Function.AllStructured u.functions) (hd : u.globals.Declarative) (h : u.emit.run .empty = .ok ((), a)) :
    ∃ L t, u.LaidOut L a.code t ∧ u.StandAll L.callee? a.code := by
  obtain ⟨a₁, a₂, pos, h₁, h₂, -, hmain, rfl⟩ := run_emit.1 h
  obtain ⟨jump, functions, hcode, hcompiled⟩ := Compiled.of_runs hg hf h₁ h₂ hmain pos
  obtain ⟨L, -, hL⟩ := hcompiled.exists_laidOut hd
  have hlines : ((callMain pos a₂).push .ret none pos).code = (callMain pos a₂).code ++ [⟨⟨.ret, none⟩, pos⟩] :=
    Assembly.code_push ..
  rw [← List.append_assoc, ← hcode, ← code_callMain, ← hlines] at hL
  exact ⟨L, a₂.symbols, hL, standAll hg hf h₁ h₂ hL hlines⟩

/-- Every statement in a unit stands in its code. -/
theorem CompilationUnit.StandAll.stands_of_emits {u : CompilationUnit} {calls : Nat → Option Signature} {lines : List CodeLine}
    (h : u.StandAll calls lines) {E : Emission} (hE : u.Emits E) : E.Stands calls lines := by
  obtain ⟨E₀, hbegin, hcovers⟩ := hE
  exact (h.stands E₀ hbegin).of_covers hcovers

/-- The last `RET` is not that of a return. -/
theorem CompilationUnit.StandAll.lt_of_returns {u : CompilationUnit} {calls : Nat → Option Signature} {lines : List CodeLine}
    (h : u.StandAll calls lines) {E : Emission} (hE : u.Emits E) {ty : Ty} {n : Nat} (hn : E.Returns ty n) :
    n + 1 < lines.length := by
  have hlt := (h.stands_of_emits hE).lt_of_returns hn
  obtain ⟨E₀, hbegin, hcovers⟩ := hE
  have hle := (h.stands E₀ hbegin).after_le_of_covers hcovers
  have hend := h.lt E₀ hbegin
  omega

/-- A unit is balanced. -/
theorem CompilationUnit.LaidOut.balanced {u : CompilationUnit} {L : Layout} {a : Assembly} {t : SymbolTable}
    (h : u.LaidOut L a.code t) (hstand : u.StandAll L.callee? a.code) :
    Balanced a.program L.callee? u.Emits (fun n => n + 1 = a.program.size ∧ ∃ f, L.main? = some f ∧ f.returns ≠ .void)
      (height L.callee? a.code) := by
  refine .of_walk h.walk (fun n f hn => ?_) (fun E hE => hstand.stands_of_emits hE) (fun n hn => ?_) fun n line hline hret => ?_
  · obtain ⟨k, code, hk, rfl⟩ := h.lays.exists_of_callee? hn
    exact h.height_entry _ hk
  · obtain ⟨hlast, f, hf, hty⟩ := hn
    exact (h.height_last hlast).trans (by rw [hf, Option.map_some, Option.getD_some, Ty.width_of_ne hty])
  · rcases hstand.returns n line hline hret with ⟨E₀, hbegin, E, ty, hcovers, hreturn⟩ | hzero | hlast
    · exact .inl ⟨E, ty, ⟨E₀, hbegin, hcovers⟩, hreturn⟩
    · exact .inr (.inr hzero)
    · have hheight := h.height_last hlast
      cases hmain : L.main? with
      | none =>
        rw [hmain] at hheight
        exact .inr (.inr hheight)
      | some f =>
        by_cases hty : f.returns = .void
        · rw [hmain, Option.map_some, hty] at hheight
          exact .inr (.inr hheight)
        · exact .inr (.inl ⟨hlast, f, rfl, hty⟩)

/-! ## Compiled texts -/

/-- Compiled code is balanced. Of a program the last `RET` has height one if `main` returns a value; of statements none has, other
than that of a return of a value. -/
theorem compile_balanced {mode : Mode} {s : Source} {p : Program} (h : compile mode s = .ok p) :
    (mode = .program → ∃ pos u, ∃ (L : Layout) (H : Nat → Nat), s.lex.ending = .ok pos ∧
      Grammar.ProgramText s.lex.tokens pos u ∧ L.Lays u ∧ p.instructions = L.instructions ∧
      Balanced p L.callee? u.Emits (fun n => n + 1 = p.size ∧ ∃ f, L.main? = some f ∧ f.returns ≠ .void) H) ∧
    (mode = .statements → ∃ S a, ∃ H : Nat → Nat, Grammar.Statements s.lex.tokens S ∧
      (S.emit .outermost).run .empty = .ok ((), a) ∧ a.program = p ∧
      Balanced p (fun _ => none) (Emission.Covers ⟨.outermost, S, .empty, a⟩) (fun _ => False) H) := by
  cases mode with
  | program =>
    obtain ⟨pos, u, a, hend, hu, hrun, rfl⟩ := compile_program_eq_ok.1 h
    obtain ⟨L, t, hL, hstand⟩ := CompilationUnit.exists_standAll hu.structured.1 hu.structured.2 hu.declarative hrun
    exact ⟨fun _ => ⟨pos, u, L, _, hend, hu, hL.lays, hL.instructions_eq, hL.balanced hstand⟩, nofun⟩
  | statements =>
    obtain ⟨pos, S, a, -, hS, hrun, rfl⟩ := compile_statements_eq_ok.1 h
    exact ⟨nofun, fun _ => ⟨S, a, _, hS, hrun, rfl, hS.structured.balanced hrun⟩⟩

/-- A function whose result is dropped, inside a loop that is left by a return. -/
def Sample.droppedResult : Source :=
  .ofString ("fn next(k: int) -> int \x7b while k \x7b if k > 3 \x7b return k; \x7d next(k + 1); k = k - 1; \x7d return -k; \x7d\n" ++
    "fn main() -> void \x7b next(1); \x7d")

/-- A program whose function drops a result is balanced. -/
theorem compile_balanced_dropped : ∃ p, compile .program Sample.droppedResult = .ok p ∧ ∃ pos u, ∃ (L : Layout) (H : Nat → Nat),
    Sample.droppedResult.lex.ending = .ok pos ∧ Grammar.ProgramText Sample.droppedResult.lex.tokens pos u ∧
    L.Lays u ∧ p.instructions = L.instructions ∧
    Balanced p L.callee? u.Emits (fun n => n + 1 = p.size ∧ ∃ f, L.main? = some f ∧ f.returns ≠ .void) H := by
  have hok : (compile .program Sample.droppedResult).isOk := by
    rw [Sample.droppedResult, ← String.ofList_append, Source.ofString_ofList]
    decide +kernel
  obtain ⟨p, hp⟩ := Assembling.exists_eq_ok hok
  exact ⟨p, hp, (compile_balanced hp).1 rfl⟩

/-- A program whose `main` returns a value. -/
def Sample.mainReturningZero : Source := .ofString "fn main() -> int \x7b return 0; \x7d"

/-- The last `RET` is not that of a return, and yet its height is not zero: the value that `main` returns is still on the stack. -/
theorem not_balanced_answer : ∃ p, compile .program Sample.mainReturningZero = .ok p ∧ ∀ pos u (L : Layout) (H : Nat → Nat),
    Sample.mainReturningZero.lex.ending = .ok pos → Grammar.ProgramText Sample.mainReturningZero.lex.tokens pos u →
    L.Lays u → p.instructions = L.instructions →
    ¬ Balanced p L.callee? u.Emits (fun _ => False) H := by
  obtain ⟨hok, hcode, hreturns, hnames⟩ : (compile .program Sample.mainReturningZero).isOk ∧
      (compile .program Sample.mainReturningZero).toOption.map Program.instructions =
        some [⟨.jmp, some 4⟩, ⟨.lit, some 0⟩, ⟨.ret, none⟩, ⟨.ret, none⟩, ⟨.call, some 1⟩, ⟨.ret, none⟩] ∧
      (CompilationUnit.parse (.ofSource Sample.mainReturningZero)).1.functions.map Function.returns? = [some .int] ∧
      (CompilationUnit.parse (.ofSource Sample.mainReturningZero)).1.functions.map Function.name? = [some "main"] := by
    rw [Sample.mainReturningZero, Source.ofString_ofList]
    decide +kernel
  obtain ⟨p, hp⟩ := Assembling.exists_eq_ok hok
  refine ⟨p, hp, fun pos u L H hend hu hL hlayout hbalanced => ?_⟩
  have hshaped : Grammar.Shaped Sample.mainReturningZero.lex.tokens := fun _ => Sample.mainReturningZero.wellShaped_of_mem_lex
  rw [TokenStream.ofSource_eq.2 ⟨hend, rfl⟩, hu.parse_eq hshaped] at hreturns hnames
  rw [hp] at hcode
  have hcode : p.instructions = _ := Option.some.inj hcode
  obtain ⟨pos', u', a, hend', hu', hrun, rfl⟩ := compile_program_eq_ok.1 hp
  obtain rfl : pos' = pos := by
    rw [hend] at hend'
    cases hend'
    rfl
  obtain rfl := hu.unique hshaped hu'
  -- the only function is `main`, and it returns a number
  rw [Function.map_returns? hL.functions, List.map_eq_singleton_iff] at hreturns
  obtain ⟨⟨f, code⟩, hfunctions, hreturns⟩ := hreturns
  have hty : f.returns = .int := Option.some.inj hreturns
  have hk : L.functions[0]? = some (f, code) := by
    rw [hfunctions]
    rfl
  have hmain : L.main = some 0 := by
    rw [hL.main_eq, hnames]
    rfl
  -- so it is what stands at the address that is called
  have hcallee : L.callee? 1 = some f := by
    have hcall : L.call ++ [⟨.ret, none⟩] = [⟨.call, some 1⟩, ⟨.ret, none⟩] := by
      have hsplit : [⟨.jmp, some 4⟩, ⟨.lit, some 0⟩, ⟨.ret, none⟩, ⟨.ret, none⟩] ++
          ([⟨.call, some 1⟩, ⟨.ret, none⟩] : List Instruction) = L.instructions := by rw [← hlayout, hcode]; rfl
      exact (List.append_inj' hsplit (by rw [Layout.call, hmain]; rfl)).2.symm
    rw [Layout.call, hmain] at hcall
    have hentry : L.entry 0 = 1 := by simpa using hcall
    rw [← hentry, hL.callee?_entry hk]
  have hfour : H 4 = 0 := by
    obtain ⟨m, hm, -, hzero⟩ := hbalanced.jumps 0 ⟨.jmp, some 4⟩ (by rw [hcode]; rfl) rfl
    cases hm
    exact hzero
  have hone : H 5 = 1 := by
    have hfalls := hbalanced.falls 4 ⟨.call, some 1⟩ (by rw [hcode]; rfl) (by simp) (by simp)
    have hpushes : Instruction.pushes L.callee? ⟨.call, some 1⟩ = 1 := by simp [Instruction.pushes, hcallee, hty, Ty.width]
    rw [hpushes, hfour, Nat.zero_sub] at hfalls
    exact hfalls
  have hzero : H 5 = 0 := by
    refine hbalanced.zero 5 ⟨.ret, none⟩ (by rw [hcode]; rfl) rfl ?_
    rintro (⟨E, ty, hE, hreturn, -⟩ | hfalse)
    · obtain ⟨L', t, -, hstand⟩ := CompilationUnit.exists_standAll hu.structured.1 hu.structured.2 hu.declarative hrun
      have hlt := hstand.lt_of_returns hE hreturn
      have hsize : a.code.length = 6 := (List.length_map _).symm.trans (congrArg List.length hcode)
      omega
    · exact hfalse
  omega

end C0Stack
