import C0Stack.Proofs.Balance
import C0Stack.Proofs.Machine

/-!
# What calls leave on the stack

A run of a compiled program never takes more operands than its innermost call has, and where a function returns, just its value is on
the stack above what was there at the call. This holds as long as the run does not come to the last instruction of a function that
returns a value: that `RET` is reached where no return was executed, and there is no value then.
-/

namespace C0Stack

/-! ## The effect of an instruction -/

namespace Machine

variable {V : Type}

/-- What an instruction does to the address, to the number of operands and to the callers. -/
inductive Effect (M : Machine V) (calls : Nat → Option Signature) (s : State V) : Instruction → State V → Prop
  | plain {i : Instruction} {s' : State V} :
      i.op.isJump = false → i.op ≠ .call → i.op ≠ .ret → s'.pc = s.pc + 1 → s'.callers = s.callers →
        s'.stack.length = s.stack.length - i.pops calls + i.pushes calls → Effect M calls s i s'
  | jump {i : Instruction} {s' : State V} :
      i.op.isJump = true → i.operand = some s'.pc ∨ i.op = .jz ∧ s'.pc = s.pc + 1 → s'.callers = s.callers →
        s'.stack.length = s.stack.length - i.pops calls → Effect M calls s i s'
  | call {n : Nat} {s' : State V} {frame : Option (Memory V)} :
      s'.pc = n → s'.callers = (s.pc + 1, frame) :: s.callers → s'.stack.length = s.stack.length - M.arity n →
        Effect M calls s ⟨.call, some n⟩ s'
  | ret {s' : State V} {frame : Option (Memory V)} :
      s.callers = (s'.pc, frame) :: s'.callers → s'.stack = s.stack → Effect M calls s ⟨.ret, none⟩ s'

/-- An instruction that is executed has one of these effects. -/
theorem effect_of_exec {M : Machine V} {s s' : State V} {i : Instruction} (h : M.exec s i = some s')
    (calls : Nat → Option Signature) : M.Effect calls s i s' := by
  obtain ⟨op, operand⟩ := i
  obtain ⟨pc, stack, frames, callers⟩ := s
  unfold exec at h
  split at h
  · rename_i hop _
    obtain rfl : op = .lit := hop
    cases h
    exact .plain rfl (by simp) (by simp) rfl rfl rfl
  · rename_i hop _
    obtain rfl : op = .lod := hop
    obtain ⟨v, -, rfl⟩ := Option.map_eq_some_iff.1 h
    exact .plain rfl (by simp) (by simp) rfl rfl rfl
  · rename_i hop _
    obtain rfl : op = .lodg := hop
    obtain ⟨v, -, rfl⟩ := Option.map_eq_some_iff.1 h
    exact .plain rfl (by simp) (by simp) rfl rfl rfl
  · rename_i hop _ hstack
    obtain rfl : op = .sto := hop
    obtain rfl : stack = _ := hstack
    cases h
    exact .plain rfl (by simp) (by simp) rfl rfl rfl
  · rename_i hop _ hstack
    obtain rfl : op = .stog := hop
    obtain rfl : stack = _ := hstack
    cases h
    exact .plain rfl (by simp) (by simp) rfl rfl rfl
  · rename_i hop _ hstack
    obtain rfl : op = .pop := hop
    obtain rfl : stack = _ := hstack
    cases h
    exact .plain rfl (by simp) (by simp) rfl rfl rfl
  · rename_i hop hoperand
    obtain rfl : op = .jmp := hop
    cases h
    exact .jump rfl (.inl hoperand) rfl rfl
  · rename_i hop hoperand hstack
    obtain rfl : op = .jz := hop
    obtain rfl : stack = _ := hstack
    cases h
    refine .jump rfl ?_ rfl rfl
    split
    · exact .inl hoperand
    · exact .inr ⟨rfl, rfl⟩
  · rename_i n hop hoperand
    obtain rfl : op = .call := hop
    obtain rfl : operand = some n := hoperand
    split at h
    · cases h
      exact .call rfl rfl (List.length_drop ..)
    · cases h
  · rename_i hop hoperand
    obtain rfl : op = .ret := hop
    obtain rfl : operand = none := hoperand
    cases callers with
    | nil => cases h
    | cons caller callers =>
      cases h
      exact .ret rfl rfl
  · rename_i hstack _ _
    obtain rfl : stack = _ := hstack
    obtain ⟨z, hz, rfl⟩ := Option.map_eq_some_iff.1 h
    obtain ⟨binary, hbinary, -⟩ := Option.bind_eq_some_iff.1 hz
    cases op with
    | eq | ne | lt | gt | le | ge | add | sub | mul | div => exact .plain rfl (by simp) (by simp) rfl rfl rfl
    | _ => cases hbinary
  · cases h

end Machine

/-! ## Where control goes -/

/-- The address is one of the function, or of no function. -/
def Layout.Inside (L : Layout) : Option Signature → Nat → Prop
  | none, n => n ≤ L.globals.length ∨ L.entry L.functions.length ≤ n
  | some f, n => ∃ (k : Nat) (code : List CodeLine), L.functions[k]? = some (f, code) ∧ L.entry k ≤ n ∧ n < L.entry (k + 1)

/-- The address is that of the last instruction of a function that returns a value. -/
def Layout.FallsOff (L : Layout) (n : Nat) : Prop :=
  ∃ k f code, L.functions[k]? = some (f, code) ∧ f.returns ≠ .void ∧ n + 1 = L.entry (k + 1)

namespace CompilationUnit.LaidOut

variable {u : CompilationUnit} {L : Layout} {lines : List CodeLine} {t : SymbolTable} {n : Nat} {line : CodeLine}

/-- Outside the functions there are the declarations, the jump past the functions, and what comes behind them. -/
theorem outside_cases (h : u.LaidOut L lines t) (hn : L.Inside none n) (hline : lines[n]? = some line) :
    n < L.globals.length ∧ line ∈ L.globals ∨ line.instruction = ⟨.jmp, some (L.entry L.functions.length)⟩ ∨
      L.entry L.functions.length ≤ n + 1 ∧ line.instruction ∈ L.call ++ [⟨.ret, none⟩] := by
  obtain ⟨jump, call, last, hjump, hcall, hlines⟩ := h.lines_eq
  have hall : StandsAt lines 0 lines := .self lines
  nth_rw 2 [hlines] at hall
  have hlength := congrArg List.length hlines
  have hlt := (List.getElem?_eq_some_iff.1 hline).1
  have hbehind : 0 + (L.globals ++ (jump ++ L.bodies.flatten)).length ≤ n → line.instruction ∈ L.call ++ [⟨.ret, none⟩] := by
    intro hle
    have hmem := hall.right.mem_of_getElem? hline hle (by rw [List.length_append] at hlength; omega)
    have hmap := List.mem_map_of_mem (f := CodeLine.instruction) hmem
    rwa [List.map_append, hcall] at hmap
  rcases Nat.lt_or_ge n L.globals.length with hlow | hlow
  · exact .inl ⟨hlow, hall.left.left.mem_of_getElem? hline (Nat.zero_le n) (by rwa [Nat.zero_add])⟩
  by_cases hne : L.functions = []
  · rw [Layout.jump, if_pos (by simpa using hne), List.map_eq_nil_iff] at hjump
    have hentry : L.entry L.functions.length = L.globals.length + 1 := by simp [Layout.entry, hne]
    exact .inr (.inr ⟨by omega, hbehind (by simpa [hjump, Layout.bodies, hne] using hlow)⟩)
  · rw [Layout.jump, if_neg (by simpa using hne), List.map_eq_singleton_iff] at hjump
    obtain ⟨⟨_, pos⟩, rfl, rfl⟩ := hjump
    rcases hn with hn | hn
    · obtain rfl : n = 0 + L.globals.length := by omega
      have hat := hall.left.getElem?_length
      rw [hline] at hat
      cases hat
      exact .inr (.inl rfl)
    · refine .inr (.inr ⟨Nat.le_succ_of_le hn, hbehind ?_⟩)
      rw [Layout.entry_length] at hn
      simp only [List.length_append, List.length_singleton]
      omega

/-- The instructions of a function are those of its code, and the last of them is `RET`. -/
theorem inside_cases (h : u.LaidOut L lines t) {k : Nat} {f : Signature} {code : List CodeLine}
    (hk : L.functions[k]? = some (f, code)) (hlow : L.entry k ≤ n) (hhigh : n < L.entry (k + 1)) (hline : lines[n]? = some line) :
    line ∈ code ∧ (n + 1 = L.entry (k + 1) → line.instruction.op = .ret) := by
  have hstands := h.stands_function hk
  rw [Layout.entry_succ hk] at hhigh ⊢
  refine ⟨hstands.mem_of_getElem? hline hlow hhigh, fun hlast => ?_⟩
  obtain ⟨body, close, rfl, -⟩ := h.walk_function hk
  have hn : n = L.entry k + body.length := by
    rw [List.length_append, List.length_singleton] at hlast
    omega
  rw [hn, hstands.getElem?_length] at hline
  cases hline
  rfl

/-- Control stays where it is behind an instruction that is neither `JMP` nor `RET`. -/
theorem inside_succ (h : u.LaidOut L lines t) {r : Option Signature} (hn : L.Inside r n) (hline : lines[n]? = some line)
    (hjmp : line.instruction.op ≠ .jmp) (hret : line.instruction.op ≠ .ret) : L.Inside r (n + 1) := by
  cases r with
  | none =>
    rcases h.outside_cases hn hline with ⟨hlt, -⟩ | hjump | ⟨hle, -⟩
    · exact .inl hlt
    · rw [hjump] at hjmp
      exact (hjmp rfl).elim
    · exact .inr hle
  | some f =>
    obtain ⟨k, code, hk, hlow, hhigh⟩ := hn
    have hlast := mt (h.inside_cases hk hlow hhigh hline).2 hret
    exact ⟨k, code, hk, Nat.le_succ_of_le hlow, by omega⟩

/-- No jump leads into a function or out of it. -/
theorem inside_jump (h : u.LaidOut L lines t) {r : Option Signature} (hn : L.Inside r n) (hline : lines[n]? = some line)
    (hop : line.instruction.op.isJump = true) {m : Nat} (hm : line.instruction.operand = some m) : L.Inside r m := by
  cases r with
  | none =>
    rcases h.outside_cases hn hline with ⟨-, hmem⟩ | hjump | ⟨-, hmem⟩
    · have hstraight := h.lays.straight line hmem
      generalize line.instruction.op = op at hop hstraight
      cases op with
      | jmp | jz => exact (hstraight (by decide)).elim
      | _ => cases hop
    · rw [hjump] at hm
      cases hm
      exact .inr (Nat.le_refl _)
    · rw [List.mem_append, List.mem_singleton, Layout.call, List.mem_map] at hmem
      rcases hmem with ⟨k, -, hcall⟩ | hret
      · rw [← hcall] at hop
        cases hop
      · rw [hret] at hop
        cases hop
  | some f =>
    obtain ⟨k, code, hk, hlow, hhigh⟩ := hn
    obtain ⟨m', hm', hinside⟩ := h.lays.jumps k f code hk line (h.inside_cases hk hlow hhigh hline).1 hop
    rw [hm] at hm'
    cases hm'
    exact ⟨k, code, hk, hinside⟩

/-- A call goes to a function. -/
theorem exists_callee (h : u.LaidOut L lines t) {r : Option Signature} (hn : L.Inside r n) (hline : lines[n]? = some line)
    (hop : line.instruction.op = .call) :
    ∃ (k : Nat) (f : Signature) (code : List CodeLine), L.functions[k]? = some (f, code) ∧
      line.instruction.operand = some (L.entry k) := by
  cases r with
  | none =>
    rcases h.outside_cases hn hline with ⟨-, hmem⟩ | hjump | ⟨-, hmem⟩
    · exact (h.lays.straight line hmem (by rw [hop]; decide)).elim
    · rw [hjump] at hop
      cases hop
    · rw [List.mem_append, List.mem_singleton, Layout.call, List.mem_map] at hmem
      rcases hmem with ⟨k, hmain, hcall⟩ | hret
      · rw [Option.mem_toList, h.lays.main] at hmain
        obtain ⟨hlt, -⟩ := List.findIdx?_eq_some_iff_getElem.1 hmain
        rw [h.lays.functions.length_eq] at hlt
        refine ⟨k, L.functions[k].1, L.functions[k].2, List.getElem?_eq_getElem hlt, ?_⟩
        rw [← hcall]
      · rw [hret] at hop
        cases hop
  | some f =>
    obtain ⟨k, code, hk, hlow, hhigh⟩ := hn
    obtain ⟨j, hj, hoperand⟩ := h.lays.calls k f code hk line (h.inside_cases hk hlow hhigh hline).1 hop
    have hlt : j < L.functions.length := Nat.lt_of_le_of_lt hj (List.getElem?_eq_some_iff.1 hk).1
    exact ⟨j, L.functions[j].1, L.functions[j].2, List.getElem?_eq_getElem hlt, hoperand⟩

/-- At a `RET` of a function just its value is on the stack, unless it is the last instruction. -/
theorem height_of_ret (h : u.LaidOut L lines t) {f : Signature} (hn : L.Inside (some f) n) (hline : lines[n]? = some line)
    (hret : line.instruction.op = .ret) (hnot : ¬ L.FallsOff n) : height L.callee? lines n = f.returns.width := by
  obtain ⟨k, code, hk, hlow, hhigh⟩ := hn
  have hstands := h.stands_function hk
  obtain ⟨j, rfl⟩ := Nat.exists_eq_add_of_le hlow
  have hzero := h.height_entry L.callee? hk
  have hentry := Layout.entry_succ hk
  obtain ⟨body, close, rfl, hwalk⟩ := h.walk_function hk
  rw [List.length_append, List.length_singleton] at hentry
  rcases Nat.lt_or_ge j body.length with hj | hj
  · have hget := hstands.left.getElem? hj
    rw [hline] at hget
    rw [← hzero] at hwalk
    exact (hwalk.at_address hstands.left hget.symm).2.ret hret
  · obtain rfl : j = body.length := by omega
    have hvoid : f.returns = .void := by_contra fun hty => hnot ⟨k, f, _, hk, hty, by omega⟩
    rw [hstands.left.height_add, hzero, hwalk.heightAfter_eq, hvoid, Ty.width_void]

end CompilationUnit.LaidOut

/-! ## Runs -/

/-- A call that has not returned yet: the address that was called, and how many operands there were without the arguments. -/
structure Activation where
  entry : Nat
  below : Nat
deriving DecidableEq, Repr

/-- How many of the operands do not belong to the innermost call. -/
def Activation.base : List Activation → Nat
  | [] => 0
  | call :: _ => call.below

namespace Machine

variable {V : Type}

/-- The calls that have not returned after the instruction has led to the state, the latest first. -/
def activations (i : Instruction) (s : State V) (active : List Activation) : List Activation :=
  match i.op with
  | .call => ⟨s.pc, s.stack.length⟩ :: active
  | .ret => active.tail
  | _ => active

/-- A run leads from the initial state to this one, with these calls open, and executes nothing at an address that is to be avoided. -/
inductive Reaches (M : Machine V) (avoid : Nat → Prop) : State V → List Activation → Prop
  | initial : Reaches M avoid (.initial V) []
  | step {s s' : State V} {i : Instruction} {active : List Activation} :
      Reaches M avoid s active → ¬ avoid s.pc → M.fetch s.pc = some i → M.exec s i = some s' →
        Reaches M avoid s' (activations i s' active)

/-- The machine is in the function, or in none, and each open call left its caller at an address where the value that the called
function returns is accounted for. -/
inductive Nested (L : Layout) (H : Nat → Nat) : Option Signature → List Activation → List (Nat × Option (Memory V)) → Prop
  | nil : Nested L H none [] []
  | cons {r : Option Signature} {f : Signature} {active : List Activation} {callers : List (Nat × Option (Memory V))}
      {below pc : Nat} {frame : Option (Memory V)} :
      Nested L H r active callers → L.Inside r pc → L.callee? f.entry = some f →
        below + f.returns.width = Activation.base active + H pc →
        Nested L H (some f) (⟨f.entry, below⟩ :: active) ((pc, frame) :: callers)

/-- The number of operands is what the height at the address says, above what belongs to the callers. -/
structure Level (L : Layout) (H : Nat → Nat) (r : Option Signature) (s : State V) (active : List Activation) : Prop where
  nested : Nested L H r active s.callers
  inside : L.Inside r s.pc
  length_eq : s.stack.length = Activation.base active + H s.pc

/-- An instruction that is neither a call nor a return changes no activation. -/
theorem activations_of_ne {i : Instruction} (hcall : i.op ≠ .call) (hret : i.op ≠ .ret) (s : State V) (active : List Activation) :
    activations i s active = active := by
  unfold activations
  split
  · exact (hcall ‹_›).elim
  · exact (hret ‹_›).elim
  · rfl

/-- The machine fetches the instructions of the program. -/
theorem fetch_eq (M : Machine V) (n : Nat) : M.fetch n = M.program.instructions[n]? := by
  rw [fetch, Program.instructions, List.getElem?_map, Array.getElem?_toList]

section

variable {M : Machine V} {u : CompilationUnit} {L : Layout} {t : SymbolTable} {emits : Emission → Prop} {final : Nat → Prop}
  {s s' : State V} {i : Instruction} {active : List Activation} {r : Option Signature}

/-- A step keeps the number of operands at what the heights say. -/
theorem Level.step (hL : u.LaidOut L M.program.lines.toList t)
    (harity : ∀ n f, L.callee? n = some f → M.arity n = f.params.length)
    (h : Level L (height L.callee? M.program.lines.toList) r s active) (hnot : ¬ L.FallsOff s.pc) (hi : M.fetch s.pc = some i)
    (hexec : M.exec s i = some s') :
    ∃ r', Level L (height L.callee? M.program.lines.toList) r' s' (activations i s' active) := by
  obtain ⟨hnested, hinside, hlength⟩ := h
  rw [fetch_eq] at hi
  obtain ⟨line, hline, hi⟩ := Program.getElem?_instructions.1 hi
  obtain ⟨hfits, hgoes⟩ := hL.walk.at_address (.self _) hline
  have hfalls : height L.callee? M.program.lines.toList (s.pc + 1) = _ := height_succ hline
  rw [Nat.zero_add] at hfits hgoes
  rw [hi] at hfits hgoes hfalls
  cases effect_of_exec hexec L.callee? with
  | plain hjump hcall hret hpc hcallers hstack =>
    have hjmp : i.op ≠ .jmp := by
      intro hop
      rw [hop] at hjump
      cases hjump
    rw [Instruction.next_of_ne hjmp hret, Instruction.leaves] at hfalls
    rw [activations_of_ne hcall hret]
    refine ⟨r, hcallers ▸ hnested, hpc ▸ hL.inside_succ hinside hline (hi ▸ hjmp) (hi ▸ hret), ?_⟩
    rw [hstack, hpc, hfalls, hlength]
    omega
  | jump hop htarget hcallers hstack =>
    obtain ⟨hheight, m, hm, hzero⟩ := hgoes.jump hop
    have hcall : i.op ≠ .call := by
      intro hi
      rw [hi] at hop
      cases hop
    have hret : i.op ≠ .ret := by
      intro hi
      rw [hi] at hop
      cases hop
    rw [activations_of_ne hcall hret]
    rcases htarget with htarget | ⟨hjz, hpc⟩
    · rw [htarget] at hm
      cases hm
      refine ⟨r, hcallers ▸ hnested, hL.inside_jump hinside hline (hi ▸ hop) (hi ▸ htarget), ?_⟩
      rw [hstack, hzero, hlength, hheight]
      omega
    · have hjmp : i.op ≠ .jmp := by
        rw [hjz]
        exact Operation.noConfusion
      rw [Instruction.next_of_ne hjmp hret, Instruction.leaves, Instruction.pushes_of_isJump hop] at hfalls
      refine ⟨r, hcallers ▸ hnested, hpc ▸ hL.inside_succ hinside hline (hi ▸ hjmp) (hi ▸ hret), ?_⟩
      rw [hstack, hpc, hfalls, hlength]
      omega
  | @call n _ frame hpc hcallers hstack =>
    obtain ⟨k, f, code, hk, hoperand⟩ := hL.exists_callee hinside hline (by rw [hi])
    obtain rfl : n = L.entry k := Option.some.inj (by rw [← hoperand, hi])
    have hcallee := hL.lays.callee?_entry hk
    have hentry := hL.lays.entry_eq k f code hk
    have hpops : Instruction.pops L.callee? ⟨.call, some (L.entry k)⟩ = f.params.length := by simp [Instruction.pops, hcallee]
    have hpushes : Instruction.pushes L.callee? ⟨.call, some (L.entry k)⟩ = f.returns.width := by
      simp [Instruction.pushes, hcallee]
    rw [Instruction.next_of_ne (by simp) (by simp), Instruction.leaves, hpops, hpushes] at hfalls
    rw [hpops] at hfits
    rw [harity _ f hcallee] at hstack
    have hactive : activations ⟨.call, some (L.entry k)⟩ s' active = ⟨f.entry, s'.stack.length⟩ :: active := by
      rw [hentry, ← hpc]
      rfl
    refine ⟨some f, ?_, ?_, ?_⟩
    · rw [hactive, hcallers]
      refine .cons hnested (hL.inside_succ hinside hline (by simp [hi]) (by simp [hi])) (by rw [hentry, hcallee]) ?_
      rw [hstack, hfalls, hlength]
      omega
    · rw [hpc]
      exact ⟨k, code, hk, Nat.le_refl _, hL.lays.entry_lt (Nat.lt_succ_self k) hk⟩
    · rw [hactive, hpc, hL.height_entry _ hk]
      rfl
  | ret hcallers hstack =>
    rw [hcallers] at hnested
    cases hnested with
    | @cons r f active callers below pc frame hnested hinside' hf hbelow =>
      refine ⟨r, hnested, hinside', ?_⟩
      rw [hL.height_of_ret hinside hline (by rw [hi]) hnot] at hlength
      rw [hstack, hlength]
      exact hbelow

/-- So does a run. -/
theorem Reaches.exists_level (hL : u.LaidOut L M.program.lines.toList t)
    (harity : ∀ n f, L.callee? n = some f → M.arity n = f.params.length) (h : M.Reaches L.FallsOff s active) :
    ∃ r, Level L (height L.callee? M.program.lines.toList) r s active := by
  induction h with
  | initial => exact ⟨none, .nil, .inl (Nat.zero_le _), rfl⟩
  | step _ hnot hi hexec ih =>
    obtain ⟨r, hlevel⟩ := ih
    exact hlevel.step hL harity hnot hi hexec

end

end Machine

/-! ## Compiled programs -/

/-- A run of a compiled program, as long as no function that returns a value runs to its end without a return: every instruction
finds all its operands above those of the callers, and where a call returns, just the value of its function, if it has one, is there. -/
theorem calls_deliver {s : Source} {p : Program} (h : compile .program s = .ok p) :
    ∃ pos u, ∃ L : Layout, s.lex.ending = .ok pos ∧ Grammar.ProgramText s.lex.tokens pos u ∧ L.Lays u ∧
      p.instructions = L.instructions ∧
      ∀ (V : Type) (M : Machine V), M.program = p → (∀ n f, L.callee? n = some f → M.arity n = f.params.length) →
        ∀ (state : State V) (active : List Activation), M.Reaches L.FallsOff state active →
          ∀ i, M.fetch state.pc = some i →
            Activation.base active + i.pops L.callee? ≤ state.stack.length ∧
            (i.op = .ret → ¬ L.FallsOff state.pc → ∀ call rest, active = call :: rest →
              ∃ f, L.callee? call.entry = some f ∧ state.stack.length = call.below + f.returns.width) := by
  obtain ⟨pos, u, a, hend, hu, hrun, rfl⟩ := compile_program_eq_ok.1 h
  obtain ⟨L, t, hL, -⟩ := CompilationUnit.exists_standAll hu.structured.1 hu.structured.2 hu.declarative hrun
  refine ⟨pos, u, L, hend, hu, hL.lays, hL.instructions_eq, fun V M hM harity state active hreaches i hi => ?_⟩
  have hcode : M.program.lines.toList = a.code := by rw [hM]; rfl
  rw [← hcode] at hL
  obtain ⟨r, hnested, hinside, hlength⟩ := hreaches.exists_level hL harity
  rw [Machine.fetch_eq] at hi
  obtain ⟨line, hline, rfl⟩ := Program.getElem?_instructions.1 hi
  constructor
  · have hfits := (hL.walk.at_address (.self _) hline).1
    rw [Nat.zero_add] at hfits
    rw [hlength]
    omega
  · rintro hret hnot call rest rfl
    cases hcallers : state.callers with
    | nil =>
      rw [hcallers] at hnested
      cases hnested
    | cons caller callers =>
      rw [hcallers] at hnested
      cases hnested with
      | @cons _ f _ _ below _ _ _ _ hf _ =>
        refine ⟨f, hf, ?_⟩
        rw [hlength, hL.height_of_ret hinside hline hret hnot]
        rfl

/-- A function that returns on both ways through it, and whose value is an argument of itself. -/
def Sample.callAsArgument : Source :=
  .ofString ("fn least(k: int) -> int \x7b if k > 9 \x7b return 9; \x7d return k; \x7d\n" ++
    "fn main() -> void \x7b let x: int = least(least(12) + 1); \x7d")

/-- In a program with a call as an argument the calls deliver their results. -/
theorem calls_deliver_relay : ∃ p, compile .program Sample.callAsArgument = .ok p ∧ ∃ pos u, ∃ L : Layout,
    Sample.callAsArgument.lex.ending = .ok pos ∧
    Grammar.ProgramText Sample.callAsArgument.lex.tokens pos u ∧ L.Lays u ∧ p.instructions = L.instructions ∧
    ∀ M : Machine Int, M.program = p → (∀ n f, L.callee? n = some f → M.arity n = f.params.length) →
      ∀ (state : State Int) (active : List Activation), M.Reaches L.FallsOff state active →
        ∀ i, M.fetch state.pc = some i →
          Activation.base active + i.pops L.callee? ≤ state.stack.length ∧
          (i.op = .ret → ¬ L.FallsOff state.pc → ∀ call rest, active = call :: rest →
            ∃ f, L.callee? call.entry = some f ∧ state.stack.length = call.below + f.returns.width) := by
  have hok : (compile .program Sample.callAsArgument).isOk := by
    rw [Sample.callAsArgument, ← String.ofList_append, Source.ofString_ofList]
    decide +kernel
  obtain ⟨p, hp⟩ := Assembling.exists_eq_ok hok
  obtain ⟨pos, u, L, hend, hu, hL, hlayout, hruns⟩ := calls_deliver hp
  exact ⟨p, hp, pos, u, L, hend, hu, hL, hlayout, hruns Int⟩

/-- A function that is to return a value and returns none, and a call whose value is dropped. -/
def Sample.missingReturn : Source := .ofString "fn f() -> int \x7b \x7d fn main() -> void \x7b f(); \x7d"

/-- The `POP` behind the call finds nothing on the stack. -/
theorem forgetful_pops_nothing : ∃ p, compile .program Sample.missingReturn = .ok p ∧
    ∀ (V : Type) (M : Machine V), M.program = p → (∀ n, M.arity n = 0) →
      M.fetch 3 = some ⟨.pop, none⟩ ∧ ∃ frames callers, M.Steps (.initial V) ⟨3, [], frames, callers⟩ := by
  obtain ⟨hok, hcode⟩ : (compile .program Sample.missingReturn).isOk ∧
      (compile .program Sample.missingReturn).toOption.map Program.instructions =
        some [⟨.jmp, some 5⟩, ⟨.ret, none⟩, ⟨.call, some 1⟩, ⟨.pop, none⟩, ⟨.ret, none⟩, ⟨.call, some 2⟩, ⟨.ret, none⟩] := by
    rw [Sample.missingReturn, Source.ofString_ofList]
    decide +kernel
  obtain ⟨p, hp⟩ := Assembling.exists_eq_ok hok
  rw [hp] at hcode
  have hcode : p.instructions = _ := Option.some.inj hcode
  refine ⟨p, hp, fun V M hM harity => ?_⟩
  have hfetch : ∀ n, M.fetch n = p.instructions[n]? := fun n => by rw [M.fetch_eq, hM]
  rw [hcode] at hfetch
  have hnone : ∀ n, M.arity n = ([] : List V).length := harity
  -- past the functions, into `main`, into the function, and out of it again
  have hjump : M.Steps (.initial V) ⟨5, [], ⟨none, fun _ => none⟩, []⟩ := Machine.steps_jmp (hfetch 0)
  have hmain := hjump.trans (Machine.steps_call (hfetch 5) (hnone 2))
  have hf := hmain.trans (Machine.steps_call (hfetch 2) (hnone 1))
  exact ⟨hfetch 3, _, _, hf.trans (Machine.steps_ret (hfetch 1))⟩

end C0Stack
