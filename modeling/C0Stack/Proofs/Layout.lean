import C0Stack.Proofs.Acceptance
import C0Stack.Proofs.Grammar.Structured
import C0Stack.Proofs.Simulation.Program

/-!
# How the code of a program is laid out

The declarations come first, then a jump past the functions if there are any, then the functions in the order of the text, then the
call of `main` if there is one, and last a `RET`. `Layout` holds these parts and gives the address of each function, and
`Layout.Lays` says what each part is made of: no jump leaves the function it is in, and a call goes to the function it is in or to
one before it.
-/

namespace C0Stack

/-- The parts of the code of a program: the code of its declarations, for each function what a call of it must know and its code,
and the number of the function `main`. -/
structure Layout where
  globals : List CodeLine
  functions : List (Signature × List CodeLine)
  main : Option Nat

namespace Layout

variable (L : Layout)

/-- The code of each function. -/
def bodies : List (List CodeLine) := L.functions.map Prod.snd

/-- The address of the first instruction of a function. For the number behind the last one it is the address behind them all. -/
def entry (k : Nat) : Nat := L.globals.length + 1 + (L.bodies.take k).flatten.length

/-- The jump past the functions. -/
def jump : List Instruction := if L.functions.isEmpty then [] else [⟨.jmp, some (L.entry L.functions.length)⟩]

/-- The call of `main`. -/
def call : List Instruction := L.main.toList.map fun k => ⟨.call, some (L.entry k)⟩

/-- The function `main`. -/
def main? : Option Signature := (L.main.bind fun k => L.functions[k]?).map Prod.fst

/-- The function that is called at the address. -/
def callee? (address : Nat) : Option Signature := (L.functions.map Prod.fst).find? fun f => f.entry == address

/-- All parts in order. -/
def instructions : List Instruction :=
  L.globals.map CodeLine.instruction ++ (L.jump ++ L.bodies.flatten.map CodeLine.instruction) ++ (L.call ++ [⟨.ret, none⟩])

variable {L}

theorem entry_length : L.entry L.functions.length = L.globals.length + 1 + L.bodies.flatten.length := by
  rw [entry, List.take_of_length_le (by simp [bodies])]

/-- The next function starts behind the code of this one. -/
theorem entry_succ {k : Nat} {f : Signature} {code : List CodeLine} (h : L.functions[k]? = some (f, code)) :
    L.entry (k + 1) = L.entry k + code.length := by
  have hbody : L.bodies[k]? = some code := by rw [bodies, List.getElem?_map, h]; rfl
  rw [entry, entry, List.take_add_one, hbody]
  simp [Nat.add_assoc]

end Layout

namespace Function

/-- The name of a function that could be read. -/
def name? : Function → Option String
  | defn _ name _ _ _ _ => some name.name
  | fault _ _ _ => none

/-- The type that a function returns, if it could be read. -/
def returns? : Function → Option Ty
  | defn _ _ _ returns _ _ => Ty.named? returns.name
  | fault _ _ _ => none

/-- The signature has the types of the definition, and the code ends in a `RET` that was emitted for its closing brace. -/
def Lays : Function → Signature × List CodeLine → Prop
  | defn _ _ params returns _ close, (f, code) =>
    List.Forall₂ Param.HasType params f.params ∧ Ty.named? returns.name = some f.returns ∧
      ∃ lines, code = lines ++ [⟨⟨.ret, none⟩, close⟩]
  | fault _ _ _, _ => False

/-- The types of a definition include the one that it returns. -/
theorem Lays.returns?_eq {d : Function} {f : Signature} {code : List CodeLine} (h : d.Lays (f, code)) :
    d.returns? = some f.returns := by
  cases d with
  | defn => exact h.2.1
  | fault => exact h.elim

/-- So do the types of functions in sequence. -/
theorem map_returns? {fs : List Function} {parts : List (Signature × List CodeLine)} (h : List.Forall₂ Lays fs parts) :
    fs.map returns? = parts.map fun part => some part.1.returns := by
  induction h with
  | nil => rfl
  | cons hlays _ ih => rw [List.map_cons, List.map_cons, hlays.returns?_eq, ih]

end Function

/-- The parts are those of the unit. -/
structure Layout.Lays (L : Layout) (u : CompilationUnit) : Prop where
  straight : ∀ line ∈ L.globals, line.instruction.op ∉ [.jmp, .jz, .call, .pop, .ret, .lodg, .stog]
  functions : List.Forall₂ Function.Lays u.functions L.functions
  entry_eq : ∀ k f code, L.functions[k]? = some (f, code) → f.entry = L.entry k
  jumps : ∀ k f code, L.functions[k]? = some (f, code) → ∀ line ∈ code, line.instruction.op.isJump = true →
    ∃ n, line.instruction.operand = some n ∧ L.entry k ≤ n ∧ n < L.entry (k + 1)
  calls : ∀ k f code, L.functions[k]? = some (f, code) → ∀ line ∈ code, line.instruction.op = .call →
    ∃ j ≤ k, line.instruction.operand = some (L.entry j)
  main : L.main = u.functions.findIdx? fun f => f.name? == some "main"

namespace Layout

variable {L : Layout} {u : CompilationUnit}

/-- The next function does not start in front of this one. -/
theorem entry_le_succ (k : Nat) : L.entry k ≤ L.entry (k + 1) := by
  rw [entry, entry, List.take_add_one, List.flatten_append, List.length_append]
  omega

/-- Functions start in the order of their numbers. -/
theorem entry_mono {j k : Nat} (h : j ≤ k) : L.entry j ≤ L.entry k := by
  induction h with
  | refl => exact Nat.le_refl _
  | step _ ih => exact Nat.le_trans ih (entry_le_succ _)

/-- The function of each number is one of the unit. -/
theorem Lays.exists_defn (h : L.Lays u) {k : Nat} {f : Signature} {code : List CodeLine} (hk : L.functions[k]? = some (f, code)) :
    ∃ d, u.functions[k]? = some d ∧ d.Lays (f, code) := by
  obtain ⟨hlt, hk⟩ := List.getElem?_eq_some_iff.1 hk
  have hlength := h.functions.length_eq
  refine ⟨_, List.getElem?_eq_getElem (hlength ▸ hlt), ?_⟩
  rw [← hk]
  exact (List.forall₂_iff_get.1 h.functions).2 k (hlength ▸ hlt) hlt

/-- The number of `main` depends on the names of the functions only. -/
theorem Lays.main_eq (h : L.Lays u) : L.main = (u.functions.map Function.name?).findIdx? (· == some "main") := by
  rw [h.main, List.findIdx?_map]
  rfl

/-- A function has code, so the next one starts behind it. -/
theorem Lays.entry_lt (h : L.Lays u) {j k : Nat} (hjk : j < k) {f : Signature} {code : List CodeLine}
    (hj : L.functions[j]? = some (f, code)) : L.entry j < L.entry k := by
  obtain ⟨d, -, hd⟩ := h.exists_defn hj
  have hne : 0 < code.length := by
    cases d with
    | defn =>
      obtain ⟨-, -, lines, rfl⟩ := hd
      simp
    | fault => exact hd.elim
  have hsucc := entry_succ hj
  have hmono : L.entry (j + 1) ≤ L.entry k := entry_mono hjk
  omega

/-- The function that is called at the entry of a function is this function. -/
theorem Lays.callee?_entry (h : L.Lays u) {k : Nat} {f : Signature} {code : List CodeLine} (hk : L.functions[k]? = some (f, code)) :
    L.callee? (L.entry k) = some f := by
  obtain ⟨hlt, hget⟩ := List.getElem?_eq_some_iff.1 hk
  rw [callee?, List.find?_eq_some_iff_getElem]
  refine ⟨by rw [beq_iff_eq, h.entry_eq k f code hk], k, by rwa [List.length_map], by rw [List.getElem_map, hget], fun j hj => ?_⟩
  have hj' : L.functions[j]? = some (L.functions[j].1, L.functions[j].2) := List.getElem?_eq_getElem (Nat.lt_trans hj hlt)
  rw [List.getElem_map, Bool.not_eq_true', beq_eq_false_iff_ne, h.entry_eq j _ _ hj']
  exact Nat.ne_of_lt (h.entry_lt hj hj')

/-- Only at the entry of a function one is called. -/
theorem Lays.exists_of_callee? (h : L.Lays u) {n : Nat} {f : Signature} (hn : L.callee? n = some f) :
    ∃ k code, L.functions[k]? = some (f, code) ∧ n = L.entry k := by
  obtain ⟨⟨g, code⟩, hmem, rfl⟩ := List.mem_map.1 (List.mem_of_find?_eq_some hn)
  obtain ⟨k, hk⟩ := List.getElem?_of_mem hmem
  refine ⟨k, code, hk, ?_⟩
  have hentry := List.find?_some hn
  rw [beq_iff_eq] at hentry
  rw [← hentry, h.entry_eq k g code hk]

end Layout

/-! ## The functions of a unit -/

/-- A function that is as `ok` says may be declared. -/
theorem SymbolTable.All.withFunction {ok : String → Binding → Prop} {t : SymbolTable} (h : t.All ok) (hnested : t.nested = [])
    {name : String} {f : Signature} (hf : ok name (.function f)) : (t.withFunction name f).All ok := by
  refine .of_nested_eq_nil hnested fun x b hx => ?_
  rw [SymbolTable.find?_withFunction hnested] at hx
  split at hx
  · rename_i hname
    cases hx
    rwa [← hname] at hf
  · exact h.of_find? hx

namespace Function

/-- The parts of the code of functions from the address `base` on, behind functions with the signatures `earlier`. The table is the
one behind them. -/
structure Parts (earlier : List Signature) (base : Nat) (fs : List Function) (t : SymbolTable)
    (parts : List (Signature × List CodeLine)) : Prop where
  lays : List.Forall₂ Lays fs parts
  entry_eq : ∀ k f code, parts[k]? = some (f, code) → f.entry = base + ((parts.map Prod.snd).take k).flatten.length
  compiled : ∀ k f code, parts[k]? = some (f, code) → ∃ name params target body close t t',
    Compiled name params target body close t f.entry f code t' ∧ t.nested = [] ∧
      t.All (Binding.Callable (· ∈ earlier ++ (parts.take k).map Prod.fst))
  named : ∀ (k : Nat) (d : Function) (x : String), fs[k]? = some d → d.name? = some x →
    ∃ f code, parts[k]? = some (f, code) ∧ t.find? x = some (.function f)

variable {earlier : List Signature} {t t' : SymbolTable} {base : Nat}

/-- Inside a function one can call it, and what can be called in front of it. -/
theorem Compiled.all {callee : Signature → Prop} {name target : Ident} {params : List Param} {body : Stmt} {close : Position}
    {f : Signature} {code : List CodeLine} (h : Compiled name params target body close t base f code t') (hnested : t.nested = [])
    (ht : t.All (Binding.Callable callee)) (hf : callee f) {t₁ : SymbolTable}
    (hdeclares : (t.withFunction name.name f).enterFunction.DeclaresParams (params.zip f.params) t₁) :
    t₁.All (Binding.Callable callee) := by
  have hzip := List.forall₂_iff_zip.1 h.types
  exact ((ht.withFunction hnested hf).enter 0).declaresParams Binding.callable_markWritten (fun _ _ hv => hv) hdeclares
    fun p hp => (hzip.2 hp).2

/-- A function jumps within its own code, and calls itself or a function that is there in front of it. -/
theorem Compiled.line {name target : Ident} {params : List Param} {body : Stmt} {close : Position} {f : Signature}
    {code : List CodeLine} (h : Compiled name params target body close t base f code t') (hnested : t.nested = [])
    (ht : t.All (Binding.Callable (· ∈ earlier))) {line : CodeLine} (hline : line ∈ code) :
    Stmt.Line True (· ∈ earlier ++ [f]) (fun n => f.entry ≤ n ∧ n < f.entry + code.length) line.instruction := by
  obtain ⟨t₁, t₂, lines, hdeclares, hcompiled, rfl⟩ := h.body
  rw [h.entry_eq, List.length_append, List.length_singleton]
  have hall : t₁.All (Binding.Callable (· ∈ earlier ++ [f])) :=
    h.all hnested (ht.mono fun x b hb => hb.mono fun g hg => List.mem_append_left _ hg) (List.mem_append_right _ List.mem_cons_self)
      hdeclares
  rcases List.mem_append.1 hline with hline | hline
  · have hbody := hcompiled.line hall hline
    simp only [Option.isSome_some] at hbody
    refine hbody.mono fun n hn => ?_
    -- no loop is around the body
    rcases hn with ⟨h₁, h₂⟩ | ⟨hloop, -⟩
    · exact ⟨h₁, by omega⟩
    · cases hloop
  · obtain rfl := List.mem_singleton.1 hline
    exact .ret

/-- A function jumps within its own code, and calls itself or an earlier one. -/
theorem Parts.line {fs : List Function} {parts : List (Signature × List CodeLine)} (h : Parts earlier base fs t parts) {k : Nat}
    {f : Signature} {code : List CodeLine} (hk : parts[k]? = some (f, code)) {line : CodeLine} (hline : line ∈ code) :
    Stmt.Line True (fun g => g ∈ earlier ++ (parts.take (k + 1)).map Prod.fst) (fun n => f.entry ≤ n ∧ n < f.entry + code.length)
      line.instruction := by
  obtain ⟨name, params, target, body, close, t, t', hcompiled, hnested, ht⟩ := h.compiled k f code hk
  rw [List.take_add_one, hk, List.map_append, ← List.append_assoc]
  exact hcompiled.line hnested ht hline

/-- The code of functions in sequence can be taken apart into that of each. -/
theorem CompiledAll.exists_parts {fs : List Function} {code : List CodeLine} (h : CompiledAll t base fs code t')
    (hnested : t.nested = []) (ht : t.All (Binding.Callable (· ∈ earlier))) :
    ∃ parts, code = (parts.map Prod.snd).flatten ∧ Parts earlier base fs t' parts := by
  induction h generalizing earlier with
  | nil => exact ⟨[], rfl, .nil, nofun, nofun, nofun⟩
  | @cons t t₁ t₂ base pos close name target params body f fs code rest h hfs ih =>
    have hnested₁ := h.nested_eq_nil hnested
    have hf : f ∈ earlier ++ [f] := List.mem_append_right _ List.mem_cons_self
    have hearlier : t.All (Binding.Callable (· ∈ earlier ++ [f])) :=
      ht.mono fun x b hb => hb.mono fun g hg => List.mem_append_left _ hg
    obtain ⟨parts, rfl, hparts⟩ := ih hnested₁ ((hearlier.withFunction hnested hf).of_written Binding.callable_markWritten h.written)
    refine ⟨(f, code) :: parts, rfl, .cons ?_ hparts.lays, ?_, ?_, ?_⟩
    · obtain ⟨_, _, lines, -, -, hcode⟩ := h.body
      exact ⟨h.types, h.returns, lines, hcode⟩
    · intro k g c hk
      cases k with
      | zero =>
        cases hk
        exact h.entry_eq
      | succ k =>
        have hentry := hparts.entry_eq k g c hk
        simp only [List.map_cons, List.take_succ_cons, List.flatten_cons, List.length_append]
        omega
    · intro k g c hk
      cases k with
      | zero =>
        cases hk
        refine ⟨name, params, target, body, close, t, t₁, h.entry_eq ▸ h, hnested, ?_⟩
        rwa [List.take_zero, List.map_nil, List.append_nil]
      | succ k =>
        have hcompiled := hparts.compiled k g c hk
        simpa only [List.take_succ_cons, List.map_cons, List.append_assoc, List.singleton_append] using hcompiled
    · intro k d x hk hx
      cases k with
      | zero =>
        cases hk
        cases hx
        exact ⟨f, code, rfl, hfs.find?_function hnested₁ ((h.find?_function hnested).2 (.inl ⟨rfl, rfl⟩))⟩
      | succ k => exact hparts.named k d x hk hx

/-- What is a function behind the functions was one in front of them, or has the name of one of them. -/
theorem CompiledAll.exists_name?_of_find? {fs : List Function} {code : List CodeLine} (h : CompiledAll t base fs code t')
    (ht : t.nested = []) {x : String} {g : Signature} (hx : t'.find? x = some (.function g)) :
    t.find? x = some (.function g) ∨ ∃ d ∈ fs, d.name? = some x := by
  induction h with
  | nil => exact .inl hx
  | cons h _ ih =>
    rcases ih (h.nested_eq_nil ht) hx with hx | ⟨d, hd, hname⟩
    · rcases (h.find?_function ht).1 hx with ⟨rfl, -⟩ | hx
      · exact .inr ⟨_, List.mem_cons_self, rfl⟩
      · exact .inl hx
    · exact .inr ⟨d, List.mem_cons_of_mem _ hd, hname⟩

end Function

/-! ## The unit -/

/-- The code of the unit is `lines`, with these parts, and the table behind its functions is `t`. -/
structure CompilationUnit.LaidOut (u : CompilationUnit) (L : Layout) (lines : List CodeLine) (t : SymbolTable) : Prop where
  lays : L.Lays u
  globals : ∃ t₀, Stmt.Compiled .outermost 0 .empty 0 u.globals L.globals t₀
  function : ∀ k f code, L.functions[k]? = some (f, code) → ∃ name params target body close t₀ t₁,
    Function.Compiled name params target body close t₀ f.entry f code t₁ ∧ t₀.nested = [] ∧
      t₀.All (Binding.Callable (· ∈ (L.functions.take k).map Prod.fst))
  lines_eq : ∃ jump call last, jump.map CodeLine.instruction = L.jump ∧ call.map CodeLine.instruction = L.call ∧
    lines = L.globals ++ (jump ++ L.bodies.flatten) ++ (call ++ [⟨⟨.ret, none⟩, last⟩])
  exists_of_find? : ∀ x f, t.find? x = some (.function f) → ∃ (k : Nat) (code : List CodeLine), L.functions[k]? = some (f, code)
  main_params : ∀ f, L.main? = some f → f.params = []

/-- The instructions of the code are those of the layout. -/
theorem CompilationUnit.LaidOut.instructions_eq {u : CompilationUnit} {L : Layout} {lines : List CodeLine} {t : SymbolTable}
    (h : u.LaidOut L lines t) : lines.map CodeLine.instruction = L.instructions := by
  obtain ⟨jump, call, last, hjump, hcall, rfl⟩ := h.lines_eq
  simp only [List.map_append, hjump, hcall]
  rfl

/-- The layout of a unit whose declarations and functions have this code. -/
def CompilationUnit.layout (u : CompilationUnit) (globals : List CodeLine) (parts : List (Signature × List CodeLine)) : Layout :=
  ⟨globals, parts, u.functions.findIdx? fun f => f.name? == some "main"⟩

namespace CompilationUnit.Compiled

variable {u : CompilationUnit} {globals jump functions call : List CodeLine} {pos : Position} {t t' : SymbolTable}
  {parts : List (Signature × List CodeLine)}

theorem find?_ne_function (h : u.Compiled globals jump functions call pos t t') (x : String) (f : Signature) :
    t.find? x ≠ some (.function f) :=
  fun hx => h.binding_global hx

/-- The declarations only compute values and store them. -/
theorem line_globals (h : u.Compiled globals jump functions call pos t t') (hu : u.globals.Declarative) {line : CodeLine}
    (hline : line ∈ globals) : Expr.Line False (fun _ => False) line.instruction := by
  have hempty : SymbolTable.empty.All (Binding.Callable fun _ => False) := .of_nested_eq_nil rfl nofun
  have hexpr := h.globals_compiled.line_of_declarative hu hempty hline
  simpa [Context.outermost] using hexpr

/-- The functions start behind the jump. -/
theorem exists_parts (h : u.Compiled globals jump functions call pos t t') :
    ∃ parts, functions = (parts.map Prod.snd).flatten ∧ Function.Parts [] (globals.length + 1) u.functions t' parts := by
  have hglobals : t.All (Binding.Callable (· ∈ ([] : List Signature))) :=
    h.globals_compiled.all Binding.callable_markWritten (fun _ _ hv _ => hv) (.of_nested_eq_nil rfl nofun)
  obtain ⟨parts, hcode, hparts⟩ := h.functions_compiled.exists_parts h.nested_eq_nil hglobals
  refine ⟨parts, hcode, ?_⟩
  rcases h.jump_eq with ⟨hnil, -, -⟩ | ⟨-, pos', hjump⟩
  · -- there is no jump, and no function either
    have hlength := hparts.lays.length_eq
    rw [hnil] at hlength
    obtain rfl := List.eq_nil_of_length_eq_zero hlength.symm
    exact ⟨hparts.lays, nofun, nofun, hparts.named⟩
  · rw [List.length_append, hjump] at hparts
    exact hparts

/-- The parts are those of the unit. -/
theorem lays (h : u.Compiled globals jump functions call pos t t') (hu : u.globals.Declarative)
    (hparts : Function.Parts [] (globals.length + 1) u.functions t' parts) : (u.layout globals parts).Lays u where
  straight line hline := by
    have hexpr := h.line_globals hu hline
    generalize line.instruction = i at hexpr
    cases hexpr with
    | operator op => cases op <;> decide
    | lit | lod | sto => simp
    | lodg _ hfalse | stog _ hfalse | call _ hfalse => exact hfalse.elim
  functions := hparts.lays
  entry_eq := hparts.entry_eq
  jumps k f code hk line hline hop := by
    obtain ⟨n, hn, hlow, hhigh⟩ := (hparts.line hk hline).target_of_isJump hop
    rw [hparts.entry_eq k f code hk] at hlow hhigh
    exact ⟨n, hn, hlow, by rw [Layout.entry_succ hk]; exact hhigh⟩
  calls k f code hk line hline hop := by
    obtain ⟨g, hg, hoperand⟩ := (hparts.line hk hline).callee_of_call hop
    rw [List.nil_append, List.mem_map] at hg
    obtain ⟨⟨g', c⟩, hmem, rfl⟩ := hg
    obtain ⟨j, hj⟩ := List.getElem?_of_mem hmem
    rw [List.getElem?_take] at hj
    split at hj
    · rename_i hlt
      exact ⟨j, by omega, by rw [hoperand, hparts.entry_eq j _ _ hj]; rfl⟩
    · cases hj
  main := rfl

/-- The jump past the functions is that of the layout. -/
theorem jump_eq_layout (h : u.Compiled globals jump functions call pos t t')
    (hcode : functions = (parts.map Prod.snd).flatten) (hparts : Function.Parts [] (globals.length + 1) u.functions t' parts) :
    jump.map CodeLine.instruction = (u.layout globals parts).jump := by
  have hlength := hparts.lays.length_eq
  rcases h.jump_eq with ⟨hnil, hjump, -⟩ | ⟨hne, pos', hjump⟩
  · have hempty : parts = [] := List.eq_nil_of_length_eq_zero (by rw [← hlength, hnil]; rfl)
    simp [hjump, Layout.jump, layout, hempty]
  · have hnonempty : parts ≠ [] := fun hnil => hne (List.eq_nil_of_length_eq_zero (by rw [hlength, hnil]; rfl))
    have htarget : (globals ++ (jump ++ functions)).length = (u.layout globals parts).entry parts.length := by
      have hone : jump.length = 1 := by rw [hjump]; rfl
      have hentry : (u.layout globals parts).entry parts.length = _ := Layout.entry_length
      rw [hentry, hcode, List.length_append, List.length_append, hone, ← Nat.add_assoc]
      rfl
    rw [htarget] at hjump
    simp [hjump, Layout.jump, layout, hnonempty]

/-- The function that the name `main` stands for is the one of this name in the layout. -/
theorem signature?_main (h : u.Compiled globals jump functions call pos t t')
    (hparts : Function.Parts [] (globals.length + 1) u.functions t' parts) :
    t'.signature? "main" = (u.layout globals parts).main? := by
  cases hidx : u.functions.findIdx? (fun f => f.name? == some "main") with
  | none =>
    have hmain : t'.signature? "main" = none := by
      rw [Option.eq_none_iff_forall_ne_some]
      intro f hf
      rcases h.functions_compiled.exists_name?_of_find? h.nested_eq_nil (SymbolTable.signature?_eq_some.1 hf) with hf |
        ⟨d, hd, hname⟩
      · exact h.find?_ne_function _ _ hf
      · have hother := List.findIdx?_eq_none_iff.1 hidx d hd
        rw [hname] at hother
        cases hother
    simp [hmain, Layout.main?, layout, hidx]
  | some k =>
    obtain ⟨hlt, hname, -⟩ := List.findIdx?_eq_some_iff_getElem.1 hidx
    obtain ⟨f, code, hk, hf⟩ := hparts.named k _ _ (List.getElem?_eq_getElem hlt) (eq_of_beq hname)
    simp [SymbolTable.signature?_eq_some.2 hf, Layout.main?, layout, hidx, hk]

/-- The function `main`, if there is one, is the one that is called. -/
theorem call_eq_layout (h : u.Compiled globals jump functions call pos t t')
    (hparts : Function.Parts [] (globals.length + 1) u.functions t' parts) :
    call.map CodeLine.instruction = (u.layout globals parts).call := by
  rw [h.call_eq, h.signature?_main hparts]
  cases hidx : u.functions.findIdx? (fun f => f.name? == some "main") with
  | none => simp [Layout.main?, Layout.call, layout, hidx]
  | some k =>
    obtain ⟨hlt, -⟩ := List.findIdx?_eq_some_iff_getElem.1 hidx
    rw [hparts.lays.length_eq] at hlt
    have hk : parts[k]? = some (parts[k].1, parts[k].2) := List.getElem?_eq_getElem hlt
    have hentry : parts[k].1.entry = (u.layout globals parts).entry k := hparts.entry_eq k _ _ hk
    have hmain : (u.layout globals parts).main? = some parts[k].1 := by simp [Layout.main?, layout, hidx, hlt]
    have hcall : (u.layout globals parts).call = [⟨.call, some ((u.layout globals parts).entry k)⟩] := by
      rw [Layout.call, show (u.layout globals parts).main = some k from hidx]
      rfl
    rw [hmain, hcall, ← hentry]
    rfl

/-- A unit that has code is laid out. -/
theorem exists_laidOut (h : u.Compiled globals jump functions call pos t t') (hu : u.globals.Declarative) :
    ∃ L : Layout, L.globals = globals ∧ u.LaidOut L (globals ++ (jump ++ functions) ++ (call ++ [⟨⟨.ret, none⟩, pos⟩])) t' := by
  obtain ⟨parts, hfunctions, hparts⟩ := h.exists_parts
  refine ⟨u.layout globals parts, rfl, h.lays hu hparts, ⟨t, h.globals_compiled⟩, hparts.compiled,
    ⟨jump, call, pos, h.jump_eq_layout hfunctions hparts, h.call_eq_layout hparts, by rw [hfunctions]; rfl⟩, fun x f hx => ?_, ?_⟩
  · rcases h.functions_compiled.exists_name?_of_find? h.nested_eq_nil hx with hx' | ⟨d, hd, hname⟩
    · exact (h.find?_ne_function _ _ hx').elim
    · obtain ⟨k, hk⟩ := List.getElem?_of_mem hd
      obtain ⟨g, code, hpart, hg⟩ := hparts.named k d x hk hname
      rw [hx] at hg
      cases hg
      exact ⟨k, code, hpart⟩
  · intro f hf
    rw [← h.signature?_main hparts] at hf
    exact h.main_params f hf

/-- Every instruction of a unit has an operand if its operation has one. -/
theorem operand_eq (h : u.Compiled globals jump functions call pos t t') (hu : u.globals.Declarative) {line : CodeLine}
    (hline : line ∈ globals ++ (jump ++ functions) ++ (call ++ [⟨⟨.ret, none⟩, pos⟩])) :
    line.instruction.operand.isSome = line.instruction.op.hasOperand := by
  obtain ⟨parts, hcode, hparts⟩ := h.exists_parts
  simp only [List.mem_append, List.mem_singleton] at hline
  rcases hline with (hline | hline | hline) | hline | rfl
  · exact (h.line_globals hu hline).operand_eq
  · rcases h.jump_eq with ⟨-, hjump, -⟩ | ⟨-, pos', hjump⟩
    · rw [hjump] at hline
      cases hline
    · rw [hjump] at hline
      obtain rfl := List.mem_singleton.1 hline
      rfl
  · rw [hcode, List.mem_flatten] at hline
    obtain ⟨code, hmem, hline⟩ := hline
    obtain ⟨⟨f, code'⟩, hpart, rfl⟩ := List.mem_map.1 hmem
    obtain ⟨k, hk⟩ := List.getElem?_of_mem hpart
    exact (hparts.line hk hline).operand_eq
  · rw [h.call_eq, List.mem_map] at hline
    obtain ⟨f, -, rfl⟩ := hline
    rfl
  · rfl

end CompilationUnit.Compiled

/-! ## Compiled texts -/

/-- Where statements are compiled, every instruction is one of theirs. -/
theorem Stmt.Assembled.line {S : Stmt} {a : Assembly} {code : Nat → List CodeLine} {waiting : List Nat}
    (h : Assembled .outermost S .empty a code waiting) {line : CodeLine} (hline : line ∈ a.code) :
    Line False (fun _ => False) (· ≤ a.code.length) line.instruction := by
  have hcode : a.code = code 0 := h.code_eq
  have hempty : SymbolTable.empty.All (Binding.Callable fun _ => False) := .of_nested_eq_nil rfl nofun
  rw [hcode] at hline ⊢
  have hline := (h.compiled 0).line hempty hline
  simp only [Context.outermost, Option.isSome_none, Bool.false_eq_true] at hline
  refine hline.mono fun n hn => ?_
  rcases hn with ⟨-, hn⟩ | ⟨hloop, -⟩
  · exact Nat.le_trans hn (Nat.le_of_eq (Nat.zero_add _))
  · cases hloop

/-- A compiled program is laid out as the unit says that was read, and of compiled statements every jump goes to an address of the
code or to its end. There are as many places as instructions, and an operand stands where the operation has one. -/
theorem compile_laid_out {mode : Mode} {s : Source} {p : Program} (h : compile mode s = .ok p) :
    p.positions.length = p.instructions.length ∧ (∀ i ∈ p.instructions, i.operand.isSome = i.op.hasOperand) ∧
      (mode = .program → ∃ pos u, ∃ L : Layout, Grammar.ProgramText s.lex.tokens pos u ∧ L.Lays u ∧
        p.instructions = L.instructions) ∧
      (mode = .statements → ∀ i ∈ p.instructions, i.op.isJump = true → ∃ n, i.operand = some n ∧ n ≤ p.size) := by
  refine ⟨by simp [Program.positions, Program.instructions], ?_⟩
  cases mode with
  | program =>
    obtain ⟨pos, u, a, -, hu, hrun, rfl⟩ := compile_program_eq_ok.1 h
    obtain ⟨globals, jump, functions, call, last, t, hcompiled, hcode⟩ :=
      CompilationUnit.emitted hu.structured.1 hu.structured.2 hrun
    have hinstructions : a.program.instructions = a.code.map CodeLine.instruction := rfl
    obtain ⟨L, -, hL⟩ := hcompiled.exists_laidOut hu.declarative
    refine ⟨fun i hi => ?_, fun _ => ⟨pos, u, L, hu, hL.lays, ?_⟩, nofun⟩
    · rw [hinstructions, hcode, List.mem_map] at hi
      obtain ⟨line, hline, rfl⟩ := hi
      exact hcompiled.operand_eq hu.declarative hline
    · rw [hinstructions, hcode]
      exact hL.instructions_eq
  | statements =>
    obtain ⟨pos, S, a, -, hS, hrun, rfl⟩ := compile_statements_eq_ok.1 h
    obtain ⟨code, waiting, hasm⟩ := Stmt.emitted hS.structured hrun
    refine ⟨fun i hi => ?_, nofun, fun _ i hi hop => ?_⟩
    · obtain ⟨line, hline, rfl⟩ := List.mem_map.1 hi
      exact (hasm.line hline).operand_eq
    · obtain ⟨line, hline, rfl⟩ := List.mem_map.1 hi
      exact (hasm.line hline).target_of_isJump hop

/-- A loop that is left in its middle, in a function that the next one calls. -/
def Sample.halvingLoop : Source :=
  .ofString ("let n: int = 40;\nfn half(k: int) -> int \x7b while k > 1 \x7b if k < 9 \x7b break; \x7d k = k / 2; \x7d return k; \x7d\n" ++
    "fn main() -> void \x7b n = half(n); \x7d")

/-- A program with a loop and a call has such a layout. -/
theorem compile_laid_out_halving : ∃ p, compile .program Sample.halvingLoop = .ok p ∧ p.positions.length = p.instructions.length ∧
    (∀ i ∈ p.instructions, i.operand.isSome = i.op.hasOperand) ∧
    ∃ pos u, ∃ L : Layout, Grammar.ProgramText Sample.halvingLoop.lex.tokens pos u ∧ L.Lays u ∧ p.instructions = L.instructions := by
  have hok : (compile .program Sample.halvingLoop).isOk := by
    rw [Sample.halvingLoop, ← String.ofList_append, Source.ofString_ofList]
    decide +kernel
  obtain ⟨p, hp⟩ := Assembling.exists_eq_ok hok
  obtain ⟨hpositions, hoperands, hprogram, -⟩ := compile_laid_out hp
  exact ⟨p, hp, hpositions, hoperands, hprogram rfl⟩

end C0Stack
