import C0Stack.Proofs.Acceptance
import C0Stack.Proofs.Grammar.Structured
import C0Stack.Proofs.Interpreter
import C0Stack.Proofs.Simulation.Program

/-!
# Compiled texts mean what they say
-/

namespace C0Stack

/-! ## Statements -/

/-- The machine gets from its initial state to the address, with these operands, no caller left, and for each variable in scope that
has a value this value in its slot. The slot of a variable is the number of those in scope that were declared before it. -/
def Machine.Arrives {V : Type} (M : Machine V) (σ : Store V) (pc : Nat) (stack : List V) : Prop :=
  ∃ frames, M.Steps (.initial V) ⟨pc, stack, frames, []⟩ ∧ frames.inner = none ∧
    ∀ (slot : Nat) (x : String) (v : V), σ.global.reverse[slot]? = some (x, some v) → frames.global slot = some v

/-- Outside functions the machine arrives with the values of the store in its frame. -/
theorem Machine.Computes.arrives {V : Type} {M : Machine V} {σ : Store V} {pc : Nat} {stack : List V}
    (h : M.Computes σ (.initial V) pc stack) (hσ : σ.inner = none) : M.Arrives σ pc stack := by
  obtain ⟨frames, hsteps, hinner, hglobal⟩ := h
  rw [hσ] at hinner
  generalize hframe : frames.inner = frame at hinner
  cases hinner
  exact ⟨frames, hsteps, hframe, Env.held_iff.1 hglobal⟩

/-- A compiled text of statements does on the machine what its tree says. From address zero the machine comes to the end of the
program with nothing on the stack if the statements end there, and else to a `RET` with just the returned value on the stack. In
both cases the variables in scope have their values in their slots, and at the end these are the slots of the table. -/
theorem statements_preserved {s : Source} {p : Program} (h : compile .statements s = .ok p) :
    ∃ pos S a, s.lex.ending = .ok pos ∧ Grammar.Statements s.lex.tokens S ∧
      (∀ S', Grammar.Statements s.lex.tokens S' → S' = S) ∧ (S.emit .outermost).run .empty = .ok ((), a) ∧
      ∀ (V : Type) (M : Machine V), M.program = p → ∀ (o : Ending V) (σ : Store V),
        Exec M.toArithmetic (fun _ => none) .empty S o σ →
        (o = .normal ∧ M.Arrives σ p.size [] ∧
          ∀ x y, a.symbols.find? x = some (.storage y) → ∃ r, σ.global.reverse[y.slot]? = some (x, r)) ∨
        ∃ r pc, o = .returned r ∧ M.fetch pc = some ⟨.ret, none⟩ ∧ M.Arrives σ pc r.toList := by
  obtain ⟨pos, S, a, hend, hS, hrun, rfl⟩ := compile_statements_eq_ok.1 h
  refine ⟨pos, S, a, hend, hS, fun S' => hS.unique fun _ => s.wellShaped_of_mem_lex, hrun, ?_⟩
  intro V M hM o σ hexec
  obtain ⟨code, waiting, hasm⟩ := Stmt.emitted hS.structured hrun
  have hcode : M.program.lines.toList = [] ++ (code 0 ++ []) := by
    rw [hM, List.append_nil]
    exact hasm.code_eq
  have hlinks : M.Links (fun _ => none) (fun _ => none) [] := nofun
  have hland := hexec.executes hlinks [] [] (hasm.compiled 0) .initial (Machine.placed_of_eq hcode)
  have hinner : σ.inner = none := Option.map_eq_none_iff.1 (hexec.extends.inner_eq_none rfl)
  cases o with
  | normal =>
    obtain ⟨hcomputes, hfits⟩ := hland
    have hsize : Assembly.empty.code.length + (code 0).length = a.program.size := by
      rw [← List.length_append, ← hasm.code_eq]
      rfl
    rw [hsize] at hcomputes
    exact .inl ⟨rfl, hcomputes.arrives hinner, fun x y hx => Env.getElem?_of_slotOf (hfits.slotOf_global hx)⟩
  | broke => exact nomatch hland.1
  | continued =>
    obtain ⟨_, hloop, -⟩ := hland
    exact nomatch hloop
  | returned r =>
    obtain ⟨-, pc, hret, hcomputes⟩ := hland
    rw [List.append_nil] at hcomputes
    exact .inr ⟨r, pc, rfl, hret, hcomputes.arrives hinner⟩

/-- A loop that is left by a jump, with a variable of its body. -/
def Sample.countdownLoop : Source :=
  .ofString "let i: int = 3;\nwhile i \x7b let j: int = i - 1; if j < 1 \x7b break; \x7d i = j; \x7d\nreturn i * -2;"

/-- The machine counts down to zero. -/
theorem statements_preserved_countdown : ∃ p, compile .statements Sample.countdownLoop = .ok p ∧
    ∀ M : Machine Int, M.program = p → M.toArithmetic = .integers →
      ∃ pc, M.fetch pc = some ⟨.ret, none⟩ ∧ M.Arrives ⟨none, [("i", some 1)]⟩ pc [-2] := by
  have hok : (compile .statements Sample.countdownLoop).isOk := by
    rw [Sample.countdownLoop, Source.ofString_ofList]
    decide +kernel
  obtain ⟨p, hp⟩ := Assembling.exists_eq_ok hok
  refine ⟨p, hp, fun M hM hA => ?_⟩
  obtain ⟨pos, S, a, hend, hS, -, -, hruns⟩ := statements_preserved hp
  have hexec : Exec M.toArithmetic (fun _ => none) .empty S (.returned (some (-2))) ⟨none, [("i", some 1)]⟩ := by
    obtain rfl : (Stmt.parseAll (.ofSource Sample.countdownLoop)).1 = S := by
      rw [TokenStream.ofSource_eq.2 ⟨hend, rfl⟩, hS.parseAll_eq pos fun _ => Sample.countdownLoop.wellShaped_of_mem_lex]
    rw [hA, Sample.countdownLoop, Source.ofString_ofList]
    exact .of_exec? (show exec? _ _ 30 _ _ = _ by decide +kernel)
  rcases hruns Int M hM _ _ hexec with ⟨⟨⟩, -⟩ | ⟨_, pc, ⟨⟩, hret, harrives⟩
  exact ⟨pc, hret, harrives⟩

/-! ## Programs -/

/-- A compiled program does on the machine what its functions say. The functions start at different addresses, so that a machine can
know from the address how many arguments a call takes. From address zero such a machine comes to the last instruction, a `RET`, with
the result of `main` on the stack, and the variables outside functions have their values in the slots of the table. -/
theorem program_preserved {s : Source} {p : Program} (h : compile .program s = .ok p) :
    ∃ pos u a, s.lex.ending = .ok pos ∧ Grammar.ProgramText s.lex.tokens pos u ∧
      (∀ u', Grammar.ProgramText s.lex.tokens pos u' → u' = u) ∧ u.emit.run .empty = .ok ((), a) ∧
      (∀ x d, u.procedure? x = some d →
        ∃ f, a.symbols.find? x = some (.function f) ∧ f.params.length = d.params.length) ∧
      (∀ x y f g, a.symbols.find? x = some (.function f) → a.symbols.find? y = some (.function g) → f.entry = g.entry → x = y) ∧
      ∀ (V : Type) (M : Machine V), M.program = p →
        (∀ x f, a.symbols.find? x = some (.function f) → M.arity f.entry = f.params.length) →
        ∀ (env : Env V) (r : Option V), u.Runs M.toArithmetic env r →
          M.fetch (p.size - 1) = some ⟨.ret, none⟩ ∧ M.Arrives ⟨none, env⟩ (p.size - 1) r.toList ∧
          ∀ x y, a.symbols.find? x = some (.storage y) → ∃ value, env.reverse[y.slot]? = some (x, value) := by
  obtain ⟨pos, u, a, hend, hu, hrun, rfl⟩ := compile_program_eq_ok.1 h
  have hshaped : Grammar.Shaped s.lex.tokens := fun _ => s.wellShaped_of_mem_lex
  obtain ⟨globals, jump, functions, call, last, t, hcompiled, hcode⟩ :=
    CompilationUnit.emitted hu.structured.1 hu.structured.2 hrun
  refine ⟨pos, u, a, hend, hu, fun u' => hu.unique hshaped, hrun, ?_, ?_, ?_⟩
  · exact fun x d => hcompiled.functions_compiled.exists_find?_of_lookup hcompiled.nested_eq_nil
  · exact fun x y f g => hcompiled.entry_injective
  · intro V M hM harity env r hr
    rw [← List.append_assoc] at hcode
    have hsize : a.program.size - 1 = (globals ++ (jump ++ functions) ++ call).length := by
      change a.code.length - 1 = _
      rw [hcode, List.length_append, List.length_singleton, Nat.add_sub_cancel]
    have hlines : M.program.lines.toList =
        [] ++ (globals ++ (jump ++ functions) ++ call ++ [⟨⟨.ret, none⟩, last⟩] ++ []) := by
      rw [hM, List.append_nil]
      exact hcode
    obtain ⟨hfront, hret, -⟩ := Machine.placed_append.1 (Machine.placed_of_eq hlines)
    rw [List.length_nil, Nat.zero_add] at hret
    obtain ⟨htop, mem, hmem, hsteps⟩ := hcompiled.runs hfront harity hr
    rw [hsize]
    refine ⟨hret, ⟨⟨none, mem⟩, hsteps, rfl, Env.held_iff.1 hmem⟩, fun x y hx => ?_⟩
    exact Env.getElem?_of_slotOf (htop.storage x y hx).2.2

/-- A recursive function, which counts its calls in a variable that `main` hides. -/
def Sample.recursiveSum : Source :=
  .ofString ("let calls: int = 0;\nlet total: int;\n" ++
    "fn sum(n: int) -> int \x7b calls = calls + 1; if n < 1 \x7b return 0; \x7d return n + sum(n - 1); \x7d\n" ++
    "fn main() -> void \x7b let calls: int = 4; total = sum(calls); \x7d")

/-- The machine sums up by calls of one function. -/
theorem program_preserved_sumUp : ∃ p, compile .program Sample.recursiveSum = .ok p ∧
    ∀ M : Machine Int, M.program = p → M.toArithmetic = .integers → (M.arity = fun n => if n = 3 then 1 else 0) →
      M.fetch (p.size - 1) = some ⟨.ret, none⟩ ∧
        M.Arrives ⟨none, [("total", some 10), ("calls", some 5)]⟩ (p.size - 1) [] := by
  have hok : (compile .program Sample.recursiveSum).isOk := by
    rw [Sample.recursiveSum, ← String.ofList_append, ← String.ofList_append, Source.ofString_ofList]
    decide +kernel
  obtain ⟨p, hp⟩ := Assembling.exists_eq_ok hok
  refine ⟨p, hp, fun M hM hA harity => ?_⟩
  obtain ⟨pos, u, a, hend, hu, -, hrun, -, -, hruns⟩ := program_preserved hp
  obtain rfl : (CompilationUnit.parse (.ofSource Sample.recursiveSum)).1 = u := by
    rw [TokenStream.ofSource_eq.2 ⟨hend, rfl⟩, hu.parse_eq fun _ => Sample.recursiveSum.wellShaped_of_mem_lex]
  have hsymbols : ((CompilationUnit.parse (.ofSource Sample.recursiveSum)).1.emit.run .empty).toOption.map (fun r => r.2.symbols) =
      some ⟨[], ⟨[("main", .function ⟨.void, 21, []⟩), ("sum", .function ⟨.int, 3, [.int]⟩),
        ("total", .storage ⟨.int, false, 1, .outermost, true⟩), ("calls", .storage ⟨.int, false, 0, .outermost, true⟩)], 2⟩⟩ := by
    rw [Sample.recursiveSum, ← String.ofList_append, ← String.ofList_append, Source.ofString_ofList]
    decide +kernel
  rw [hrun] at hsymbols
  have htable : a.symbols = _ := Option.some.inj hsymbols
  have harities : ∀ x f, a.symbols.find? x = some (.function f) → M.arity f.entry = f.params.length := by
    intro x f hx
    rw [htable, SymbolTable.find?_of_nested_eq_nil rfl] at hx
    simp only [Frame.find?, List.lookup_cons, List.lookup_nil] at hx
    rw [harity]
    repeat' split at hx
    all_goals cases hx
    all_goals rfl
  have hr : (CompilationUnit.parse (.ofSource Sample.recursiveSum)).1.Runs M.toArithmetic
      [("total", some 10), ("calls", some 5)] none := by
    rw [hA, Sample.recursiveSum, ← String.ofList_append, ← String.ofList_append, Source.ofString_ofList]
    exact .of_run? (show CompilationUnit.run? _ _ 40 = _ by decide +kernel)
  obtain ⟨hret, harrives, -⟩ := hruns Int M hM harities _ _ hr
  exact ⟨hret, harrives⟩

end C0Stack
