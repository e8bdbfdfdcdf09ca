import C0Stack.Stmt.Code

/-!
# What a step of the assembly gives back

For each step of `Assembling`, when it succeeds and what it leaves. A composite step is taken apart with `run_bind_eq_ok`, so that
no later proof unfolds the monad.
-/

namespace C0Stack

namespace Assembly

/-- The code so far, as a list. -/
def code (a : Assembly) : List CodeLine := a.program.lines.toList

@[simp] theorem code_empty : empty.code = [] := rfl

/-- The next address is the number of lines. -/
theorem nextAddress_eq (a : Assembly) : a.nextAddress = a.code.length := rfl

@[simp] theorem code_push (a : Assembly) (op : Operation) (operand : Option Nat) (pos : Position) :
    (a.push op operand pos).code = a.code ++ [⟨⟨op, operand⟩, pos⟩] := by
  simp [code, push, Program.push]

@[simp] theorem symbols_push (a : Assembly) (op : Operation) (operand : Option Nat) (pos : Position) :
    (a.push op operand pos).symbols = a.symbols := rfl

@[simp] theorem breaks_push (a : Assembly) (op : Operation) (operand : Option Nat) (pos : Position) :
    (a.push op operand pos).breaks = a.breaks := rfl

end Assembly

namespace Assembling

/-- A value that a result can be taken for is the one it succeeds with. -/
theorem eq_ok_of_toOption {ε α : Type} {x : Except ε α} {y : α} (h : x.toOption = some y) : x = .ok y := by
  cases x with
  | ok z => exact congrArg Except.ok (Option.some.inj h)
  | error e => cases h

/-- The fault, if there is one. -/
def fault? {ε α : Type} : Except ε α → Option ε
  | .ok _ => none
  | .error e => some e

/-- A fault that a result has is the one it fails with. -/
theorem eq_error_of_fault? {ε α : Type} {x : Except ε α} {e : ε} (h : fault? x = some e) : x = .error e := by
  cases x with
  | ok z => cases h
  | error e' => exact congrArg Except.error (Option.some.inj h)

/-- A result that is no fault is a value. -/
theorem exists_eq_ok {ε α : Type} {x : Except ε α} (h : x.isOk = true) : ∃ y, x = .ok y := by
  cases x with
  | ok y => exact ⟨y, rfl⟩
  | error e => cases h

/-- A step followed by another succeeds exactly if both do, the second on what the first leaves. -/
theorem run_bind_eq_ok {α β : Type} {m : Assembling α} {f : α → Assembling β} {a : Assembly} {r : β × Assembly} :
    (m >>= f).run a = .ok r ↔ ∃ b a', m.run a = .ok (b, a') ∧ (f b).run a' = .ok r := by
  rw [StateT.run_bind]
  cases h : m.run a with
  | error e => simp [bind, Except.bind]
  | ok p =>
    obtain ⟨b, a'⟩ := p
    constructor
    · intro hf
      exact ⟨b, a', rfl, hf⟩
    · rintro ⟨_, _, h', hf⟩
      cases h'
      exact hf

/-- A step that fails fails with whatever comes behind it. -/
theorem run_bind_of_error {α β : Type} {m : Assembling α} {f : α → Assembling β} {a : Assembly} {d : Diagnostic}
    (h : m.run a = .error d) : (m >>= f).run a = .error d := by
  rw [StateT.run_bind, h]
  rfl

/-- A step that succeeds is followed by the next one on what it leaves. -/
theorem run_bind_of_ok {α β : Type} {m : Assembling α} {f : α → Assembling β} {a a' : Assembly} {b : α} (h : m.run a = .ok (b, a')) :
    (m >>= f).run a = (f b).run a' := by
  rw [StateT.run_bind, h]
  rfl

/-- A step that only gives a value succeeds with that and changes nothing. -/
theorem run_pure_eq_ok {α : Type} {x y : α} {a a' : Assembly} :
    (pure x : Assembling α).run a = .ok (y, a') ↔ y = x ∧ a' = a :=
  ⟨fun h => by cases h; exact ⟨rfl, rfl⟩, fun h => by obtain ⟨rfl, rfl⟩ := h; rfl⟩

theorem run_throw_eq_ok {α : Type} {error : Diagnostic} {a : Assembly} {r : α × Assembly} :
    (throw error : Assembling α).run a = .ok r ↔ False :=
  ⟨(nomatch ·), False.elim⟩

theorem run_fail_eq_ok {α : Type} {cause : Cause} {pos : Position} {a : Assembly} {r : α × Assembly} :
    (fail cause pos : Assembling α).run a = .ok r ↔ False := run_throw_eq_ok

/-! ## Code -/

/-- Emitting an instruction always succeeds, and leaves it at the end of the code. -/
theorem run_emit_eq_ok {op : Operation} {operand : Option Nat} {pos : Position} {a a' : Assembly} {u : Unit} :
    (emit op operand pos).run a = .ok (u, a') ↔ a' = a.push op operand pos :=
  ⟨fun h => by cases h; rfl, fun h => by subst h; rfl⟩

/-- The next address is read without a change. -/
theorem run_nextAddress_eq_ok {a a' : Assembly} {n : Nat} :
    nextAddress.run a = .ok (n, a') ↔ n = a.nextAddress ∧ a' = a :=
  ⟨fun h => by cases h; exact ⟨rfl, rfl⟩, fun h => by obtain ⟨rfl, rfl⟩ := h; rfl⟩

/-- A jump is emitted without its target, and its address is given. -/
theorem run_emitJump_eq_ok {op : Operation} {pos : Position} {a a' : Assembly} {n : Nat} :
    (emitJump op pos).run a = .ok (n, a') ↔ n = a.nextAddress ∧ a' = a.push op (some 0) pos :=
  ⟨fun h => by cases h; exact ⟨rfl, rfl⟩, fun h => by obtain ⟨rfl, rfl⟩ := h; rfl⟩

/-- A jump can always be given its target. -/
theorem run_patch_eq_ok {address : Nat} {a a' : Assembly} {u : Unit} :
    (patch address).run a = .ok (u, a') ↔ a' = a.patch address :=
  ⟨fun h => by cases h; rfl, fun h => by subst h; rfl⟩

/-- Patching several jumps patches one after the other. -/
theorem run_forM_patch_eq_ok {addresses : List Nat} {a a' : Assembly} {u : Unit} :
    (addresses.forM patch : Assembling Unit).run a = .ok (u, a') ↔ a' = addresses.foldl Assembly.patch a := by
  induction addresses generalizing a with
  | nil => exact ⟨fun h => by cases h; rfl, fun h => by subst h; rfl⟩
  | cons n ns ih => exact ih

/-- The jumps that wait are exchanged for others. -/
theorem run_swapBreaks_eq_ok {breaks before : List Nat} {a a' : Assembly} :
    (swapBreaks breaks).run a = .ok (before, a') ↔ before = a.breaks ∧ a' = { a with breaks } :=
  ⟨fun h => by cases h; exact ⟨rfl, rfl⟩, fun h => by obtain ⟨rfl, rfl⟩ := h; rfl⟩

theorem run_modify_eq_ok {f : Assembly → Assembly} {a a' : Assembly} {u : PUnit} :
    (modify f : Assembling PUnit).run a = .ok (u, a') ↔ a' = f a :=
  ⟨fun h => by cases h; rfl, fun h => by subst h; rfl⟩

/-! ## Names -/

theorem run_get_bind {α : Type} {f : Assembly → Assembling α} {a : Assembly} :
    ((get : Assembling Assembly) >>= f).run a = (f a).run a := rfl

/-- A change of the names in scope leaves the rest. -/
theorem run_modifySymbols_eq_ok {f : SymbolTable → SymbolTable} {a a' : Assembly} {u : Unit} :
    (modifySymbols f).run a = .ok (u, a') ↔ a' = { a with symbols := f a.symbols } :=
  ⟨fun h => by cases h; rfl, fun h => by subst h; rfl⟩

/-- A name is found exactly if the table holds it, and looking it up changes nothing. -/
theorem run_lookup_eq_ok {name : Ident} {b : Binding} {a a' : Assembly} :
    (lookup name).run a = .ok (b, a') ↔ a.symbols.find? name.name = some b ∧ a' = a := by
  rw [lookup, run_get_bind, SymbolTable.lookup]
  cases a.symbols.find? name.name with
  | none => simp only [run_throw_eq_ok, reduceCtorEq, false_and]
  | some c => simp only [run_pure_eq_ok, Option.some.injEq, @eq_comm _ b c]

/-- A name is declared exactly if the table takes it. -/
theorem run_declare_eq_ok {name : Ident} {constant : Bool} {ty : Ty} {v : Variable} {a a' : Assembly} :
    (declare name constant ty).run a = .ok (v, a') ↔
      ∃ t, a.symbols.declare name.name constant ty name.pos = .ok (v, t) ∧ a' = { a with symbols := t } := by
  rw [declare, run_get_bind]
  cases a.symbols.declare name.name constant ty name.pos with
  | error e => simp only [run_throw_eq_ok, reduceCtorEq, false_and, exists_false]
  | ok p =>
    obtain ⟨w, t⟩ := p
    simp only [run_bind_eq_ok, run_modifySymbols_eq_ok, run_pure_eq_ok, Except.ok.injEq, Prod.mk.injEq]
    constructor
    · rintro ⟨_, _, rfl, rfl, rfl⟩
      exact ⟨t, ⟨rfl, rfl⟩, rfl⟩
    · rintro ⟨_, ⟨rfl, rfl⟩, rfl⟩
      exact ⟨(), _, rfl, rfl, rfl⟩

/-- So is a function. -/
theorem run_declareFunction_eq_ok {name : Ident} {f : Signature} {a a' : Assembly} {u : Unit} :
    (declareFunction name f).run a = .ok (u, a') ↔
      ∃ t, a.symbols.declareFunction name.name f name.pos = .ok t ∧ a' = { a with symbols := t } := by
  rw [declareFunction, run_get_bind]
  cases a.symbols.declareFunction name.name f name.pos with
  | error e => simp only [run_throw_eq_ok, reduceCtorEq, false_and, exists_false]
  | ok t => simp [run_modifySymbols_eq_ok]

/-- A write is noted exactly if the table can note it. -/
theorem run_markWritten_eq_ok {name : Ident} {a a' : Assembly} {u : Unit} :
    (markWritten name).run a = .ok (u, a') ↔
      ∃ t, a.symbols.markWritten name.name name.pos = .ok t ∧ a' = { a with symbols := t } := by
  rw [markWritten, run_get_bind]
  cases a.symbols.markWritten name.name name.pos with
  | error e => simp only [run_throw_eq_ok, reduceCtorEq, false_and, exists_false]
  | ok t => simp [run_modifySymbols_eq_ok]

/-! ## Types -/

/-- A type name stands for the type of that name; where `void` is not allowed, for another type. -/
theorem run_resolveType_eq_ok {allowVoid : Bool} {name : Ident} {ty : Ty} {a a' : Assembly} :
    (resolveType allowVoid name).run a = .ok (ty, a') ↔
      Ty.named? name.name = some ty ∧ (allowVoid = false → ty ≠ .void) ∧ a' = a := by
  unfold resolveType
  cases Ty.named? name.name with
  | none => simp [run_fail_eq_ok]
  | some found =>
    cases found with
    | void =>
      cases allowVoid with
      | false => simp +contextual [run_fail_eq_ok, @eq_comm _ Ty.void]
      | true => simp only [if_true, run_pure_eq_ok, Option.some.injEq, @eq_comm _ Ty.void, Bool.true_eq_false, false_implies,
          true_and]
    | int | double | char =>
      simp only [run_pure_eq_ok, Option.some.injEq]
      constructor
      · rintro ⟨rfl, rfl⟩
        exact ⟨rfl, by simp, rfl⟩
      · rintro ⟨rfl, -, rfl⟩
        exact ⟨rfl, rfl⟩

/-- A check of types succeeds exactly if they agree, and changes nothing. -/
theorem run_requireType_eq_ok {expected found : Ty} {pos : Position} {a a' : Assembly} {u : Unit} :
    (requireType expected found pos).run a = .ok (u, a') ↔ found = expected ∧ a' = a := by
  unfold requireType
  split
  · rename_i h
    simp only [run_pure_eq_ok, h, true_and]
  · rename_i h
    simp only [run_fail_eq_ok, h, false_and]

/-- A check for a value succeeds exactly if the type is not `void`, and changes nothing. -/
theorem run_requireValue_eq_ok {expected found : Ty} {pos : Position} {a a' : Assembly} {u : Unit} :
    (requireValue expected found pos).run a = .ok (u, a') ↔ found ≠ .void ∧ a' = a := by
  unfold requireValue
  split
  · rename_i h
    simp only [run_fail_eq_ok, h, ne_eq, not_true_eq_false, false_and]
  · rename_i h
    simp only [run_pure_eq_ok, h, ne_eq, not_false_eq_true, true_and]

end Assembling

end C0Stack
