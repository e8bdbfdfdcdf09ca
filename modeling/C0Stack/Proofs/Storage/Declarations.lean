import C0Stack.Proofs.Grammar.Listed
import C0Stack.Proofs.Storage.Evolution

/-!
# The declaration of a variable

A declaration is the first statement of a list, and its scope is that list (`Emission.StartsWith`). Every variable that an
expression finds in the table was there where the outermost list began, or was declared by a statement whose scope holds the
expression (`Emission.exists_declaredIn_of_accesses`).
-/

namespace C0Stack

open Assembling

/-- A single statement that is no declaration declares nothing for what follows it. -/
theorem Stmt.Compiled.written_of_single {ctx : Context} {exit : Nat} {t t' : SymbolTable} {base : Nat} {s : Stmt}
    {code : List CodeLine} (h : Compiled ctx exit t base s code t') (hs : s.Single)
    (hdecl : ∀ pos constant x target init, s ≠ .decl pos constant x target init) : t'.written = t.written := by
  cases h with
  | nil | seq => simp [Single] at hs
  | decl | init => exact absurd rfl (hdecl _ _ _ _ _)
  | empty | leave | again | ret => rfl
  | expr _ hw | retValue _ hw => exact hw
  | block h => exact h.written_leave
  | ifThen _ _ hw hw' => exact hw'.trans hw
  | ifElse _ _ hw hw' hw'' => exact hw''.trans (hw'.trans hw)
  | loop _ _ hw hw' => exact hw'.trans hw

namespace Emission

/-- The statement declares the name, and this is the variable. -/
inductive Declares : Emission → Ident → Variable → Prop
  | decl {ctx : Context} {pos : Position} {constant : Bool} {x target : Ident} {init : Option Expr} {ty : Ty} {v : Variable}
      {t : SymbolTable} {a a' : Assembly} :
      Ty.named? target.name = some ty → a.symbols.declare x.name constant ty x.pos = .ok (v, t) →
        Declares ⟨ctx, .decl pos constant x target init, a, a'⟩ x v

/-- The first emission is that of a list of statements, and the second one that of the first statement in the list. -/
inductive StartsWith : Emission → Emission → Prop
  | first {ctx : Context} {first rest : Stmt} {a a₁ a₂ : Assembly} :
      Runs ⟨ctx, first, a, a₁⟩ → Runs ⟨ctx, rest, a₁, a₂⟩ → StartsWith ⟨ctx, .seq first rest, a, a₂⟩ ⟨ctx, first, a, a₁⟩

variable {E₀ E E' D F : Emission}

/-- The first statement of a list is a part of it. -/
theorem StartsWith.has (h : E.StartsWith F) : E.Has F := by
  cases h with
  | first h₁ h₂ => exact .first h₁ h₂

/-- The first statement of a list starts where the list does. -/
theorem StartsWith.before_eq (h : E.StartsWith F) : F.before = E.before := by
  cases h
  rfl

/-- The address is that of an instruction of the statement. -/
def Holds (E : Emission) (n : Nat) : Prop := E.before.nextAddress ≤ n ∧ n < E.after.nextAddress

/-! ## Behind a declaration -/

section

variable {calls : Nat → Option Signature} {lines : List CodeLine}

/-- Up to what has been written, the table behind a declaration with a value is that in front of the value. -/
theorem written_of_init {ctx : Context} {pos : Position} {constant : Bool} {x target : Ident} {e : Expr} {ty : Ty} {v : Variable}
    {t : SymbolTable} {a a' : Assembly} (run : ((Stmt.decl pos constant x target (some e)).emit ctx).run a = .ok ((), a'))
    (hname : Ty.named? target.name = some ty) (hd : a.symbols.declare x.name constant ty x.pos = .ok (v, t)) :
    a'.symbols.written = t.written := by
  obtain ⟨ty', v', t', b, t₁, hname', -, hd', hval, ht₁, rfl⟩ := Stmt.run_emit_init.1 run
  obtain rfl := Option.some.inj (hname.symm.trans hname')
  obtain ⟨rfl, rfl⟩ := Prod.mk.inj (Except.ok.inj (hd.symm.trans hd'))
  exact (SymbolTable.written_markWritten ht₁).trans (Expr.emitted hval).written

/-- Behind its declaration a variable is declared. -/
theorem Declares.declared?_after {x : Ident} {v : Variable} (h : F.Declares x v) (hrun : F.Runs) :
    ∃ flag, F.after.symbols.declared? F.before.symbols.depth x.name = some (.storage { v with initialized := flag }) := by
  cases h with
  | @decl ctx pos constant _ target init ty _ t a a' hname hd =>
    have hnew : t.declared? a.symbols.depth x.name = some (.storage v) := by
      rw [SymbolTable.declared?_declare hd, if_pos ⟨rfl, rfl⟩]
    have run : ((Stmt.decl pos constant x target init).emit ctx).run a = .ok ((), a') := hrun
    cases init with
    | none =>
      obtain ⟨ty', v', t', hname', -, hd', rfl⟩ := Stmt.run_emit_decl.1 run
      obtain rfl := Option.some.inj (hname.symm.trans hname')
      obtain ⟨rfl, rfl⟩ := Prod.mk.inj (Except.ok.inj (hd.symm.trans hd'))
      exact ⟨v.initialized, hnew⟩
    | some e => exact SymbolTable.declared?_storage_of_written (written_of_init run hname hd) hnew

/-- So it is to the end of the list of statements that starts with the declaration. -/
theorem StartsWith.declared?_after (hfirst : E.StartsWith F) (h : E.Stands calls lines) {x : Ident} {v : Variable}
    (hF : F.Declares x v) :
    ∃ flag, E.after.symbols.declared? E.before.symbols.depth x.name = some (.storage { v with initialized := flag }) := by
  cases hfirst with
  | first h₁ h₂ =>
    obtain ⟨flag, hx⟩ := hF.declared?_after h₁
    exact (evolves_of_stands (h.of_has (.rest h₁ h₂))).keeps x.name { v with initialized := flag } hx

end

/-! ## Where a declaration stands -/

/-- How a statement stands in a list that holds it: it is the rest of a list, the first statement of one, or a branch or the body
of a loop. -/
inductive Place (E₀ E : Emission) : Prop
  | list : E.stmt.Listed → Place E₀ E
  | first (P : Emission) : E.stmt.Single → E₀.Covers P → P.StartsWith E → Place E₀ E
  | branch : E.stmt.Single → E.stmt.Scoped → Place E₀ E

/-- What is no list is a single statement. -/
theorem Place.single (h : Place E₀ E) (hl : ¬ E.stmt.Listed) : E.stmt.Single := by
  cases h with
  | list h => exact absurd h hl
  | first P h => exact h
  | branch h => exact h

/-- What is no single statement is a list. -/
theorem Place.listed (h : Place E₀ E) (hs : ¬ E.stmt.Single) : E.stmt.Listed := by
  by_contra hl
  exact hs (h.single hl)

/-- Every statement in a list stands in one of these ways. -/
theorem place_of_covers (h : E₀.Covers E) (hl : E₀.stmt.Listed) (hs : E₀.stmt.Structured) : Place E₀ E ∧ E.stmt.Structured := by
  induction h with
  | refl => exact ⟨.list hl, hs⟩
  | @tail P E hcovers hlast ih =>
    obtain ⟨hplace, hs⟩ := ih
    refine ⟨?_, hlast.structured hs⟩
    cases hlast with
    | first h₁ h₂ =>
      have hlisted := hplace.listed (by simp [Stmt.Single])
      rw [Stmt.Listed] at hlisted
      exact .first _ hlisted.1 hcovers (.first h₁ h₂)
    | rest =>
      have hlisted := hplace.listed (by simp [Stmt.Single])
      rw [Stmt.Listed] at hlisted
      exact .list hlisted.2
    | block =>
      have hsingle := hplace.single (by simp [Stmt.Listed])
      rw [Stmt.Single] at hsingle
      exact .list hsingle
    | ifThen =>
      have hsingle := hplace.single (by simp [Stmt.Listed])
      rw [Stmt.Single] at hsingle
      exact .branch hsingle hs.1
    | ifElse =>
      have hsingle := hplace.single (by simp [Stmt.Listed])
      rw [Stmt.Single] at hsingle
      exact .branch hsingle.1 hs.1
    | alternative =>
      have hsingle := hplace.single (by simp [Stmt.Listed])
      rw [Stmt.Single] at hsingle
      exact .branch hsingle.2 hs.2.1
    | loop =>
      have hsingle := hplace.single (by simp [Stmt.Listed])
      rw [Stmt.Single] at hsingle
      exact .branch hsingle hs.1

/-- A declaration is the first statement of a list. -/
theorem Place.exists_startsWith (h : Place E₀ F) {x : Ident} {v : Variable} (hF : F.Declares x v) :
    F.stmt.Single ∧ ∃ E, E₀.Covers E ∧ E.StartsWith F := by
  cases hF with
  | decl =>
    cases h with
    | list h => simp [Stmt.Listed] at h
    | first P hsingle hcovers hfirst => exact ⟨hsingle, P, hcovers, hfirst⟩
    | branch _ hscoped => exact hscoped.elim

/-! ## Where a variable comes from -/

/-- The list `D`, which is a part of `E₀`, starts with a declaration of the name in the scope at the depth, and the statement is in
this list. -/
def DeclaredIn (E₀ D E : Emission) (d : Nat) (x : String) : Prop :=
  E₀.Covers D ∧ D.Covers E ∧ D.before.symbols.depth = d ∧ ∃ F y v, D.StartsWith F ∧ F.Declares y v ∧ y.name = x

/-- A part of a statement in the scope of a declaration is in that scope. -/
theorem DeclaredIn.has {d : Nat} {x : String} (h : DeclaredIn E₀ D E d x) (hE : E.Has E') : DeclaredIn E₀ D E' d x :=
  ⟨h.1, h.2.1.tail hE, h.2.2⟩

/-- What a single statement leaves declared was declared before, or is what it declares itself. -/
theorem declared?_of_single (hrun : E.Runs) (hsingle : E.stmt.Single) (hs : E.stmt.Structured) {d : Nat} {x : String} {v : Variable}
    (hx : E.after.symbols.declared? d x = some (.storage v)) :
    (∃ w, E.before.symbols.declared? d x = some (.storage w)) ∨
      E.before.symbols.depth = d ∧ ∃ y w, E.Declares y w ∧ y.name = x := by
  obtain ⟨ctx, s, a, a'⟩ := E
  replace hx : a'.symbols.declared? d x = some (.storage v) := hx
  -- a declaration, up to what has been written since
  have hnew : ∀ {pos : Position} {constant : Bool} {y target : Ident} {init : Option Expr} {ty : Ty} {w : Variable}
    {t : SymbolTable},
      Ty.named? target.name = some ty → a.symbols.declare y.name constant ty y.pos = .ok (w, t) → a'.symbols.written = t.written →
      (∃ w, a.symbols.declared? d x = some (.storage w)) ∨
        a.symbols.depth = d ∧ ∃ z w, Declares ⟨ctx, .decl pos constant y target init, a, a'⟩ z w ∧ z.name = x := by
    intro pos constant y target init ty w t hname hd hw
    obtain ⟨flag, hx⟩ := SymbolTable.declared?_storage_of_written hw.symm hx
    rw [SymbolTable.declared?_declare hd] at hx
    split at hx
    · rename_i hdepth
      exact .inr ⟨hdepth.1.symm, y, w, .decl hname hd, hdepth.2.symm⟩
    · exact .inl ⟨_, hx⟩
  by_cases hdecl : ∃ pos constant y target init, s = .decl pos constant y target init
  · obtain ⟨pos, constant, y, target, init, rfl⟩ := hdecl
    cases init with
    | none =>
      obtain ⟨ty, w, t, hname, -, hd, hafter : a' = _⟩ := Stmt.run_emit_decl.1 hrun
      exact hnew hname hd (by rw [hafter])
    | some e =>
      obtain ⟨ty, w, t, a₁, t₁, hname, -, hd, he, ht₁, hafter : a' = _⟩ := Stmt.run_emit_init.1 hrun
      refine hnew hname hd ?_
      rw [hafter]
      exact (SymbolTable.written_markWritten ht₁).trans (Expr.emitted he).written
  · obtain ⟨code, waiting, hasm⟩ := Stmt.emitted hs hrun
    have hw : a'.symbols.written = a.symbols.written :=
      (hasm.compiled 0).written_of_single hsingle fun pos constant y target init h => hdecl ⟨pos, constant, y, target, init, h⟩
    obtain ⟨flag, hx⟩ := SymbolTable.declared?_storage_of_written hw.symm hx
    exact .inl ⟨_, hx⟩

/-- Every variable that is declared in front of a statement was there where the outermost list begins, or was declared by a
statement in the scope of which the statement is. -/
theorem exists_declaredIn (h : E₀.Covers E) (hl : E₀.stmt.Listed) (hs : E₀.stmt.Structured) {d : Nat} {x : String} {v : Variable}
    (hx : E.before.symbols.declared? d x = some (.storage v)) :
    (∃ w, E₀.before.symbols.declared? d x = some (.storage w)) ∨ ∃ D, DeclaredIn E₀ D E d x := by
  induction h generalizing v with
  | refl => exact .inl ⟨v, hx⟩
  | @tail P E hcovers hlast ih =>
    obtain ⟨hplace, hstructured⟩ := place_of_covers hcovers hl hs
    -- it is enough to find the variable in front of the statement around
    have houter : (∃ w, P.before.symbols.declared? d x = some (.storage w)) →
        (∃ w, E₀.before.symbols.declared? d x = some (.storage w)) ∨ ∃ D, DeclaredIn E₀ D E d x := by
      rintro ⟨w, hw⟩
      rcases ih hw with hfirst | ⟨D, hD⟩
      · exact .inl hfirst
      · exact .inr ⟨D, hD.has hlast⟩
    have hwritten : E.before.symbols.written = P.before.symbols.written →
        (∃ w, E₀.before.symbols.declared? d x = some (.storage w)) ∨ ∃ D, DeclaredIn E₀ D E d x := by
      intro hw
      obtain ⟨flag, hx⟩ := SymbolTable.declared?_storage_of_written hw.symm hx
      exact houter ⟨_, hx⟩
    cases hlast with
    | first => exact houter ⟨v, hx⟩
    | rest h₁ h₂ =>
      have hlisted := hplace.listed (by simp [Stmt.Single])
      rw [Stmt.Listed] at hlisted
      rcases declared?_of_single h₁ hlisted.1 hstructured.1 hx with hbefore | ⟨hdepth, y, w, hdeclares, hy⟩
      · exact houter hbefore
      · exact .inr ⟨_, hcovers, .single (.rest h₁ h₂), hdepth, _, y, w, .first h₁ h₂, hdeclares, hy⟩
    | block => exact houter ⟨v, (SymbolTable.declared?_enter _ _ d x).symm.trans hx⟩
    | ifThen hc | ifElse hc | loop hc => exact hwritten (Expr.emitted hc).written
    | alternative hc _ h₁ _ =>
      obtain ⟨code, waiting, hasm⟩ := Stmt.emitted hstructured.2.2.1 h₁
      have hbody := (hasm.compiled 0).written_of_scoped hstructured.1
      exact hwritten (hbody.trans (Expr.emitted hc).written)

end Emission

/-! ## Accesses -/

namespace Expr

mutual

/-- In front of an access the table differs only in what has been written from the one in front of the expression. -/
theorem Accesses.written_eq {ctx : Context} {e : Expr} {a b : Assembly} {k : Access} {x : Ident} :
    e.Accesses ctx a k x b → b.symbols.written = a.symbols.written
  | .var => rfl
  | .argument h => h.written_eq
  | .value h => h.written_eq
  | .assign he => (emitted he).written
  | .paren h => h.written_eq
  | .neg h => h.written_eq
  | .cast h => h.written_eq
  | .left h => h.written_eq
  | .right hl h => h.written_eq.trans (emitted hl).written

/-- The same in front of an access inside arguments. -/
theorem AccessesAny.written_eq {ctx : Context} {es : List Expr} {a b : Assembly} {k : Access} {x : Ident} :
    AccessesAny ctx es a k x b → b.symbols.written = a.symbols.written
  | .head h => h.written_eq
  | .tail he h => h.written_eq.trans (emitted he).written

end

end Expr

namespace Emission

variable {E₀ E : Emission}

/-- The same for the variables that are declared in front of an access. -/
theorem exists_declaredIn_of_accesses (h : E₀.Covers E) (hl : E₀.stmt.Listed) (hs : E₀.stmt.Structured) {k : Access} {y : Ident}
    {b : Assembly} (hE : E.Accesses k y b) {d : Nat} {x : String} {v : Variable}
    (hx : b.symbols.declared? d x = some (.storage v)) :
    (∃ w, E₀.before.symbols.declared? d x = some (.storage w)) ∨ ∃ D, DeclaredIn E₀ D E d x := by
  obtain ⟨e, a, heval, haccess⟩ := hE
  obtain ⟨flag, hx⟩ := SymbolTable.declared?_storage_of_written haccess.written_eq.symm hx
  cases heval with
  | init hname hd =>
    rw [SymbolTable.declared?_declare hd] at hx
    split at hx
    · -- the value with which the variable itself is declared
      rename_i hnew
      obtain ⟨-, D, hcovers, hfirst⟩ := (place_of_covers h hl hs).1.exists_startsWith (.decl hname hd)
      refine .inr ⟨D, hcovers, .single hfirst.has, ?_, _, _, _, hfirst, .decl hname hd, hnew.2.symm⟩
      rw [← hfirst.before_eq, hnew.1]
    · exact exists_declaredIn h hl hs hx
  | _ => exact exists_declaredIn h hl hs hx

end Emission

end C0Stack
