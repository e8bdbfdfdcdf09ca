import C0Stack.Proofs.Layout

/-!
# Returns and the types of functions

A return is checked by the type of what it gives back, and an expression without a value has the type `void` that stands for nothing at
all. So a function that returns nothing may give back such an expression: an assignment, a call of a function that returns nothing, or
one of these in parentheses (`Expr.Valueless`). All other returns in a compiled program are as the type of their function says, and the
first return that is not is reported (`returns_match_signature`).
-/

namespace C0Stack

/-! ## Returns in a text -/

/-- What the returns in the statement give back, at any depth: an expression, or nothing. -/
def Stmt.returned : Stmt → List (Option Expr)
  | seq first rest => first.returned ++ rest.returned
  | block body | ifThen _ _ body | loop _ _ body => body.returned
  | ifElse _ _ body _ other => body.returned ++ other.returned
  | ret _ _ => [none]
  | retValue _ e => [some e]
  | nil | empty | decl .. | expr _ | leave _ | again _ | fault _ => []

/-- What the returns in the body of the function give back. -/
def Function.returned : Function → List (Option Expr)
  | defn _ _ _ _ body _ => body.returned
  | fault _ _ _ => []

/-- The form of an expression without a value, where the functions are the given ones. -/
inductive Expr.Valueless (fs : List Function) : Expr → Prop
  | assign {x : Ident} {e : Expr} : Valueless fs (.assign x e)
  | call {f : Ident} {args : List Expr} {d : Function} : d ∈ fs → d.name? = some f.name → d.returns? = some .void →
      Valueless fs (.call f args)
  | paren {pos : Position} {e : Expr} : Valueless fs e → Valueless fs (.paren pos e)

/-! ## The names in scope -/

/-- What the name may stand for: a variable that has a type with values, or a function of that name and return type. -/
def Entity.Suits (fs : List Function) (x : String) : Entity → Prop
  | var ty _ _ => ty ≠ .void
  | function _ ty => ∃ d ∈ fs, d.name? = some x ∧ d.returns? = some ty

def Names.Suit (fs : List Function) (names : Names) : Prop := ∀ x e, names x = some e → e.Suits fs x

def Scopes.Suit (fs : List Function) (Γ : Scopes) : Prop := ∀ names ∈ Γ, Names.Suit fs names

section

variable {fs : List Function}

theorem Names.suit_empty : Names.Suit fs fun _ => none := nofun

/-- A declaration that suits keeps the names so. -/
theorem Names.Suit.update {names : Names} (h : Names.Suit fs names) {x : String} {e : Entity} (he : e.Suits fs x) :
    Names.Suit fs (Function.update names x (some e)) := by
  intro y e' hy
  by_cases hyx : y = x
  · subst hyx
    rw [Function.update_self] at hy
    exact Option.some.inj hy ▸ he
  · rw [Function.update_of_ne hyx] at hy
    exact h y e' hy

theorem Entity.Suits.assign {x : String} {e : Entity} (h : e.Suits fs x) : e.assign.Suits fs x := by
  cases e with
  | var => exact h
  | function => exact h

theorem Scopes.suit_cons {names : Names} {Γ : Scopes} : Scopes.Suit fs (names :: Γ) ↔ Names.Suit fs names ∧ Γ.Suit fs :=
  List.forall_mem_cons

/-- An assignment keeps the scopes so. -/
theorem Scopes.Suit.assign {Γ : Scopes} (h : Γ.Suit fs) (x : String) : (Γ.assign x).Suit fs := by
  induction Γ with
  | nil => exact h
  | cons names outer ih =>
    obtain ⟨hnames, houter⟩ := Scopes.suit_cons.1 h
    unfold Scopes.assign
    split
    case h_1 e hx => exact Scopes.suit_cons.2 ⟨hnames.update (hnames x e hx).assign, houter⟩
    case h_2 => exact Scopes.suit_cons.2 ⟨hnames, ih houter⟩

theorem Scopes.Suit.find? {Γ : Scopes} (h : Γ.Suit fs) {x : String} {e : Entity} (hx : Γ.find? x = some e) : e.Suits fs x := by
  obtain ⟨names, hmem, hnames⟩ := List.exists_of_findSome?_eq_some hx
  exact h names hmem x e hnames

mutual

/-- An expression keeps the scopes so. -/
theorem HasType.suit {Γ Γ' : Scopes} {e : Expr} {ty : Ty} (h : HasType Γ e ty Γ') (hΓ : Γ.Suit fs) : Γ'.Suit fs := by
  cases h with
  | int | var => exact hΓ
  | call _ h => exact h.suit hΓ
  | assign _ h => exact (h.suit hΓ).assign _
  | paren h => exact h.suit hΓ
  | neg h => exact h.suit hΓ
  | cast h => exact h.suit hΓ
  | binary hl hr => exact hr.suit (hl.suit hΓ)

/-- So do the arguments of a call. -/
theorem HaveTypes.suit {Γ Γ' : Scopes} {es : List Expr} {tys : List Ty} (h : HaveTypes Γ es tys Γ') (hΓ : Γ.Suit fs) :
    Γ'.Suit fs := by
  cases h with
  | nil => exact hΓ
  | cons h hs => exact hs.suit (h.suit hΓ)

end

/-- What an operator gives has a value. -/
theorem BinaryOp.resultType_ne_void {op : BinaryOp} {ty : Ty} (h : ty ≠ .void) : op.resultType ty ≠ .void := by
  unfold resultType
  split
  case isTrue => exact nofun
  case isFalse => exact h

/-- An expression of the type that stands for no value has the form of one without a value. -/
theorem HasType.valueless {Γ Γ' : Scopes} {e : Expr} {ty : Ty} (h : HasType Γ e ty Γ') (hty : ty = .void) (hΓ : Γ.Suit fs) :
    e.Valueless fs := by
  -- Only parentheses lead into the expression.
  induction hsize : sizeOf e using Nat.strongRecOn generalizing e with
  | ind n ih =>
    cases h with
    | int => cases hty
    | var hx => exact absurd hty (hΓ.find? hx)
    | call hf =>
      obtain ⟨d, hd, hname, hreturns⟩ := hΓ.find? hf
      exact .call hd hname (hty ▸ hreturns)
    | assign => exact .assign
    | @paren _ _ pos e _ h =>
      have hlt : sizeOf e < n := by
        rw [← hsize, Expr.paren.sizeOf_spec]
        omega
      exact .paren (ih _ hlt h rfl)
    | neg _ hne => exact absurd hty hne
    | cast _ _ _ hne => exact absurd hty hne
    | binary _ _ hne => exact absurd hty (BinaryOp.resultType_ne_void hne)

/-! ## Returns that keep the static rules -/

/-- The return gives back nothing if the type says so, and an expression that may have a value otherwise. -/
def Fits (fs : List Function) (ty : Ty) : Option Expr → Prop
  | none => ty = .void
  | some e => ty = .void → e.Valueless fs

/-- A statement keeps the scopes so. -/
theorem Stmt.Valid.suit {returns : Option Ty} {inLoop : Bool} {Γ Γ' : Scopes} {s : Stmt} (h : s.Valid returns inLoop Γ Γ')
    (hΓ : Γ.Suit fs) : Γ'.Suit fs := by
  induction h with
  | nil | empty | leave | again | ret => exact hΓ
  | seq _ _ ih ih' => exact ih' (ih hΓ)
  | decl _ _ hty =>
    obtain ⟨hnames, houter⟩ := Scopes.suit_cons.1 hΓ
    exact Scopes.suit_cons.2 ⟨hnames.update hty, houter⟩
  | init _ _ hty h =>
    obtain ⟨hnames, houter⟩ := Scopes.suit_cons.1 hΓ
    exact (h.suit (Scopes.suit_cons.2 ⟨hnames.update hty, houter⟩)).assign _
  | expr h => exact h.suit hΓ
  | block _ ih => exact (Scopes.suit_cons.1 (ih (Scopes.suit_cons.2 ⟨Names.suit_empty, hΓ⟩))).2
  | ifThen hc _ _ ih => exact ih (hc.suit hΓ)
  | ifElse hc _ _ _ ih ih' => exact ih' (ih (hc.suit hΓ))
  | loop hc _ _ ih => exact ih (hc.suit hΓ)
  | retValue h => exact h.suit hΓ

/-- The returns of a statement that keeps the static rules are as the type says. -/
theorem Stmt.Valid.fits {ty : Ty} {inLoop : Bool} {Γ Γ' : Scopes} {s : Stmt} (h : s.Valid (some ty) inLoop Γ Γ') (hΓ : Γ.Suit fs) :
    ∀ r ∈ s.returned, Fits fs ty r := by
  induction h with
  | nil | empty | decl | init | expr | leave | again => exact List.forall_mem_nil _
  | seq h _ ih ih' => exact List.forall_mem_append.2 ⟨ih hΓ, ih' (h.suit hΓ)⟩
  | block _ ih => exact ih (Scopes.suit_cons.2 ⟨Names.suit_empty, hΓ⟩)
  | ifThen hc _ _ ih => exact ih (hc.suit hΓ)
  | ifElse hc _ h _ ih ih' => exact List.forall_mem_append.2 ⟨ih (hc.suit hΓ), ih' (h.suit (hc.suit hΓ))⟩
  | loop hc _ _ ih => exact ih (hc.suit hΓ)
  | ret hty => exact List.forall_mem_singleton.2 (hty ty rfl)
  | retValue h hty =>
    refine List.forall_mem_singleton.2 fun hvoid => ?_
    exact h.valueless ((hty ty rfl).trans hvoid) hΓ

/-- Parameters suit, as they have types with values. -/
theorem Param.Declare.suit {names names' : Names} {params : List Param} {types : List Ty} (h : Declare names params types names')
    (hnames : Names.Suit fs names) : Names.Suit fs names' := by
  induction h with
  | nil => exact hnames
  | cons _ hty _ _ ih => exact ih (hnames.update hty)

/-- The names in scope where the body of a function starts. -/
theorem Function.suit_body {outer locals : Names} {pos close : Position} {name target : Ident} {params : List Param}
    {types : List Ty} {ty : Ty} {body : Stmt} (hmem : defn pos name params target body close ∈ fs) (houter : Names.Suit fs outer)
    (hparams : Param.Declare (fun _ => none) params types locals) (hty : Ty.named? target.name = some ty) :
    Scopes.Suit fs [locals, Function.update outer name.name (some (.function types ty))] := by
  have hself : (Entity.function types ty).Suits fs name.name := ⟨_, hmem, rfl, hty⟩
  exact Scopes.suit_cons.2 ⟨hparams.suit Names.suit_empty, Scopes.suit_cons.2 ⟨houter.update hself, List.forall_mem_nil _⟩⟩

/-- A function suits behind its declaration. -/
theorem Function.Valid.suit {d : Function} {outer outer' : Names} (h : d.Valid outer outer') (hmem : d ∈ fs)
    (houter : Names.Suit fs outer) : Names.Suit fs outer' := by
  cases h with
  | defn hparams hty _ hbody =>
    obtain ⟨-, hrest⟩ := Scopes.suit_cons.1 (hbody.suit (Function.suit_body hmem houter hparams hty))
    exact (Scopes.suit_cons.1 hrest).1

/-- The returns of a function that keeps the static rules are as its type says. -/
theorem Function.Valid.fits {d : Function} {outer outer' : Names} (h : d.Valid outer outer') (hmem : d ∈ fs)
    (houter : Names.Suit fs outer) {ty : Ty} (hty : d.returns? = some ty) : ∀ r ∈ d.returned, Fits fs ty r := by
  cases h with
  | defn hparams hty' _ hbody =>
    cases hty'.symm.trans hty
    exact hbody.fits (Function.suit_body hmem houter hparams hty')

/-- So do functions in a row. -/
theorem Function.AllValid.suit {ds : List Function} {outer outer' : Names} (h : AllValid outer ds outer') (hmem : ∀ d ∈ ds, d ∈ fs)
    (houter : Names.Suit fs outer) : Names.Suit fs outer' := by
  induction h with
  | nil => exact houter
  | cons h _ ih =>
    obtain ⟨hfirst, hrest⟩ := List.forall_mem_cons.1 hmem
    exact ih hrest (h.suit hfirst houter)

/-- So are those of functions in a row. -/
theorem Function.AllValid.fits {ds : List Function} {outer outer' : Names} (h : AllValid outer ds outer') (hmem : ∀ d ∈ ds, d ∈ fs)
    (houter : Names.Suit fs outer) : ∀ d ∈ ds, ∀ ty, d.returns? = some ty → ∀ r ∈ d.returned, Fits fs ty r := by
  induction h with
  | nil => exact List.forall_mem_nil _
  | cons h _ ih =>
    obtain ⟨hfirst, hrest⟩ := List.forall_mem_cons.1 hmem
    exact List.forall_mem_cons.2 ⟨fun ty => h.fits hfirst houter, ih hrest (h.suit hfirst houter)⟩

theorem Stmt.Valid.suit_globals {globals : Stmt} {outer : Names} (h : globals.Valid none false [fun _ => none] [outer]) :
    Names.Suit fs outer := by
  have hempty : Scopes.Suit fs [fun _ => none] := Scopes.suit_cons.2 ⟨Names.suit_empty, List.forall_mem_nil _⟩
  exact (Scopes.suit_cons.1 (h.suit hempty)).1

/-- The returns in a program that keeps the static rules are as the types of their functions say. -/
theorem CompilationUnit.Valid.fits {u : CompilationUnit} (h : u.Valid) {d : Function} (hd : d ∈ u.functions) {ty : Ty}
    (hty : d.returns? = some ty) : ∀ r ∈ d.returned, Fits u.functions ty r := by
  obtain ⟨hglobals, hfunctions, -⟩ := h
  exact hfunctions.fits (fun _ => id) hglobals.suit_globals d hd ty hty

end

/-! ## The first return that does not keep them -/

/-- A statement with what the static rules know where it stands: whether there is a loop around it, and the names in scope. -/
structure Site where
  inLoop : Bool
  scopes : Scopes
  stmt : Stmt

namespace Site

open Assembling

/-- The second site is a part of the first, and all that comes before it there keeps the static rules. -/
inductive Enters (returns : Option Ty) : Site → Site → Prop
  | first {inLoop : Bool} {Γ : Scopes} {first rest : Stmt} : Enters returns ⟨inLoop, Γ, .seq first rest⟩ ⟨inLoop, Γ, first⟩
  | rest {inLoop : Bool} {Γ Γ₁ : Scopes} {first rest : Stmt} : first.Valid returns inLoop Γ Γ₁ →
      Enters returns ⟨inLoop, Γ, .seq first rest⟩ ⟨inLoop, Γ₁, rest⟩
  | block {inLoop : Bool} {Γ : Scopes} {body : Stmt} : Enters returns ⟨inLoop, Γ, .block body⟩ ⟨inLoop, (fun _ => none) :: Γ, body⟩
  | ifThen {inLoop : Bool} {Γ Γ₁ : Scopes} {pos : Position} {condition : Expr} {ty : Ty} {body : Stmt} :
      HasType Γ condition ty Γ₁ → ty ≠ .void → Enters returns ⟨inLoop, Γ, .ifThen pos condition body⟩ ⟨inLoop, Γ₁, body⟩
  | ifElse {inLoop : Bool} {Γ Γ₁ : Scopes} {pos elsePos : Position} {condition : Expr} {ty : Ty} {body other : Stmt} :
      HasType Γ condition ty Γ₁ → ty ≠ .void →
        Enters returns ⟨inLoop, Γ, .ifElse pos condition body elsePos other⟩ ⟨inLoop, Γ₁, body⟩
  | alternative {inLoop : Bool} {Γ Γ₁ Γ₂ : Scopes} {pos elsePos : Position} {condition : Expr} {ty : Ty} {body other : Stmt} :
      HasType Γ condition ty Γ₁ → ty ≠ .void → body.Valid returns inLoop Γ₁ Γ₂ →
        Enters returns ⟨inLoop, Γ, .ifElse pos condition body elsePos other⟩ ⟨inLoop, Γ₂, other⟩
  | loop {inLoop : Bool} {Γ Γ₁ : Scopes} {pos : Position} {condition : Expr} {ty : Ty} {body : Stmt} :
      HasType Γ condition ty Γ₁ → ty ≠ .void → Enters returns ⟨inLoop, Γ, .loop pos condition body⟩ ⟨true, Γ₁, body⟩

/-- Wherever the statement stands like this, it is not emitted but fails. -/
def Fails (returns : Option Ty) (d : Diagnostic) (E : Site) : Prop :=
  ∀ ctx : Context, ctx.function = returns → ctx.loop.isSome = E.inLoop →
    ∀ a : Assembly, a.symbols.scopes = E.scopes → (E.stmt.emit ctx).run a = .error d

/-- A fault of the part is the fault of the whole. -/
theorem Fails.of_enters {returns : Option Ty} {d : Diagnostic} {E E' : Site} (h : Enters returns E E')
    (hfails : E'.Fails returns d) :
    E.Fails returns d := by
  cases h with
  | first =>
    intro ctx hreturns hloop a ha
    rw [Stmt.emit]
    exact run_bind_of_error (hfails ctx hreturns hloop a ha)
  | rest hfirst =>
    intro ctx hreturns hloop a ha
    obtain ⟨a₁, h₁, ha₁⟩ := Stmt.exists_emit hfirst hreturns hloop ha
    rw [Stmt.emit, run_bind_of_ok h₁]
    exact hfails ctx hreturns hloop a₁ ha₁
  | block =>
    rintro ctx hreturns hloop a ⟨⟩
    rw [Stmt.emit, run_bind_of_ok (run_modifySymbols_eq_ok (u := ()) |>.2 rfl)]
    exact run_bind_of_error (hfails ctx hreturns hloop _ (SymbolTable.scopes_enterBlock _))
  | ifThen hc hty | ifElse hc hty =>
    rintro ctx hreturns hloop a ⟨⟩
    obtain ⟨a₁, h₁, rfl⟩ := Expr.exists_emit ctx hc
    rw [Stmt.emit, run_bind_of_ok (Stmt.run_emitCondition (u := ()) |>.2 ⟨_, h₁, hty⟩),
      run_bind_of_ok (run_emitJump_eq_ok.2 ⟨rfl, rfl⟩)]
    exact run_bind_of_error (hfails ctx hreturns hloop _ rfl)
  | alternative hc hty hbody =>
    rintro ctx hreturns hloop a ⟨⟩
    obtain ⟨a₁, h₁, rfl⟩ := Expr.exists_emit ctx hc
    obtain ⟨a₂, h₂, ha₂⟩ := Stmt.exists_emit hbody hreturns hloop (a := a₁.push .jz (some 0) _) rfl
    rw [Stmt.emit, run_bind_of_ok (Stmt.run_emitCondition (u := ()) |>.2 ⟨_, h₁, hty⟩),
      run_bind_of_ok (run_emitJump_eq_ok.2 ⟨rfl, rfl⟩),
      run_bind_of_ok h₂, run_bind_of_ok (run_emitJump_eq_ok.2 ⟨rfl, rfl⟩), run_bind_of_ok (run_patch_eq_ok (u := ()) |>.2 rfl)]
    exact run_bind_of_error (hfails ctx hreturns hloop _ ha₂)
  | loop hc hty =>
    rintro ctx hreturns hloop a ⟨⟩
    obtain ⟨a₁, h₁, rfl⟩ := Expr.exists_emit ctx hc
    rw [Stmt.emit, run_bind_of_ok (run_nextAddress_eq_ok.2 ⟨rfl, rfl⟩),
      run_bind_of_ok (Stmt.run_emitCondition (u := ()) |>.2 ⟨_, h₁, hty⟩), run_bind_of_ok (run_emitJump_eq_ok.2 ⟨rfl, rfl⟩),
      run_bind_of_ok (run_swapBreaks_eq_ok.2 ⟨rfl, rfl⟩)]
    exact run_bind_of_error (hfails { ctx with loop := some a.nextAddress } hreturns rfl _ rfl)

/-- A fault of a part at any depth is the fault of the whole. -/
theorem Fails.of_covers {returns : Option Ty} {d : Diagnostic} {E E' : Site} (h : Relation.ReflTransGen (Enters returns) E E')
    (hfails : E'.Fails returns d) : E.Fails returns d := by
  induction h with
  | refl => exact hfails
  | tail _ hlast ih => exact ih (hfails.of_enters hlast)

/-- In a part the scopes suit as in the whole. -/
theorem Enters.suit {fs : List Function} {returns : Option Ty} {E E' : Site} (h : Enters returns E E') (hE : E.scopes.Suit fs) :
    E'.scopes.Suit fs := by
  cases h with
  | first => exact hE
  | rest hfirst => exact hfirst.suit hE
  | block => exact Scopes.suit_cons.2 ⟨Names.suit_empty, hE⟩
  | ifThen hc | ifElse hc | loop hc => exact hc.suit hE
  | alternative hc _ hbody => exact hbody.suit (hc.suit hE)

/-- So they do in a part at any depth. -/
theorem suit_of_covers {fs : List Function} {returns : Option Ty} {E E' : Site} (h : Relation.ReflTransGen (Enters returns) E E')
    (hE : E.scopes.Suit fs) : E'.scopes.Suit fs := by
  induction h with
  | refl => exact hE
  | tail _ hlast ih => exact hlast.suit ih

section

variable {ty : Ty} {inLoop : Bool} {Γ : Scopes} {pos : Position}

theorem run_requireType_of_ne {expected found : Ty} (h : found ≠ expected) (a : Assembly) :
    (requireType expected found pos).run a = .error ⟨.typeMismatch expected found, pos⟩ := by
  rw [requireType, if_neg h]
  rfl

/-- A return without a value, where the function returns one. -/
theorem fails_ret {stop : Position} (h : ty ≠ .void) :
    Fails (some ty) ⟨.typeMismatch ty .void, stop⟩ ⟨inLoop, Γ, .ret pos stop⟩ := by
  intro ctx hreturns _ a _
  rw [Stmt.emit, Stmt.checkReturn, hreturns]
  exact run_bind_of_error (run_requireType_of_ne h.symm a)

/-- A return of a value that is not of the return type. -/
theorem fails_retValue {e : Expr} {found : Ty} {Γ' : Scopes} (he : HasType Γ e found Γ') (h : found ≠ ty) :
    Fails (some ty) ⟨.typeMismatch ty found, e.start⟩ ⟨inLoop, Γ, .retValue pos e⟩ := by
  rintro ctx hreturns _ a ⟨⟩
  obtain ⟨a₁, h₁, -⟩ := Expr.exists_emit ctx he
  rw [Stmt.emit, run_bind_of_ok h₁, Stmt.checkReturn, hreturns]
  exact run_bind_of_error (run_requireType_of_ne h a₁)

end

end Site

namespace CompilationUnit

open Assembling

/-- The site is the body of a function of the given return type, and all that comes before it in the unit keeps the static rules. -/
inductive Enters (u : CompilationUnit) : Ty → Site → Prop
  | body {outer outer₁ locals : Names} {before after : List Function} {pos close : Position} {name target : Ident}
      {params : List Param} {types : List Ty} {ty : Ty} {body : Stmt} :
      u.globals.Valid none false [fun _ => none] [outer] → u.functions = before ++ .defn pos name params target body close :: after →
        Function.AllValid outer before outer₁ → Param.Declare (fun _ => none) params types locals → Ty.named? target.name = some ty →
        outer₁ name.name = none →
        Enters u ty ⟨false, [locals, Function.update outer₁ name.name (some (.function types ty))], body⟩

/-- The body of the first function has nothing in front of it. -/
theorem Enters.of_first {pos close : Position} {name target : Ident} {body : Stmt} {rest : List Function}
    {ending : Except Diagnostic Position} {ty : Ty} (hty : Ty.named? target.name = some ty) :
    Enters ⟨.nil, .defn pos name [] target body close :: rest, ending⟩ ty
      ⟨false, [fun _ => none, Function.update (fun _ => none) name.name (some (.function [] ty))], body⟩ :=
  .body .nil (List.nil_append _).symm .nil .nil hty rfl

/-- The site lies in a function of the given return type, at any depth, and all that comes before it keeps the static rules. -/
def Reaches (u : CompilationUnit) (ty : Ty) (E : Site) : Prop :=
  ∃ body, u.Enters ty body ∧ Relation.ReflTransGen (Site.Enters (some ty)) body E

section

variable {u : CompilationUnit} {ty : Ty} {d : Diagnostic} {E : Site}

/-- A fault of the functions is the fault of the unit. -/
theorem run_emitFunctions_of_error {fs : List Function} {a : Assembly}
    (h : ∀ a' : Assembly, a'.symbols = a.symbols → (fs.forM Function.emit : Assembling Unit).run a' = .error d) (hne : fs ≠ []) :
    (emitFunctions fs).run a = .error d := by
  obtain ⟨f, fs, rfl⟩ := List.exists_cons_of_ne_nil hne
  rw [emitFunctions, run_bind_of_ok (run_emitJump_eq_ok.2 ⟨rfl, rfl⟩)]
  exact run_bind_of_error (h _ rfl)

/-- A fault of one function is the fault of all. -/
theorem run_forM_of_error {before after : List Function} {f : Function} {a a₁ : Assembly}
    (hbefore : (before.forM Function.emit : Assembling Unit).run a = .ok ((), a₁)) (hf : f.emit.run a₁ = .error d) :
    ((before ++ f :: after).forM Function.emit : Assembling Unit).run a = .error d := by
  induction before generalizing a with
  | nil =>
    obtain ⟨-, rfl⟩ := run_pure_eq_ok.1 hbefore
    exact run_bind_of_error hf
  | cons g before ih =>
    obtain ⟨a₂, hg, hrest⟩ := Function.run_forM_emit_cons.1 hbefore
    exact (run_bind_of_ok hg).trans (ih hrest)

/-- A function whose body fails, behind a header that keeps the static rules. -/
theorem run_emit_of_body {outer locals : Names} {pos close : Position} {name target : Ident} {params : List Param} {types : List Ty}
    {body : Stmt} (hparams : Param.Declare (fun _ => none) params types locals) (hty : Ty.named? target.name = some ty)
    (hname : outer name.name = none)
    (hbody : Site.Fails (some ty) d ⟨false, [locals, Function.update outer name.name (some (.function types ty))], body⟩)
    {a : Assembly} (ha : a.symbols.scopes = [outer]) : (Function.defn pos name params target body close).emit.run a = .error d := by
  obtain ⟨t₁, h₁⟩ := SymbolTable.exists_declareFunction ha hname ⟨ty, a.nextAddress, types⟩ name.pos
  have ht₁ := (SymbolTable.scopes_declareFunction ha h₁).2
  obtain ⟨htypes, t₂, h₂, ht₂⟩ := Param.exists_declaresParams hparams t₁.scopes_enterFunction
  rw [ht₁] at ht₂
  have hresolve : (resolveType true target).run a = .ok (ty, a) := run_resolveType_eq_ok.2 ⟨hty, nofun, rfl⟩
  rw [Function.emit, run_bind_of_ok (Function.run_paramTypes.2 ⟨htypes, rfl⟩), run_bind_of_ok hresolve,
    run_bind_of_ok (run_nextAddress_eq_ok.2 ⟨rfl, rfl⟩), run_bind_of_ok (run_declareFunction_eq_ok (u := ()) |>.2 ⟨t₁, h₁, rfl⟩),
    run_bind_of_ok (run_modifySymbols_eq_ok (u := ()) |>.2 rfl),
    run_bind_of_ok (Function.run_declareParams (u := ()) |>.2 ⟨t₂, h₂, rfl⟩)]
  exact run_bind_of_error (hbody ⟨some ty, none⟩ rfl rfl _ ht₂)

/-- A fault of the body of a function is the fault of the unit. -/
theorem Enters.run_emit (h : u.Enters ty E) (hfails : E.Fails (some ty) d) : u.emit.run .empty = .error d := by
  obtain ⟨hglobals, hfunctions, hbefore, hparams, hty, hname⟩ := h
  obtain ⟨a₁, h₁, ha₁⟩ := Stmt.exists_emit hglobals (rfl : Context.outermost.function = none) rfl
    (a := .empty) SymbolTable.scopes_empty
  rw [emit, run_bind_of_ok h₁, hfunctions]
  refine run_bind_of_error (run_emitFunctions_of_error ?_ (by simp))
  intro a ha
  obtain ⟨a₂, h₂, ha₂⟩ := Function.exists_forM_emit hbefore ((congrArg SymbolTable.scopes ha).trans ha₁)
  exact run_forM_of_error h₂ (run_emit_of_body hparams hty hname hfails ha₂)

/-- A fault anywhere in a function, with nothing before it, is the fault of the unit. -/
theorem Reaches.run_emit (h : u.Reaches ty E) (hfails : E.Fails (some ty) d) : u.emit.run .empty = .error d := by
  obtain ⟨body, hbody, hcovers⟩ := h
  exact hbody.run_emit (hfails.of_covers hcovers)

/-- Wherever a site is reached, the scopes suit. -/
theorem Reaches.suit (h : u.Reaches ty E) : E.scopes.Suit u.functions := by
  obtain ⟨_, @⟨_, _, _, before, after, pos, close, name, target, params, _, _, body, hglobals, hfunctions, hbefore, hparams, hty, -⟩,
    hcovers⟩ := h
  have hmem : .defn pos name params target body close ∈ u.functions := by
    rw [hfunctions]
    exact List.mem_append_right _ List.mem_cons_self
  refine Site.suit_of_covers hcovers (Function.suit_body hmem (hbefore.suit ?_ hglobals.suit_globals) hparams hty)
  intro d hd
  rw [hfunctions]
  exact List.mem_append_left _ hd

end

end CompilationUnit

/-! ## Programs -/

/-- A fault of the tree is the fault of the program text. -/
theorem compile_program_of_error {s : Source} {d : Diagnostic}
    (h : (CompilationUnit.parse (.ofSource s)).1.emit.run .empty = .error d) : compile .program s = .error d := by
  change Assembling.assemble _ = _
  rw [Assembling.assemble, h]

/-- In a compiled program a function that returns a value has no return without an expression, and in one that returns none an
expression behind a return has the form of one without a value. The first return in a text that is not of its function's type is
reported, where the expression starts or at the semicolon; it is always reported if the function returns nothing and the expression is of
another form. -/
theorem returns_match_signature (s : Source) {u : CompilationUnit} (hu : (CompilationUnit.parse (.ofSource s)).1 = u) :
    (∀ p, compile .program s = .ok p → ∀ d ∈ u.functions, ∀ ty, d.returns? = some ty →
      (ty ≠ .void → none ∉ d.returned) ∧ (ty = .void → ∀ e, some e ∈ d.returned → e.Valueless u.functions)) ∧
    ∀ ty E, u.Reaches ty E →
      (∀ pos stop, E.stmt = .ret pos stop → ty ≠ .void → compile .program s = .error ⟨.typeMismatch ty .void, stop⟩) ∧
      ∀ pos e found Γ, E.stmt = .retValue pos e → HasType E.scopes e found Γ →
        (found ≠ ty → compile .program s = .error ⟨.typeMismatch ty found, e.start⟩) ∧
        (¬ e.Valueless u.functions → found ≠ .void) := by
  constructor
  · intro p hp d hd ty hty
    obtain ⟨pos, u', a, hend, hu', h, -⟩ := compile_program_eq_ok.1 hp
    obtain rfl : u = u' := by
      rw [← hu, TokenStream.ofSource_eq.2 ⟨hend, rfl⟩, hu'.parse_eq fun _ => s.wellShaped_of_mem_lex]
    have hvalid := (CompilationUnit.exists_emit_iff hu'.ending_eq).1 ⟨a, h⟩
    have hfits := hvalid.fits hd hty
    exact ⟨fun hne hmem => hne (hfits none hmem), fun hvoid e he => hfits (some e) he hvoid⟩
  · subst hu
    rintro ty ⟨inLoop, Γ, stmt⟩ hreaches
    refine ⟨?_, ?_⟩
    · rintro pos stop ⟨⟩ hne
      exact compile_program_of_error (hreaches.run_emit (Site.fails_ret hne))
    · rintro pos e found Γ' ⟨⟩ he
      refine ⟨fun hne => compile_program_of_error (hreaches.run_emit (Site.fails_retValue he hne)), ?_⟩
      exact fun hform hvoid => hform (he.valueless hvoid hreaches.suit)

/-- A function that returns nothing gives back the call of another one. -/
def Sample.relayedCall : Source := .ofString "fn g() -> void \x7b \x7d fn f() -> void \x7b return g(); \x7d"

/-- A test for a function that returns nothing and has an expression behind a return. -/
theorem exists_returned {fs : List Function}
    (h : fs.any (fun d => d.returns? == some .void && d.returned.any Option.isSome) = true) :
    ∃ d ∈ fs, d.returns? = some .void ∧ ∃ e, some e ∈ d.returned := by
  obtain ⟨d, hd, htest⟩ := List.any_eq_true.1 h
  obtain ⟨hreturns, hsome⟩ := Bool.and_eq_true_iff.1 htest
  obtain ⟨r, hr, hvalue⟩ := List.any_eq_true.1 hsome
  obtain ⟨e, rfl⟩ := Option.isSome_iff_exists.1 hvalue
  exact ⟨d, hd, eq_of_beq hreturns, e, hr⟩

/-- It is compiled, and the test succeeds. -/
theorem relayedCall_eval : (compile .program Sample.relayedCall).isOk ∧
    (CompilationUnit.parse (.ofSource Sample.relayedCall)).1.functions.any
      (fun d => d.returns? == some .void && d.returned.any Option.isSome) = true := by
  rw [Sample.relayedCall, Source.ofString_ofList]
  decide +kernel

/-- A function that returns nothing may have an expression behind a return. -/
theorem relayedCall_returned : (∃ p, compile .program Sample.relayedCall = .ok p) ∧
    ∃ d ∈ (CompilationUnit.parse (.ofSource Sample.relayedCall)).1.functions, d.returns? = some .void ∧
      ∃ e, some e ∈ d.returned := by
  obtain ⟨hok, hany⟩ := relayedCall_eval
  exact ⟨Assembling.exists_eq_ok hok, exists_returned hany⟩

/-- A return without an expression inside a loop, in a function that returns a value. -/
def Sample.bareReturn : Source := .ofString "fn f() -> int \x7b while 1 \x7b return; \x7d return 1; \x7d"

/-- One function that returns a number, and in its loop at the start a return at `pos` without an expression. -/
def CompilationUnit.returnsBare (pos : Position) : CompilationUnit → Bool
  | ⟨.nil, [.defn _ _ [] target (.seq (.loop _ (.int _ _) (.block (.seq (.ret pos' _) _))) _) _], _⟩ =>
    decide (Ty.named? target.name = some .int ∧ pos' = pos)
  | _ => false

/-- A return of a number, in a function that returns nothing. -/
def Sample.numberReturn : Source := .ofString "fn f() -> void \x7b return 1; \x7d"

/-- One function that returns nothing, and a return of a number at `pos`. -/
def CompilationUnit.returnsNumber (pos : Position) : CompilationUnit → Bool
  | ⟨.nil, [.defn _ _ [] target (.seq (.retValue pos' (.int _ _)) _) _], _⟩ =>
    decide (Ty.named? target.name = some .void ∧ pos' = pos)
  | _ => false

/-- The relayed call is compiled, the bare return is reported at its semicolon, and the number where it starts. -/
theorem returns_match_signature_relayed :
    (∃ p, compile .program Sample.relayedCall = .ok p) ∧
    (∃ d ∈ (CompilationUnit.parse (.ofSource Sample.relayedCall)).1.functions, d.returns? = some .void ∧
      ∃ e, some e ∈ d.returned ∧ e.Valueless (CompilationUnit.parse (.ofSource Sample.relayedCall)).1.functions) ∧
    (∃ E stop, (CompilationUnit.parse (.ofSource Sample.bareReturn)).1.Reaches .int E ∧ E.stmt = .ret ⟨1, 27⟩ stop ∧
      compile .program Sample.bareReturn = .error ⟨.typeMismatch .int .void, stop⟩) ∧
    ∃ E e Γ, (CompilationUnit.parse (.ofSource Sample.numberReturn)).1.Reaches .void E ∧ E.stmt = .retValue ⟨1, 18⟩ e ∧
      HasType E.scopes e .int Γ ∧ compile .program Sample.numberReturn = .error ⟨.typeMismatch .void .int, e.start⟩ := by
  obtain ⟨p, hp⟩ := Assembling.exists_eq_ok relayedCall_eval.1
  refine ⟨⟨p, hp⟩, ?_, ?_, ?_⟩
  · obtain ⟨d, hd, hreturns, e, he⟩ := exists_returned relayedCall_eval.2
    exact ⟨d, hd, hreturns, e, he, ((returns_match_signature Sample.relayedCall rfl).1 p hp d hd .void hreturns).2 rfl e he⟩
  · have hshape : (CompilationUnit.parse (.ofSource Sample.bareReturn)).1.returnsBare ⟨1, 27⟩ = true := by
      rw [Sample.bareReturn, Source.ofString_ofList]
      decide +kernel
    unfold CompilationUnit.returnsBare at hshape
    split at hshape
    case h_2 => cases hshape
    case h_1 hu =>
      obtain ⟨hty, rfl⟩ := of_decide_eq_true hshape
      rw [hu]
      obtain ⟨E, stop, hreaches, hE⟩ : ∃ E stop, CompilationUnit.Reaches _ .int E ∧ E.stmt = .ret ⟨1, 27⟩ stop :=
        ⟨_, _, ⟨_, .of_first hty, .head .first (.head (.loop .int (by decide)) (.head .block (.single .first)))⟩, rfl⟩
      exact ⟨E, stop, hreaches, hE, ((returns_match_signature Sample.bareReturn hu).2 .int E hreaches).1 _ stop hE (by decide)⟩
  · have hshape : (CompilationUnit.parse (.ofSource Sample.numberReturn)).1.returnsNumber ⟨1, 18⟩ = true := by
      rw [Sample.numberReturn, Source.ofString_ofList]
      decide +kernel
    unfold CompilationUnit.returnsNumber at hshape
    split at hshape
    case h_2 => cases hshape
    case h_1 hu =>
      obtain ⟨hty, rfl⟩ := of_decide_eq_true hshape
      rw [hu]
      obtain ⟨E, e, Γ, hreaches, hE, he⟩ : ∃ E e Γ, CompilationUnit.Reaches _ .void E ∧ E.stmt = .retValue ⟨1, 18⟩ e ∧
          HasType E.scopes e .int Γ :=
        ⟨_, _, _, ⟨_, .of_first hty, .single .first⟩, rfl, .int⟩
      exact ⟨E, e, Γ, hreaches, hE, he,
        (((returns_match_signature Sample.numberReturn hu).2 .void E hreaches).2 _ e .int Γ hE he).1 (by decide)⟩

end C0Stack
