import C0Stack.Assembly
import C0Stack.CompilationUnit.Basic
import Mathlib.Logic.Function.Basic

/-!
# Other names and other places

A relabeling puts other names and other places into a tree, a fault, a table or a program, and leaves the rest as it is. Where no two
names become one, what is declared under a name is found under the new name, so that the tables before and after answer alike.
-/

namespace C0Stack

/-- New names for the names, and new places for the places. -/
structure Relabeling where
  name : String → String
  pos : Position → Position

/-- No two names become one, and the names that have a meaning of their own stay. -/
structure Relabeling.Faithful (φ : Relabeling) : Prop where
  injective : φ.name.Injective
  name_ty : ∀ ty : Ty, φ.name ty.name = ty.name
  name_main : φ.name "main" = "main"

/-! ## Trees -/

def Ident.relabel (φ : Relabeling) (x : Ident) : Ident := ⟨φ.name x.name, φ.pos x.pos⟩

/-- The cause with other names in it. -/
def Cause.rename (ρ : String → String) : Cause → Cause
  | lexical fault => lexical fault
  | unexpected expected found => unexpected expected found
  | duplicate x => duplicate (ρ x)
  | undeclared x => undeclared (ρ x)
  | uninitialized x => uninitialized (ρ x)
  | constantTarget x => constantTarget (ρ x)
  | invalidType x => invalidType (ρ x)
  | notFunction x => notFunction (ρ x)
  | functionAsValue x => functionAsValue (ρ x)
  | argumentCount f expected got => argumentCount (ρ f) expected got
  | typeMismatch expected found => typeMismatch expected found
  | unsupportedLiteral kind => unsupportedLiteral kind
  | outsideLoop keyword => outsideLoop keyword
  | assignmentAsOperand x => assignmentAsOperand (ρ x)

def Diagnostic.relabel (φ : Relabeling) (d : Diagnostic) : Diagnostic := ⟨d.cause.rename φ.name, φ.pos d.pos⟩

namespace Expr

mutual

def relabel (φ : Relabeling) : Expr → Expr
  | int pos value => int (φ.pos pos) value
  | literal pos kind => literal (φ.pos pos) kind
  | var x => var (x.relabel φ)
  | call f args => call (f.relabel φ) (relabelAll φ args)
  | assign x e => assign (x.relabel φ) (e.relabel φ)
  | paren pos e => paren (φ.pos pos) (e.relabel φ)
  | neg pos e => neg (φ.pos pos) (e.relabel φ)
  | cast e pos ty => cast (e.relabel φ) (φ.pos pos) (ty.relabel φ)
  | binary left op pos right => binary (left.relabel φ) op (φ.pos pos) (right.relabel φ)
  | fault error => fault (error.relabel φ)
  | cut e error => cut (e.relabel φ) (error.relabel φ)

def relabelAll (φ : Relabeling) : List Expr → List Expr
  | [] => []
  | e :: es => e.relabel φ :: relabelAll φ es

end

/-- A call has as many arguments as before. -/
theorem length_relabelAll (φ : Relabeling) (es : List Expr) : (relabelAll φ es).length = es.length := by
  induction es with
  | nil => rw [relabelAll]
  | cons e es ih => rw [relabelAll, List.length_cons, List.length_cons, ih]

/-- The place where an expression starts is the new one of the old. -/
theorem start_relabel (φ : Relabeling) (e : Expr) : (e.relabel φ).start = φ.pos e.start := by
  induction e using start.induct with
  | case8 e pos ty ih | case9 e op pos right ih | case11 e error ih => rwa [relabel, start, start]
  | _ =>
    rw [relabel, start, start]
    try rfl

end Expr

def Stmt.relabel (φ : Relabeling) : Stmt → Stmt
  | nil => nil
  | seq first rest => seq (first.relabel φ) (rest.relabel φ)
  | empty => empty
  | decl pos constant x ty init => decl (φ.pos pos) constant (x.relabel φ) (ty.relabel φ) (init.map (Expr.relabel φ))
  | expr e => expr (e.relabel φ)
  | block body => block (body.relabel φ)
  | ifThen pos condition body => ifThen (φ.pos pos) (condition.relabel φ) (body.relabel φ)
  | ifElse pos condition body elsePos other =>
    ifElse (φ.pos pos) (condition.relabel φ) (body.relabel φ) (φ.pos elsePos) (other.relabel φ)
  | loop pos condition body => loop (φ.pos pos) (condition.relabel φ) (body.relabel φ)
  | leave pos => leave (φ.pos pos)
  | again pos => again (φ.pos pos)
  | ret pos stop => ret (φ.pos pos) (φ.pos stop)
  | retValue pos e => retValue (φ.pos pos) (e.relabel φ)
  | fault error => fault (error.relabel φ)

def Param.relabel (φ : Relabeling) (p : Param) : Param := ⟨p.constant, p.name.relabel φ, p.ty.relabel φ⟩

def Function.relabel (φ : Relabeling) : Function → Function
  | defn pos name params returns body close =>
    defn (φ.pos pos) (name.relabel φ) (params.map (Param.relabel φ)) (returns.relabel φ) (body.relabel φ) (φ.pos close)
  | fault pos params error => fault (φ.pos pos) (params.map (Param.relabel φ)) (error.relabel φ)

theorem Function.pos_relabel (φ : Relabeling) (f : Function) : (f.relabel φ).pos = φ.pos f.pos := by
  cases f <;> rfl

def CompilationUnit.relabelEnding (φ : Relabeling) : Except Diagnostic Position → Except Diagnostic Position
  | .ok pos => .ok (φ.pos pos)
  | .error error => .error (error.relabel φ)

def CompilationUnit.relabel (φ : Relabeling) (u : CompilationUnit) : CompilationUnit :=
  ⟨u.globals.relabel φ, u.functions.map (Function.relabel φ), relabelEnding φ u.ending⟩

/-! ## Tables -/

def Frame.relabel (φ : Relabeling) (f : Frame) : Frame := { f with bindings := f.bindings.map fun (x, b) => (φ.name x, b) }

def SymbolTable.relabel (φ : Relabeling) (t : SymbolTable) : SymbolTable := ⟨t.nested.map (Frame.relabel φ), t.outermost.relabel φ⟩

namespace Frame

variable {φ : Relabeling}

@[simp] theorem nextSlot_relabel (f : Frame) : (f.relabel φ).nextSlot = f.nextSlot := rfl

@[simp] theorem relabel_startingAt (slot : Nat) : (startingAt slot).relabel φ = startingAt slot := rfl

/-- In a frame, the new name is found where the old one was. -/
theorem find?_relabel (hφ : φ.name.Injective) (f : Frame) (x : String) : (f.relabel φ).find? (φ.name x) = f.find? x := by
  obtain ⟨bindings, nextSlot⟩ := f
  unfold find? relabel
  induction bindings with
  | nil => rfl
  | cons binding bindings ih =>
    obtain ⟨y, b⟩ := binding
    have hbeq : (φ.name x == φ.name y) = (x == y) := by
      rw [Bool.eq_iff_iff, beq_iff_eq, beq_iff_eq]
      exact hφ.eq_iff
    simp only [List.map_cons, List.lookup_cons, hbeq] at ih ⊢
    rw [ih]

/-- A write is noted under the new name. -/
theorem relabel_markWritten (hφ : φ.name.Injective) (f : Frame) (x : String) :
    (f.markWritten x).relabel φ = (f.relabel φ).markWritten (φ.name x) := by
  unfold markWritten relabel
  simp only [List.map_map, mk.injEq, and_true]
  refine List.map_congr_left fun binding _ => ?_
  obtain ⟨y, b⟩ := binding
  have hbeq : (φ.name y == φ.name x) = (y == x) := by
    rw [Bool.eq_iff_iff, beq_iff_eq, beq_iff_eq]
    exact hφ.eq_iff
  simp only [Function.comp_apply, hbeq]
  split <;> rfl

end Frame

namespace SymbolTable

variable {φ : Relabeling}

@[simp] theorem relabel_empty : empty.relabel φ = empty := rfl

theorem current_relabel (t : SymbolTable) : (t.relabel φ).current = t.current.relabel φ := by
  obtain ⟨nested, outermost⟩ := t
  cases nested <;> rfl

theorem scope_relabel (t : SymbolTable) : (t.relabel φ).scope = t.scope := by
  unfold scope relabel
  rw [List.isEmpty_map]

/-- Putting in the innermost frame, before or after. -/
theorem relabel_setCurrent (t : SymbolTable) (f : Frame) : (t.setCurrent f).relabel φ = (t.relabel φ).setCurrent (f.relabel φ) := by
  obtain ⟨nested, outermost⟩ := t
  cases nested <;> rfl

/-- Opening the scope of a block, before or after. -/
theorem relabel_enterBlock (t : SymbolTable) : t.enterBlock.relabel φ = (t.relabel φ).enterBlock := by
  unfold enterBlock
  rw [current_relabel]
  rfl

/-- Opening the scope of a function, before or after. -/
theorem relabel_enterFunction (t : SymbolTable) : t.enterFunction.relabel φ = (t.relabel φ).enterFunction := rfl

theorem relabel_leave (t : SymbolTable) : t.leave.relabel φ = (t.relabel φ).leave := by
  obtain ⟨nested, outermost⟩ := t
  cases nested <;> rfl

/-- In a table, the new name is found where the old one was. -/
theorem find?_relabel (hφ : φ.name.Injective) (t : SymbolTable) (x : String) : (t.relabel φ).find? (φ.name x) = t.find? x := by
  have hframes : (t.relabel φ).frames = t.frames.map (Frame.relabel φ) := by
    unfold frames relabel
    rw [List.map_append]
    rfl
  unfold find?
  rw [hframes, List.findSome?_map]
  exact congrArg (List.findSome? · t.frames) (funext fun f => f.find?_relabel hφ x)

/-- A write is noted in the same frame. -/
theorem markFirst?_relabel (hφ : φ.name.Injective) (fs : List Frame) (x : String) :
    markFirst? (φ.name x) (fs.map (Frame.relabel φ)) = (markFirst? x fs).map (List.map (Frame.relabel φ)) := by
  induction fs with
  | nil => rfl
  | cons f fs ih =>
    simp only [List.map_cons, markFirst?, f.find?_relabel hφ, ih]
    cases f.find? x with
    | some b => simp [f.relabel_markWritten hφ]
    | none => cases markFirst? x fs <;> rfl

/-- A declaration succeeds or fails as before. -/
theorem declare_relabel (hφ : φ.name.Injective) (t : SymbolTable) (x : String) (constant : Bool) (ty : Ty) (pos : Position) :
    (t.relabel φ).declare (φ.name x) constant ty (φ.pos pos) =
      match t.declare x constant ty pos with
      | .ok (v, t') => .ok (v, t'.relabel φ)
      | .error d => .error (d.relabel φ) := by
  unfold declare
  rw [current_relabel, scope_relabel, Frame.find?_relabel hφ]
  cases t.current.find? x with
  | some b => rfl
  | none =>
    simp only [relabel_setCurrent]
    rfl

/-- So does the declaration of a function. -/
theorem declareFunction_relabel (hφ : φ.name.Injective) (t : SymbolTable) (x : String) (f : Signature) (pos : Position) :
    (t.relabel φ).declareFunction (φ.name x) f (φ.pos pos) =
      match t.declareFunction x f pos with
      | .ok t' => .ok (t'.relabel φ)
      | .error d => .error (d.relabel φ) := by
  have hfind : (t.relabel φ).outermost.find? (φ.name x) = t.outermost.find? x := t.outermost.find?_relabel hφ x
  unfold declareFunction
  rw [hfind]
  cases t.outermost.find? x <;> rfl

/-- So does noting a write. -/
theorem markWritten_relabel (hφ : φ.name.Injective) (t : SymbolTable) (x : String) (pos : Position) :
    (t.relabel φ).markWritten (φ.name x) (φ.pos pos) =
      match t.markWritten x pos with
      | .ok t' => .ok (t'.relabel φ)
      | .error d => .error (d.relabel φ) := by
  have hnested : markFirst? (φ.name x) (t.relabel φ).nested = _ := markFirst?_relabel hφ t.nested x
  have hfind : (t.relabel φ).outermost.find? (φ.name x) = t.outermost.find? x := t.outermost.find?_relabel hφ x
  have hmark : (t.relabel φ).outermost.markWritten (φ.name x) = (t.outermost.markWritten x).relabel φ :=
    (t.outermost.relabel_markWritten hφ x).symm
  unfold markWritten
  rw [hnested, hfind, hmark]
  cases markFirst? x t.nested with
  | some nested => rfl
  | none => cases t.outermost.find? x <;> rfl

end SymbolTable

/-! ## Assemblies -/

def CodeLine.relabel (φ : Relabeling) (line : CodeLine) : CodeLine := { line with pos := φ.pos line.pos }

def Program.relabel (φ : Relabeling) (p : Program) : Program := ⟨p.lines.map (CodeLine.relabel φ)⟩

def Assembly.relabel (φ : Relabeling) (a : Assembly) : Assembly := ⟨a.symbols.relabel φ, a.program.relabel φ, a.breaks⟩

namespace Assembly

variable {φ : Relabeling}

@[simp] theorem relabel_empty : empty.relabel φ = empty := by
  simp [empty, relabel, Program.relabel, Program.empty]

theorem nextAddress_relabel (a : Assembly) : (a.relabel φ).nextAddress = a.nextAddress := Array.size_map

theorem relabel_push (a : Assembly) (op : Operation) (operand : Option Nat) (pos : Position) :
    (a.push op operand pos).relabel φ = (a.relabel φ).push op operand (φ.pos pos) := by
  simp [push, relabel, Program.relabel, Program.push, CodeLine.relabel]

/-- Giving a jump its target, before or after. -/
theorem relabel_patch (a : Assembly) (address : Nat) : (a.patch address).relabel φ = (a.relabel φ).patch address := by
  unfold patch
  rw [nextAddress_relabel]
  unfold relabel Program.relabel Program.setOperand
  simp only [mk.injEq, Program.mk.injEq, true_and, and_true]
  refine Array.ext (by simp) fun n hn _ => ?_
  rw [Array.getElem_map, Array.getElem_modify, Array.getElem_modify, Array.getElem_map]
  split <;> rfl

end Assembly

end C0Stack
