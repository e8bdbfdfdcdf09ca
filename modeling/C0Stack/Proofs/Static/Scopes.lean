import C0Stack.Symbol.Table
import Mathlib.Logic.Function.Basic

/-!
# Scopes

The names in scope as the static rules see them: one partial map for each open scope, the innermost first. Where a variable is
stored and where a function starts play no part here. `SymbolTable.scopes` forgets both, and each operation of the table is shown
to be the operation of the same meaning on the scopes.

The other half of a table is what the code depends on. `SymbolTable.written` forgets which slots have been written; tables that
agree in it give every name the same slot.
-/

namespace C0Stack

/-- What a name stands for: a variable of some type, perhaps constant and perhaps assigned already, or a function. -/
inductive Entity where
  | var (ty : Ty) (constant assigned : Bool)
  | function (params : List Ty) (returns : Ty)
deriving DecidableEq, Repr

/-- The entity after an assignment to its name. -/
def Entity.assign : Entity → Entity
  | var ty constant _ => var ty constant true
  | function params returns => function params returns

/-- The names that one scope declares. -/
abbrev Names := String → Option Entity

/-- The open scopes, the innermost first. -/
abbrev Scopes := List Names

namespace Scopes

/-- What the name stands for in the innermost scope that declares it. -/
def find? (Γ : Scopes) (x : String) : Option Entity := Γ.findSome? fun names => names x

/-- The scopes after an assignment to the name, which is noted at the innermost declaration of it. -/
def assign (x : String) : Scopes → Scopes
  | [] => []
  | names :: outer =>
    match names x with
    | some e => Function.update names x (some e.assign) :: outer
    | none => names :: assign x outer

/-- A name stands for what the innermost scope declares, or else for what it stands for outside. -/
@[simp] theorem find?_cons (names : Names) (outer : Scopes) (x : String) :
    find? (names :: outer) x = (names x).or (find? outer x) := by
  unfold find?
  rw [List.findSome?_cons]
  cases names x <;> rfl

/-- An assignment opens and closes no scope. -/
@[simp] theorem length_assign (Γ : Scopes) (x : String) : (Γ.assign x).length = Γ.length := by
  induction Γ with
  | nil => rfl
  | cons names outer ih =>
    unfold assign
    split <;> simp [ih]

end Scopes

/-! ## Frames -/

/-- What the static rules know of a binding. -/
def Binding.entity : Binding → Entity
  | storage v => .var v.ty v.constant v.initialized
  | function f => .function f.params f.returns

/-- Noting a write is an assignment to the entity. -/
@[simp] theorem Binding.entity_markWritten (b : Binding) : b.markWritten.entity = b.entity.assign := by
  cases b <;> rfl

/-- A write that has been noted is not noted again. -/
@[simp] theorem Binding.markWritten_markWritten (b : Binding) : b.markWritten.markWritten = b.markWritten := by
  cases b <;> rfl

namespace Frame

/-- The names of the frame. -/
def names (f : Frame) : Names := fun x => (f.find? x).map Binding.entity

/-- The frame as it would be with every slot written. -/
def written (f : Frame) : Frame := { f with bindings := f.bindings.map fun (n, b) => (n, b.markWritten) }

@[simp] theorem find?_startingAt (slot : Nat) (x : String) : (startingAt slot).find? x = none := rfl

/-- What is inserted is found under its own name, and the other names as before. -/
@[simp] theorem find?_insert (f : Frame) (x y : String) (b : Binding) :
    (f.insert x b).find? y = if y = x then some b else f.find? y := by
  unfold insert find?
  rw [List.lookup_cons]
  by_cases h : y = x
  · simp [h]
  · simp [h, beq_eq_false_iff_ne.2 h]

/-- Looking up in a list whose bindings are changed name by name is looking up and then changing. -/
theorem lookup_map_snd (g : String → Binding → Binding) (l : List (String × Binding)) (x : String) :
    (l.map fun p => (p.1, g p.1 p.2)).lookup x = (l.lookup x).map (g x) := by
  induction l with
  | nil => rfl
  | cons p rest ih =>
    rw [List.map_cons, List.lookup_cons, List.lookup_cons, ih]
    by_cases h : x = p.1
    · simp [h]
    · simp [beq_eq_false_iff_ne.2 h]

/-- A write that is noted changes what is found under its own name only. -/
@[simp] theorem find?_markWritten (f : Frame) (x y : String) :
    (f.markWritten x).find? y = if y = x then (f.find? y).map Binding.markWritten else f.find? y := by
  have hmap : (f.markWritten x).bindings =
      f.bindings.map fun p => (p.1, if p.1 == x then p.2.markWritten else p.2) := by
    apply List.map_congr_left
    rintro ⟨n, b⟩ -
    simp only
    split <;> rfl
  unfold find?
  rw [hmap, lookup_map_snd fun n b => if n == x then b.markWritten else b]
  by_cases h : y = x
  · simp [h]
  · simp [h]

/-- With every slot written, each name is found with its write noted. -/
@[simp] theorem find?_written (f : Frame) (x : String) : f.written.find? x = (f.find? x).map Binding.markWritten :=
  lookup_map_snd (fun _ => Binding.markWritten) f.bindings x

/-- Noting one write does not matter where every slot is taken as written. -/
@[simp] theorem written_markWritten (f : Frame) (x : String) : (f.markWritten x).written = f.written := by
  obtain ⟨bindings, next⟩ := f
  simp only [markWritten, written, List.map_map, mk.injEq, and_true]
  apply List.map_congr_left
  rintro ⟨n, b⟩ -
  by_cases h : n = x <;> simp [h]

@[simp] theorem names_startingAt (slot : Nat) : (startingAt slot).names = fun _ => none := rfl

/-- Inserting a binding declares its name. -/
theorem names_insert (f : Frame) (x : String) (b : Binding) :
    (f.insert x b).names = Function.update f.names x (some b.entity) := by
  funext y
  by_cases h : y = x
  · subst h; simp [names]
  · simp [names, h]

/-- Noting a write in a frame is assigning its name there. -/
theorem names_markWritten (f : Frame) (x : String) :
    (f.markWritten x).names = Function.update f.names x ((f.names x).map Entity.assign) := by
  funext y
  by_cases h : y = x
  · subst h
    cases hf : f.find? y <;> simp [names, hf]
  · simp [names, h]

end Frame

/-! ## Tables -/

namespace SymbolTable

/-- The scopes of the table. -/
def scopes (t : SymbolTable) : Scopes := t.frames.map Frame.names

/-- The table as it would be with every slot written. -/
def written (t : SymbolTable) : SymbolTable := ⟨t.nested.map Frame.written, t.outermost.written⟩

theorem frames_eq_cons (t : SymbolTable) : t.frames = t.current :: t.frames.tail := by
  obtain ⟨nested, outermost⟩ := t
  cases nested <;> rfl

theorem scopes_eq_cons (t : SymbolTable) : t.scopes = t.current.names :: t.scopes.tail := by
  unfold scopes
  rw [frames_eq_cons]
  rfl

/-- The scopes give a name the entity of what the table finds. -/
@[simp] theorem find?_scopes (t : SymbolTable) (x : String) : t.scopes.find? x = (t.find? x).map Binding.entity := by
  unfold scopes find?
  induction t.frames with
  | nil => rfl
  | cons f fs ih =>
    rw [List.map_cons, Scopes.find?_cons, ih, List.findSome?_cons]
    cases hf : f.find? x <;> simp [Frame.names, hf]

/-- The scopes know a variable exactly if the table finds one of that type and state. -/
theorem find?_scopes_eq_var {t : SymbolTable} {x : String} {ty : Ty} {constant assigned : Bool} :
    t.scopes.find? x = some (.var ty constant assigned) ↔
      ∃ v, t.find? x = some (.storage v) ∧ v.ty = ty ∧ v.constant = constant ∧ v.initialized = assigned := by
  rw [find?_scopes, Option.map_eq_some_iff]
  constructor
  · rintro ⟨b, hb, hent⟩
    cases b with
    | storage v => exact ⟨v, hb, by simpa [Binding.entity] using hent⟩
    | function f => simp [Binding.entity] at hent
  · rintro ⟨v, hb, rfl, rfl, rfl⟩
    exact ⟨_, hb, rfl⟩

/-- The scopes know a function exactly if the table finds one of those types. -/
theorem find?_scopes_eq_function {t : SymbolTable} {x : String} {params : List Ty} {returns : Ty} :
    t.scopes.find? x = some (.function params returns) ↔
      ∃ f, t.find? x = some (.function f) ∧ f.params = params ∧ f.returns = returns := by
  rw [find?_scopes, Option.map_eq_some_iff]
  constructor
  · rintro ⟨b, hb, hent⟩
    cases b with
    | storage v => simp [Binding.entity] at hent
    | function f => exact ⟨f, hb, by simpa [Binding.entity] using hent⟩
  · rintro ⟨f, hb, rfl, rfl⟩
    exact ⟨_, hb, rfl⟩

/-- Taking every slot as written is done frame by frame. -/
theorem frames_written (t : SymbolTable) : t.written.frames = t.frames.map Frame.written := by
  simp [written, frames]

/-- With every slot written, the table finds each name with its write noted. -/
@[simp] theorem find?_written (t : SymbolTable) (x : String) : t.written.find? x = (t.find? x).map Binding.markWritten := by
  unfold find?
  rw [frames_written]
  induction t.frames with
  | nil => rfl
  | cons f fs ih =>
    rw [List.map_cons, List.findSome?_cons, List.findSome?_cons, ih, Frame.find?_written]
    cases f.find? x <;> rfl

/-- Tables that differ only in what has been written find the same names. -/
theorem isSome_find?_of_written {t t' : SymbolTable} (h : t'.written = t.written) {x : String} {b : Binding}
    (hb : t.find? x = some b) : (t'.find? x).isSome := by
  have hw := find?_written t' x
  rw [h, find?_written, hb] at hw
  exact Option.isSome_map.symm.trans (congrArg Option.isSome hw.symm)

/-- What has been written does not matter to the next free slot. -/
@[simp] theorem nextSlot_current_written (t : SymbolTable) : t.written.current.nextSlot = t.current.nextSlot := by
  obtain ⟨nested, outermost⟩ := t
  cases nested <;> rfl

@[simp] theorem scopes_empty : empty.scopes = [fun _ => none] := rfl

/-! ### Opening and closing a scope -/

/-- A block opens a scope that declares nothing. -/
@[simp] theorem scopes_enterBlock (t : SymbolTable) : t.enterBlock.scopes = (fun _ => none) :: t.scopes := rfl

@[simp] theorem scopes_enterFunction (t : SymbolTable) : t.enterFunction.scopes = (fun _ => none) :: t.scopes := rfl

/-- Closing a scope takes away the innermost one. -/
theorem scopes_leave {t : SymbolTable} (h : t.nested ≠ []) : t.leave.scopes = t.scopes.tail := by
  obtain ⟨nested, outermost⟩ := t
  cases nested with
  | nil => exact absurd rfl h
  | cons f rest => rfl

/-- There is one scope for each frame that is nested, and the outermost one. -/
@[simp] theorem length_scopes (t : SymbolTable) : t.scopes.length = t.nested.length + 1 := by
  simp [scopes, frames]

/-! ### Declaring a variable -/

/-- A declaration succeeds exactly if the innermost scope does not hold the name, and takes the next slot. -/
theorem declare_eq_ok {t t' : SymbolTable} {x : String} {constant : Bool} {ty : Ty} {pos : Position} {v : Variable} :
    t.declare x constant ty pos = .ok (v, t') ↔
      t.current.find? x = none ∧ v = ⟨ty, constant, t.current.nextSlot, t.scope, false⟩ ∧
        t' = t.setCurrent { t.current.insert x (.storage v) with nextSlot := t.current.nextSlot + 1 } := by
  unfold declare
  cases t.current.find? x with
  | some b => simp
  | none =>
    simp only [Except.ok.injEq, Prod.mk.injEq, true_and]
    constructor
    · rintro ⟨rfl, rfl⟩
      exact ⟨rfl, rfl⟩
    · rintro ⟨rfl, rfl⟩
      exact ⟨rfl, rfl⟩

/-- The frame that is put in is the innermost one. -/
@[simp] theorem current_setCurrent (t : SymbolTable) (f : Frame) : (t.setCurrent f).current = f := by
  obtain ⟨nested, outermost⟩ := t
  cases nested <;> rfl

/-- Putting in the innermost frame leaves the others. -/
@[simp] theorem frames_setCurrent (t : SymbolTable) (f : Frame) : (t.setCurrent f).frames = f :: t.frames.tail := by
  obtain ⟨nested, outermost⟩ := t
  cases nested <;> rfl

/-- Putting in the innermost frame opens no scope. -/
@[simp] theorem length_nested_setCurrent (t : SymbolTable) (f : Frame) : (t.setCurrent f).nested.length = t.nested.length := by
  obtain ⟨nested, outermost⟩ := t
  cases nested <;> rfl

/-- A name is looked up in the innermost frame, and then in the others. -/
theorem find?_eq_or (t : SymbolTable) (x : String) :
    t.find? x = (t.current.find? x).or (t.frames.tail.findSome? fun f => f.find? x) := by
  unfold find?
  rw [frames_eq_cons, List.findSome?_cons]
  cases t.current.find? x <;> rfl

/-- A declaration adds a variable without a value to the innermost scope. -/
theorem scopes_declare {t t' : SymbolTable} {x : String} {constant : Bool} {ty : Ty} {pos : Position} {v : Variable}
    (h : t.declare x constant ty pos = .ok (v, t')) :
    t'.scopes = Function.update t.current.names x (some (.var ty constant false)) :: t.scopes.tail := by
  obtain ⟨-, rfl, rfl⟩ := declare_eq_ok.1 h
  simp only [scopes, frames_setCurrent, List.map_cons, List.map_tail, List.cons.injEq, and_true]
  exact Frame.names_insert t.current x _

/-- A declaration leaves the frames of the other scopes alone. -/
theorem tail_frames_declare {t t' : SymbolTable} {x : String} {constant : Bool} {ty : Ty} {pos : Position} {v : Variable}
    (h : t.declare x constant ty pos = .ok (v, t')) : t'.written.frames.tail = t.written.frames.tail := by
  obtain ⟨-, -, rfl⟩ := declare_eq_ok.1 h
  simp [frames_written]

/-- Tables with the same other scopes have as many. -/
theorem scope_of_tail_frames {t t' : SymbolTable} (h : t'.written.frames.tail = t.written.frames.tail) : t'.scope = t.scope := by
  have hlen : t'.nested.length = t.nested.length := by simpa [frames, written] using congrArg List.length h
  have hnil : t'.nested = [] ↔ t.nested = [] := by rw [← List.length_eq_zero_iff, hlen, List.length_eq_zero_iff]
  simp only [scope, List.isEmpty_iff, hnil]

/-- The outermost scope is the innermost one exactly if none is nested. -/
theorem scope_eq_outermost {t : SymbolTable} : t.scope = .outermost ↔ t.nested = [] := by
  unfold scope
  rw [← List.isEmpty_iff]
  split <;> simp_all

/-- A name that is declared was not in the innermost scope before. -/
theorem names_of_declare {t t' : SymbolTable} {x : String} {constant : Bool} {ty : Ty} {pos : Position} {v : Variable}
    (h : t.declare x constant ty pos = .ok (v, t')) : t.current.names x = none := by
  unfold Frame.names
  rw [(declare_eq_ok.1 h).1]
  rfl

/-- A name that the innermost scope does not hold can be declared. -/
theorem exists_declare {t : SymbolTable} {names : Names} {outer : Scopes} (ht : t.scopes = names :: outer) {x : String}
    (hx : names x = none) (constant : Bool) (ty : Ty) (pos : Position) :
    ∃ v t', t.declare x constant ty pos = .ok (v, t') ∧ v.ty = ty ∧
      t'.scopes = Function.update names x (some (.var ty constant false)) :: outer := by
  obtain ⟨rfl, rfl⟩ := List.cons.inj (t.scopes_eq_cons.symm.trans ht)
  have hfind : t.current.find? x = none := Option.map_eq_none_iff.1 hx
  have hok : t.declare x constant ty pos = .ok (⟨ty, constant, t.current.nextSlot, t.scope, false⟩, _) :=
    declare_eq_ok.2 ⟨hfind, rfl, rfl⟩
  exact ⟨_, _, hok, rfl, scopes_declare hok⟩

/-- After a declaration the name stands for the new variable, and every other name for what it stood for. -/
theorem find?_declare {t t' : SymbolTable} {x : String} {constant : Bool} {ty : Ty} {pos : Position} {v : Variable}
    (h : t.declare x constant ty pos = .ok (v, t')) (y : String) :
    t'.find? y = if y = x then some (.storage v) else t.find? y := by
  obtain ⟨-, -, rfl⟩ := declare_eq_ok.1 h
  have hins : ({ t.current.insert x (.storage v) with nextSlot := t.current.nextSlot + 1 } : Frame).find? y =
      if y = x then some (.storage v) else t.current.find? y := Frame.find?_insert t.current x y _
  rw [find?_eq_or, current_setCurrent, frames_setCurrent, List.tail_cons, hins, find?_eq_or t y]
  split <;> rfl

/-! ### Declaring a function -/

/-- The table with the function in the outermost scope. -/
def withFunction (t : SymbolTable) (x : String) (f : Signature) : SymbolTable :=
  { t with outermost := t.outermost.insert x (.function f) }

/-- A function is declared exactly if the outermost scope does not hold its name. -/
theorem declareFunction_eq_ok {t t' : SymbolTable} {x : String} {f : Signature} {pos : Position} :
    t.declareFunction x f pos = .ok t' ↔ t.outermost.find? x = none ∧ t' = t.withFunction x f := by
  unfold declareFunction withFunction
  cases t.outermost.find? x with
  | some b => simp
  | none => simp [@eq_comm _ t']

/-- Where nothing is nested, names are looked up in the outermost frame. -/
theorem find?_of_nested_eq_nil {t : SymbolTable} (h : t.nested = []) (x : String) : t.find? x = t.outermost.find? x := by
  unfold find? frames
  rw [h, List.nil_append, List.findSome?_singleton]

/-- Where nothing is nested, a function is found under its own name, and the other names as before. -/
theorem find?_withFunction {t : SymbolTable} (h : t.nested = []) (x y : String) (f : Signature) :
    (t.withFunction x f).find? y = if y = x then some (.function f) else t.find? y := by
  rw [find?_of_nested_eq_nil (show (t.withFunction x f).nested = [] from h), find?_of_nested_eq_nil h]
  exact Frame.find?_insert t.outermost x y _

/-- Where only the outermost scope is open, a function is declared there, beside the variables. -/
theorem scopes_declareFunction {t t' : SymbolTable} {x : String} {f : Signature} {pos : Position} {outer : Names}
    (ht : t.scopes = [outer]) (h : t.declareFunction x f pos = .ok t') :
    outer x = none ∧ t'.scopes = [Function.update outer x (some (.function f.params f.returns))] := by
  obtain ⟨hx, rfl⟩ := declareFunction_eq_ok.1 h
  obtain ⟨nested, outermost⟩ := t
  obtain rfl : nested = [] := List.eq_nil_of_length_eq_zero (by simpa using congrArg List.length ht)
  obtain rfl : outermost.names = outer := by simpa [scopes, frames] using ht
  exact ⟨Option.map_eq_none_iff.2 hx, congrArg (· :: []) (Frame.names_insert outermost x _)⟩

/-- A name that the only open scope does not hold can be declared as a function. -/
theorem exists_declareFunction {t : SymbolTable} {x : String} {outer : Names} (ht : t.scopes = [outer]) (hx : outer x = none)
    (f : Signature) (pos : Position) : ∃ t', t.declareFunction x f pos = .ok t' := by
  obtain ⟨nested, outermost⟩ := t
  obtain rfl : nested = [] := List.eq_nil_of_length_eq_zero (by simpa using congrArg List.length ht)
  obtain rfl : outermost.names = outer := by simpa [scopes, frames] using ht
  exact ⟨_, declareFunction_eq_ok.2 ⟨Option.map_eq_none_iff.1 hx, rfl⟩⟩

/-! ### Noting a write -/

/-- A table is determined by its frames. -/
theorem frames_injective {t t' : SymbolTable} (h : t.frames = t'.frames) : t = t' := by
  obtain ⟨nested, outermost⟩ := t
  obtain ⟨nested', outermost'⟩ := t'
  have := List.append_inj' (h : nested ++ [outermost] = nested' ++ [outermost']) rfl
  simp_all

/-- A write is noted in a longer list of frames: in the first part if that holds the name, or else in the last frame. -/
theorem markFirst?_append (x : String) (fs : List Frame) (f : Frame) :
    markFirst? x (fs ++ [f]) =
      match markFirst? x fs, f.find? x with
      | some fs', _ => some (fs' ++ [f])
      | none, some _ => some (fs ++ [f.markWritten x])
      | none, none => none := by
  induction fs with
  | nil =>
    simp only [List.nil_append, markFirst?]
    cases f.find? x <;> rfl
  | cons g gs ih =>
    simp only [List.cons_append, markFirst?]
    cases g.find? x with
    | some b => rfl
    | none =>
      rw [ih]
      cases markFirst? x gs <;> cases f.find? x <;> rfl

/-- A write is noted in the first frame, from the innermost outwards, that holds the name. -/
theorem markWritten_eq_ok {t t' : SymbolTable} {x : String} {pos : Position} :
    t.markWritten x pos = .ok t' ↔ markFirst? x t.frames = some t'.frames := by
  unfold markWritten
  have happ : markFirst? x t.frames = _ := markFirst?_append x t.nested t.outermost
  rw [happ]
  cases markFirst? x t.nested with
  | some nested =>
    simp only [Except.ok.injEq, Option.some.injEq]
    exact ⟨fun h => h ▸ rfl, fun h => frames_injective h⟩
  | none =>
    cases t.outermost.find? x with
    | some b =>
      simp only [Except.ok.injEq, Option.some.injEq]
      exact ⟨fun h => h ▸ rfl, fun h => frames_injective h⟩
    | none => simp

/-- A write can be noted exactly if one of the frames holds the name. -/
theorem isSome_markFirst? (x : String) (fs : List Frame) :
    (markFirst? x fs).isSome = (fs.findSome? fun f => f.find? x).isSome := by
  induction fs with
  | nil => rfl
  | cons f fs ih =>
    rw [markFirst?, List.findSome?_cons]
    cases f.find? x with
    | some b => rfl
    | none => simpa using ih

/-- A write to a name is noted exactly if the name is declared. -/
theorem exists_markWritten_iff {t : SymbolTable} {x : String} {pos : Position} :
    (∃ t', t.markWritten x pos = .ok t') ↔ (t.find? x).isSome := by
  unfold find?
  rw [← isSome_markFirst?]
  constructor
  · rintro ⟨t', h⟩
    rw [markWritten_eq_ok.1 h]
    rfl
  · intro h
    have happ := markFirst?_append x t.nested t.outermost
    unfold markWritten
    change (markFirst? x (t.nested ++ [t.outermost])).isSome at h
    rw [happ] at h
    cases hn : markFirst? x t.nested with
    | some nested => exact ⟨_, rfl⟩
    | none =>
      rw [hn] at h
      cases ho : t.outermost.find? x with
      | some b => exact ⟨_, rfl⟩
      | none => rw [ho] at h; simp at h

/-- Noting a write in the frames is an assignment in their scopes. -/
theorem map_names_markFirst? {x : String} {fs fs' : List Frame} (h : markFirst? x fs = some fs') :
    fs'.map Frame.names = Scopes.assign x (fs.map Frame.names) := by
  induction fs generalizing fs' with
  | nil => simp [markFirst?] at h
  | cons f fs ih =>
    rw [markFirst?] at h
    rw [List.map_cons, Scopes.assign]
    cases hf : f.find? x with
    | some b =>
      simp only [hf, Option.some.injEq] at h
      subst h
      simp [Frame.names_markWritten, Frame.names, hf]
    | none =>
      simp only [hf, Option.map_eq_some_iff] at h
      obtain ⟨gs, hgs, rfl⟩ := h
      simp [Frame.names, hf, ← ih hgs]

/-- Noting a write does not matter where every slot is taken as written. -/
theorem map_written_markFirst? {x : String} {fs fs' : List Frame} (h : markFirst? x fs = some fs') :
    fs'.map Frame.written = fs.map Frame.written := by
  induction fs generalizing fs' with
  | nil => simp [markFirst?] at h
  | cons f fs ih =>
    rw [markFirst?] at h
    cases hf : f.find? x with
    | some b =>
      simp only [hf, Option.some.injEq] at h
      subst h
      simp
    | none =>
      simp only [hf, Option.map_eq_some_iff] at h
      obtain ⟨gs, hgs, rfl⟩ := h
      simp [ih hgs]

/-- Noting a write is an assignment in the scopes. -/
theorem scopes_markWritten {t t' : SymbolTable} {x : String} {pos : Position} (h : t.markWritten x pos = .ok t') :
    t'.scopes = t.scopes.assign x :=
  map_names_markFirst? (markWritten_eq_ok.1 h)

/-- A name that is declared and noted as written is one that has been assigned. -/
theorem scopes_declare_markWritten {t t₁ t₂ : SymbolTable} {x : String} {constant : Bool} {ty : Ty} {pos pos' : Position}
    {v : Variable} (h : t.declare x constant ty pos = .ok (v, t₁)) (h' : t₁.markWritten x pos' = .ok t₂) :
    t₂.scopes = Function.update t.current.names x (some (.var ty constant true)) :: t.scopes.tail := by
  rw [scopes_markWritten h', scopes_declare h]
  simp [Scopes.assign, Entity.assign]

/-- Noting a write moves nothing to another slot. -/
theorem written_markWritten {t t' : SymbolTable} {x : String} {pos : Position} (h : t.markWritten x pos = .ok t') :
    t'.written = t.written := by
  apply frames_injective
  rw [frames_written, frames_written]
  exact map_written_markFirst? (markWritten_eq_ok.1 h)

end SymbolTable

end C0Stack
