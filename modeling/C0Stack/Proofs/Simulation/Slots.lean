import C0Stack.Proofs.Code.Stmt
import C0Stack.Proofs.Semantics

/-!
# Where variables are kept

The variables in scope are numbered from the oldest on, and the number of a variable is its slot. So an environment is kept in the
slots of a frame (`Env.Held`), and a store in the frames of the machine (`Store.Kept`). A symbol table assigns the slots in this way:
`SymbolTable.Fits` says that a table gives each name the place at which it is kept, and every step of the assembly that changes the
names in scope preserves it.
-/

namespace C0Stack

variable {V : Type}

/-! ## Slots -/

/-- The slot of the latest variable of that name. -/
def slotOf : List String → String → Option Nat
  | [], _ => none
  | y :: ys, x => if x = y then some ys.length else slotOf ys x

/-- A slot is below the number of variables. -/
theorem slotOf_lt {names : List String} {x : String} {n : Nat} (h : slotOf names x = some n) : n < names.length := by
  induction names with
  | nil => cases h
  | cons y ys ih =>
    rw [slotOf] at h
    rw [List.length_cons]
    split at h
    · cases h
      omega
    · have := ih h
      omega

namespace Env

/-- Each variable of the environment that has a value has it in its slot too. -/
def Held (mem : Memory V) : Env V → Prop
  | [] => True
  | (_, r) :: env => (∀ v, r = some v → mem env.length = some v) ∧ Held mem env

/-- In terms of slots: the variable at each number from the oldest on has its value there. -/
theorem held_iff {mem : Memory V} {env : Env V} :
    env.Held mem ↔ ∀ (slot : Nat) (x : String) (v : V), env.reverse[slot]? = some (x, some v) → mem slot = some v := by
  induction env with
  | nil => simp [Held]
  | cons p env ih =>
    obtain ⟨y, r⟩ := p
    rw [Held, ih, List.reverse_cons]
    constructor
    · rintro ⟨hhead, htail⟩ slot x v h
      rw [List.getElem?_append] at h
      split at h
      · exact htail slot x v h
      · rename_i hge
        obtain ⟨hlt, heq⟩ := List.getElem?_eq_some_iff.1 h
        obtain rfl : slot = env.length := by
          simp only [List.length_reverse, List.length_singleton] at hge hlt
          omega
        simp only [List.length_reverse, Nat.sub_self, List.getElem_cons_zero, Prod.mk.injEq] at heq
        exact hhead v heq.2
    · intro h
      constructor
      · rintro v rfl
        exact h env.length y v (by simp)
      · intro slot x v hslot
        refine h slot x v ?_
        rw [List.getElem?_append_left (List.getElem?_eq_some_iff.1 hslot).1]
        exact hslot

/-- A slot beyond those of the environment may be written. -/
theorem Held.update_of_le {mem : Memory V} {env : Env V} (h : env.Held mem) {n : Nat} (hn : env.length ≤ n) (r : Option V) :
    env.Held (Function.update mem n r) := by
  induction env with
  | nil => trivial
  | cons p env ih =>
    rw [List.length_cons] at hn
    refine ⟨fun v hv => ?_, ih h.2 (by omega)⟩
    rw [Function.update_of_ne (by omega)]
    exact h.1 v hv

/-- Variables that go out of scope give up their slots, and the others stay. -/
theorem Held.drop {mem : Memory V} {env : Env V} (h : env.Held mem) (n : Nat) : Held mem (env.drop n) := by
  induction n generalizing env with
  | zero => exact h
  | succ n ih =>
    cases env with
    | nil => trivial
    | cons p env => exact ih h.2

/-- A name has no slot exactly if it is not in scope. -/
theorem slotOf_eq_none {env : Env V} {x : String} : slotOf env.names x = none ↔ env.lookup x = none := by
  induction env with
  | nil => simp [names, slotOf]
  | cons p env ih =>
    obtain ⟨y, r⟩ := p
    rw [names_cons, slotOf, List.lookup_cons]
    by_cases h : x = y
    · simp [h]
    · simp [h, beq_eq_false_iff_ne.2 h, ih]

/-- The slot of a variable is its number from the oldest on. -/
theorem getElem?_of_slotOf {env : Env V} {x : String} {n : Nat} (h : slotOf env.names x = some n) :
    ∃ r, env.reverse[n]? = some (x, r) := by
  induction env with
  | nil => cases h
  | cons p env ih =>
    obtain ⟨y, r⟩ := p
    rw [names_cons, slotOf, length_names] at h
    rw [List.reverse_cons]
    split at h
    · rename_i hxy
      cases h
      exact ⟨r, by simp [hxy]⟩
    · obtain ⟨r', hr'⟩ := ih h
      exact ⟨r', by rw [List.getElem?_append_left (List.getElem?_eq_some_iff.1 hr').1, hr']⟩

/-- A variable can be written exactly if it has a slot. -/
theorem isSome_write? {env : Env V} {x : String} {v : V} : (env.write? x v).isSome = (slotOf env.names x).isSome := by
  induction env with
  | nil => rfl
  | cons p env ih =>
    obtain ⟨y, r⟩ := p
    rw [write?, names_cons, slotOf]
    split
    · rfl
    · rw [Option.isSome_map, ih]

/-- A variable is read from its slot. -/
theorem Held.read {mem : Memory V} {env : Env V} (h : env.Held mem) {x : String} {v : V} {n : Nat}
    (hx : env.lookup x = some (some v)) (hn : slotOf env.names x = some n) : mem n = some v := by
  induction env with
  | nil => cases hx
  | cons p env ih =>
    obtain ⟨y, r⟩ := p
    rw [List.lookup_cons] at hx
    rw [names_cons, slotOf, length_names] at hn
    by_cases hxy : x = y
    · simp only [hxy, beq_self_eq_true, Option.some.injEq] at hx
      simp only [hxy, if_true, Option.some.injEq] at hn
      exact hn ▸ h.1 v hx
    · simp only [beq_eq_false_iff_ne.2 hxy] at hx
      simp only [hxy, if_false] at hn
      exact ih h.2 hx hn

/-- A write to a variable is a write to its slot. -/
theorem Held.write {mem : Memory V} {env env' : Env V} (h : env.Held mem) {x : String} {v : V} {n : Nat}
    (hx : env.write? x v = some env') (hn : slotOf env.names x = some n) : env'.Held (Function.update mem n (some v)) := by
  induction env generalizing env' with
  | nil => cases hx
  | cons p env ih =>
    obtain ⟨y, r⟩ := p
    rw [write?] at hx
    rw [names_cons, slotOf, length_names] at hn
    by_cases hxy : x = y
    · simp only [hxy, if_true, Option.some.injEq] at hx hn
      subst hx hn
      exact ⟨fun w hw => by simpa using hw, h.2.update_of_le (Nat.le_refl _) _⟩
    · simp only [hxy, if_false] at hx hn
      obtain ⟨env₁, h₁, rfl⟩ := Option.map_eq_some_iff.1 hx
      have hlen : env₁.length = env.length := by
        rw [← length_names, names_write? h₁, length_names]
      have hlt : n < env.length := length_names env ▸ slotOf_lt hn
      refine ⟨fun w hw => ?_, ih h.2 h₁ hn⟩
      rw [hlen, Function.update_of_ne (by omega)]
      exact h.1 w hw

/-- The parameters of a call are in scope, the last one as the latest. -/
theorem names_ofParams {params : List String} {args : List V} (h : args.length = params.length) :
    (ofParams params args).names = params.reverse := by
  unfold ofParams names
  rw [List.map_reverse, List.map_fst_zip (by simp [h])]

/-- The arguments of a call are in the first slots, in order. -/
theorem held_ofParams (params : List String) (args : List V) : (ofParams params args).Held fun slot => args[slot]? := by
  refine held_iff.2 fun slot x v h => ?_
  unfold ofParams at h
  rw [List.reverse_reverse, List.getElem?_zip_eq_some, List.getElem?_map, Option.map_eq_some_iff] at h
  obtain ⟨-, w, hw, hwv⟩ := h
  cases hwv
  exact hw

end Env

/-! ## Places -/

/-- Where the variable of that name is kept. -/
def Frames.locate (n : Frames (List String)) (x : String) : Option Location :=
  match n.inner with
  | some locals => ((slotOf locals x).map .here).or ((slotOf n.global x).map .global)
  | none => (slotOf n.global x).map .here

/-- A new variable is located in the next slot, and the others where they were. -/
theorem Frames.locate_declare (n : Frames (List String)) (x y : String) :
    (n.setTop (x :: n.top)).locate y = if y = x then some (.here n.top.length) else n.locate y := by
  obtain ⟨_ | locals, global⟩ := n
  · simp only [locate, setTop, top, Option.getD_none, slotOf]
    split <;> rfl
  · simp only [locate, setTop, top, Option.getD_some, slotOf]
    split <;> rfl

/-- Each variable of the store that has a value has it in its place in the frames too. -/
structure Store.Kept (frames : Frames (Memory V)) (σ : Store V) : Prop where
  inner : Option.Rel (fun env mem => env.Held mem) σ.inner frames.inner
  global : σ.global.Held frames.global

namespace Store.Kept

variable {σ σ' : Store V} {frames : Frames (Memory V)}

/-- The current environment is held in the current frame. -/
theorem top (h : σ.Kept frames) : Env.Held frames.top (Frames.top σ) := by
  obtain ⟨inner, global⟩ := σ
  obtain ⟨inner', global'⟩ := frames
  obtain ⟨hinner, hglobal⟩ := h
  cases hinner with
  | none => exact hglobal
  | some h => exact h

/-- Another environment may take its place, if it is held in the current frame. -/
theorem setTop (h : σ.Kept frames) {env : Env V} (henv : env.Held frames.top) : Store.Kept frames (σ.setTop env) := by
  obtain ⟨inner, global⟩ := σ
  obtain ⟨inner', global'⟩ := frames
  obtain ⟨hinner, hglobal⟩ := h
  cases hinner with
  | none => exact ⟨.none, henv⟩
  | some h => exact ⟨.some henv, hglobal⟩

theorem declare (h : σ.Kept frames) (x : String) : (σ.declare x).Kept frames :=
  h.setTop ⟨fun _ hv => (nomatch hv), h.top⟩

/-- What goes out of scope is not kept any longer. -/
theorem keep (h : σ.Kept frames) (n : Nat) : (σ.keep n).Kept frames := h.setTop (h.top.drop _)

/-- A variable is read from its place. -/
theorem read (h : σ.Kept frames) {x : String} {v : V} {l : Location} (hx : σ.read x = some v)
    (hl : σ.names.locate x = some l) : frames.read l = some v := by
  obtain ⟨inner, global⟩ := σ
  obtain ⟨inner', global'⟩ := frames
  obtain ⟨hinner, hglobal⟩ := h
  cases hinner with
  | none =>
    obtain ⟨n, hn, rfl⟩ := Option.map_eq_some_iff.1 hl
    exact hglobal.read (by simpa [Store.read, Option.join_eq_some_iff] using hx) hn
  | @some env mem henv =>
    simp only [Frames.locate, Frames.map, Option.map_some] at hl
    simp only [Store.read, Option.bind_some, Option.join_eq_some_iff, Option.or_eq_some_iff] at hx
    cases hn : slotOf env.names x with
    | some n =>
      simp only [hn, Option.map_some, Option.some_or, Option.some.injEq] at hl
      subst hl
      rcases hx with hx | ⟨hx, -⟩
      · exact henv.read hx hn
      · rw [Env.slotOf_eq_none.2 hx] at hn
        cases hn
    | none =>
      simp only [hn, Option.map_none, Option.none_or, Option.map_eq_some_iff] at hl
      obtain ⟨n, hn', rfl⟩ := hl
      rcases hx with hx | ⟨-, hx⟩
      · rw [Env.slotOf_eq_none.1 hn] at hx
        cases hx
      · exact hglobal.read hx hn'

/-- A write to a variable is a write to its place. -/
theorem write (h : σ.Kept frames) {x : String} {v : V} {l : Location} (hx : σ.write? x v = some σ')
    (hl : σ.names.locate x = some l) : σ'.Kept (frames.write v l) := by
  obtain ⟨inner, global⟩ := σ
  obtain ⟨inner', global'⟩ := frames
  obtain ⟨hinner, hglobal⟩ := h
  cases hinner with
  | none =>
    obtain ⟨n, hn, rfl⟩ := Option.map_eq_some_iff.1 hl
    obtain ⟨env', hwrite, rfl⟩ := Option.map_eq_some_iff.1 hx
    exact ⟨.none, hglobal.write hwrite hn⟩
  | @some env mem henv =>
    simp only [Frames.locate, Frames.map, Option.map_some] at hl
    simp only [Store.write?, Option.bind_some] at hx
    cases hwrite : env.write? x v with
    | some env' =>
      obtain ⟨n, hn⟩ : ∃ n, slotOf env.names x = some n := by
        rw [← Option.isSome_iff_exists, ← Env.isSome_write? (v := v), hwrite]
        rfl
      simp only [hn, Option.map_some, Option.some_or, Option.some.injEq] at hl
      simp only [hwrite, Option.some.injEq] at hx
      subst hl hx
      exact ⟨.some (henv.write hwrite hn), hglobal⟩
    | none =>
      have hn : slotOf env.names x = none := by
        rw [← Option.not_isSome_iff_eq_none, ← Env.isSome_write? (v := v), hwrite]
        simp
      simp only [hn, Option.map_none, Option.none_or, Option.map_eq_some_iff] at hl
      simp only [hwrite, Option.map_eq_some_iff] at hx
      obtain ⟨n, hn', rfl⟩ := hl
      obtain ⟨global₁, hwrite', rfl⟩ := hx
      exact ⟨.some henv, hglobal.write hwrite' hn'⟩

end Store.Kept

/-! ## Tables -/

namespace SymbolTable

/-- The table gives each variable in scope the place where it is kept, where these are the names in scope. `globals` are the
variables outside functions, which are all declared before any function. -/
structure Fits (ctx : Context) (globals : List String) (n : Frames (List String)) (t : SymbolTable) : Prop where
  inner : n.inner.isSome = ctx.function.isSome
  nested : ctx.function.isSome → t.nested ≠ []
  located : ∀ x v, t.find? x = some (.storage v) → n.locate x = some (ctx.location v)
  nextSlot : t.current.nextSlot = n.top.length
  global : ctx.function.isSome → n.global = globals

namespace Fits

variable {ctx : Context} {globals : List String} {n : Frames (List String)} {t t' : SymbolTable}

/-- Whether slots have been written does not matter. -/
theorem of_written (h : t.Fits ctx globals n) (ht : t'.written = t.written) : t'.Fits ctx globals n where
  inner := h.inner
  nested hf := by
    have hlen : t'.nested.length = t.nested.length := by
      simpa [written] using congrArg (fun t => t.nested.length) ht
    intro hnil
    rw [hnil] at hlen
    exact h.nested hf (List.eq_nil_of_length_eq_zero hlen.symm)
  located x v hx := by
    obtain ⟨w, hw, -, -, hslot, hscope⟩ := find?_storage_of_written ht hx
    rw [h.located x w hw]
    unfold Context.location Context.isRemote
    rw [hslot, hscope]
  nextSlot := by rw [← nextSlot_current_written, ht, nextSlot_current_written, h.nextSlot]
  global := h.global

/-- Nor does the loop around. -/
theorem of_function (h : t.Fits ctx globals n) {ctx' : Context} (hctx : ctx'.function = ctx.function) :
    t.Fits ctx' globals n where
  inner := hctx ▸ h.inner
  nested hf := h.nested (hctx ▸ hf)
  located x v hx := by
    rw [h.located x v hx]
    unfold Context.location Context.isRemote
    rw [hctx]
  nextSlot := h.nextSlot
  global hf := h.global (hctx ▸ hf)

/-- A block goes on with the slots around it. -/
theorem enterBlock (h : t.Fits ctx globals n) : t.enterBlock.Fits ctx globals n where
  inner := h.inner
  nested _ := List.cons_ne_nil _ _
  located := h.located
  nextSlot := h.nextSlot
  global := h.global

/-- A declared variable is kept in the next slot of the current frame. -/
theorem declare (h : t.Fits ctx globals n) {x : String} {constant : Bool} {ty : Ty} {pos : Position} {v : Variable}
    (hd : t.declare x constant ty pos = .ok (v, t')) : t'.Fits ctx globals (n.setTop (x :: n.top)) := by
  have hfind := find?_declare hd
  obtain ⟨-, hv, rfl⟩ := declare_eq_ok.1 hd
  have hlocal : ctx.isRemote v = false := by
    cases hf : ctx.function with
    | none => simp [Context.isRemote, hf]
    | some ty' =>
      have hnested := h.nested (by rw [hf]; rfl)
      simp [Context.isRemote, hv, scope, hnested]
  refine ⟨?_, fun hf => ?_, fun y w hy => ?_, ?_, fun hf => ?_⟩
  · rw [← h.inner]
    obtain ⟨_ | _, _⟩ := n <;> rfl
  · exact List.length_pos_iff.1 (by simpa using List.length_pos_iff.2 (h.nested hf))
  · rw [hfind] at hy
    rw [Frames.locate_declare]
    by_cases hyx : y = x
    · rw [if_pos hyx] at hy ⊢
      cases hy
      unfold Context.location
      rw [hlocal, if_neg Bool.false_ne_true, hv, h.nextSlot]
    · rw [if_neg hyx] at hy ⊢
      exact h.located y w hy
  · rw [current_setCurrent, Frames.top_setTop, List.length_cons, h.nextSlot]
  · rw [← h.global hf]
    have hinner := h.inner.trans hf
    obtain ⟨_ | _, _⟩ := n
    · cases hinner
    · rfl

/-- Outside functions each variable is in the slot that the table gives it. -/
theorem slotOf_global (h : t.Fits .outermost globals n) {x : String} {v : Variable} (hx : t.find? x = some (.storage v)) :
    slotOf n.global x = some v.slot := by
  have hl := h.located x v hx
  have hlocal : Context.outermost.isRemote v = false := Bool.and_false _
  obtain ⟨_ | locals, global⟩ := n
  · simpa [Frames.locate, Context.location, hlocal] using hl
  · exact nomatch h.inner

end Fits

/-- Every binding of the table, whether hidden or not, is as `ok` says. -/
def All (ok : String → Binding → Prop) (t : SymbolTable) : Prop := ∀ f ∈ t.frames, ∀ x b, f.find? x = some b → ok x b

namespace All

variable {ok : String → Binding → Prop} {t t' : SymbolTable}

theorem of_find? (h : t.All ok) {x : String} {b : Binding} (hx : t.find? x = some b) : ok x b := by
  obtain ⟨f, hf, hfx⟩ := List.exists_of_findSome?_eq_some hx
  exact h f hf x b hfx

theorem mono {ok' : String → Binding → Prop} (h : t.All ok) (hok : ∀ x b, ok x b → ok' x b) : t.All ok' :=
  fun f hf x b hx => hok x b (h f hf x b hx)

/-- Whether slots have been written does not matter, if it does not matter to `ok`. -/
theorem iff_written (hok : ∀ x b, ok x b.markWritten ↔ ok x b) : t.written.All ok ↔ t.All ok := by
  unfold All
  rw [frames_written]
  simp only [List.mem_map, forall_exists_index, and_imp, forall_apply_eq_imp_iff₂, Frame.find?_written, Option.map_eq_some_iff]
  constructor
  · intro h f hf x b hb
    exact (hok x b).1 (h f hf x b hb)
  · intro h f hf x b hb
    exact (hok x b).2 (h f hf x b hb)

/-- So tables that differ only in that agree. -/
theorem of_written (h : t.All ok) (hok : ∀ x b, ok x b.markWritten ↔ ok x b) (ht : t'.written = t.written) : t'.All ok := by
  rw [← iff_written hok, ht, iff_written hok]
  exact h

/-- A declaration adds one variable. -/
theorem declare (h : t.All ok) {x : String} {constant : Bool} {ty : Ty} {pos : Position} {v : Variable}
    (hd : t.declare x constant ty pos = .ok (v, t')) (hv : ok x (.storage v)) : t'.All ok := by
  obtain ⟨-, -, rfl⟩ := declare_eq_ok.1 hd
  intro f hf y b hb
  rw [frames_setCurrent, List.mem_cons] at hf
  rcases hf with rfl | hf
  · have hb' : (t.current.insert x (.storage v)).find? y = some b := hb
    rw [Frame.find?_insert] at hb'
    split at hb'
    · rename_i hxy
      cases hb'
      exact hxy ▸ hv
    · exact h t.current (t.frames_eq_cons ▸ List.mem_cons_self) y b hb'
  · exact h f (List.mem_of_mem_tail hf) y b hb

/-- A scope that is opened holds nothing yet. -/
theorem enter (h : t.All ok) (slot : Nat) : All ok { t with nested := .startingAt slot :: t.nested } := by
  intro f hf x b hb
  rcases List.mem_cons.1 hf with rfl | hf
  · cases hb
  · exact h f hf x b hb

/-- Where nothing is nested, all bindings can be found. -/
theorem of_nested_eq_nil (ht : t.nested = []) (h : ∀ x b, t.find? x = some b → ok x b) : t.All ok := by
  intro f hf x b hb
  unfold frames at hf
  rw [ht, List.nil_append, List.mem_singleton] at hf
  subst hf
  exact h x b (find?_of_nested_eq_nil ht x ▸ hb)

end All

end SymbolTable

/-- What a statement leaves in the table is as `ok` says, if all variables are that have a type that has values and are declared in
the scope of the statement. -/
theorem Stmt.Compiled.all {ok : String → Binding → Prop} (hok : ∀ x b, ok x b.markWritten ↔ ok x b) {ctx : Context} {exit : Nat}
    {t t' : SymbolTable} {base : Nat} {s : Stmt} {code : List CodeLine} (h : Compiled ctx exit t base s code t')
    (hstorage : ∀ x v, v.ty ≠ .void → v.scope = t.scope → ok x (.storage v)) (ht : t.All ok) : t'.All ok := by
  have hdecl : ∀ {t t' : SymbolTable} {x : Ident} {constant : Bool} {ty : Ty} {v : Variable}, ty ≠ .void →
      t.declare x.name constant ty x.pos = .ok (v, t') →
      (∀ x v, v.ty ≠ .void → v.scope = t.scope → ok x (.storage v)) → t.All ok → t'.All ok := by
    intro t t' x constant ty v hty hd hstorage ht
    refine ht.declare hd ?_
    obtain ⟨-, rfl, -⟩ := SymbolTable.declare_eq_ok.1 hd
    exact hstorage _ _ hty rfl
  induction h with
  | nil | empty | leave | again | ret => exact ht
  | seq h _ ih ih' => exact ih' (SymbolTable.scope_of_tail_frames h.tail_frames ▸ hstorage) (ih hstorage ht)
  | decl hty hd => exact hdecl hty hd hstorage ht
  | init hty hd _ hw => exact (hdecl hty hd hstorage ht).of_written hok hw
  | expr _ hw => exact ht.of_written hok hw
  | block h => exact ht.of_written hok h.written_leave
  | ifThen _ _ hw hw' => exact ht.of_written hok (hw'.trans hw)
  | ifElse _ _ hw hw' hw'' => exact ht.of_written hok (hw''.trans (hw'.trans hw))
  | loop _ _ hw hw' => exact ht.of_written hok (hw'.trans hw)
  | retValue _ hw => exact ht.of_written hok hw

end C0Stack
