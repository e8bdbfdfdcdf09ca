import C0Stack.Proofs.Static.Scopes

/-!
# Declarations by depth

The open scopes are numbered from the outermost one, which has depth zero, so that a scope keeps its number while others are opened
and closed inside it. `SymbolTable.declared?` gives what the scope at a depth declares a name to be. A name stands for what the
deepest scope that declares it says (`SymbolTable.find?_eq_some`), and a write is noted there (`SymbolTable.declared?_markWritten`).
-/

namespace C0Stack

namespace SymbolTable

/-- The frame of the open scope at the depth. -/
def frameAt? (t : SymbolTable) (d : Nat) : Option Frame := t.frames.reverse[d]?

/-- What the frame at the depth, counted from the last one, declares the name to be. -/
def declaredIn? (fs : List Frame) (d : Nat) (x : String) : Option Binding := fs.reverse[d]?.bind fun f => f.find? x

/-- What the open scope at the depth declares the name to be. -/
def declared? (t : SymbolTable) (d : Nat) (x : String) : Option Binding := declaredIn? t.frames d x

/-- Counted from the last, the first frame of a list comes at the end. -/
theorem getElem?_reverse_cons (f : Frame) (fs : List Frame) (d : Nat) :
    (f :: fs).reverse[d]? = if d = fs.length then some f else fs.reverse[d]? := by
  rw [List.reverse_cons]
  split
  · rename_i hd
    rw [hd, ← List.length_reverse, List.getElem?_concat_length]
  · rename_i hd
    rcases Nat.lt_or_gt_of_ne hd with hlt | hgt
    · rw [List.getElem?_append_left (by simpa using hlt)]
    · rw [List.getElem?_eq_none (by simp; omega), List.getElem?_eq_none (by simp; omega)]

/-- The first frame of a list declares at the depth that is the number of the others. -/
theorem declaredIn?_cons (f : Frame) (fs : List Frame) (d : Nat) (x : String) :
    declaredIn? (f :: fs) d x = if d = fs.length then f.find? x else declaredIn? fs d x := by
  unfold declaredIn?
  rw [getElem?_reverse_cons]
  split <;> rfl

/-- A declaration is at a depth below the number of frames. -/
theorem lt_length_of_declaredIn? {fs : List Frame} {d : Nat} {x : String} {b : Binding} (h : declaredIn? fs d x = some b) :
    d < fs.length := by
  obtain ⟨f, hf, -⟩ := Option.bind_eq_some_iff.1 h
  simpa using (List.getElem?_eq_some_iff.1 hf).1

theorem declaredIn?_eq_none {fs : List Frame} {d : Nat} (h : fs.length ≤ d) (x : String) : declaredIn? fs d x = none := by
  unfold declaredIn?
  rw [List.getElem?_eq_none (by simpa using h)]
  rfl

/-- There is one frame more than the depth. -/
theorem length_frames (t : SymbolTable) : t.frames.length = t.depth + 1 := List.length_append

/-- Around the innermost frame there are as many as the depth. -/
theorem length_tail_frames (t : SymbolTable) : t.frames.tail.length = t.depth := by
  rw [List.length_tail, length_frames, Nat.add_sub_cancel]

/-- The innermost frame is the one at the depth of the table. -/
theorem frameAt?_depth (t : SymbolTable) : t.frameAt? t.depth = some t.current := by
  unfold frameAt?
  rw [frames_eq_cons, getElem?_reverse_cons, if_pos t.length_tail_frames.symm]

/-- Beyond the depth of the table there is no frame. -/
theorem frameAt?_eq_none {t : SymbolTable} {d : Nat} (h : t.depth < d) : t.frameAt? d = none :=
  List.getElem?_eq_none (by rw [List.length_reverse, length_frames]; exact h)

/-- Up to the depth of the table there is one. -/
theorem exists_frameAt? {t : SymbolTable} {d : Nat} (h : d ≤ t.depth) : ∃ f, t.frameAt? d = some f :=
  ⟨_, List.getElem?_eq_getElem (by rw [List.length_reverse, length_frames]; exact Nat.lt_succ_of_le h)⟩

/-- What is declared at a depth is found in the frame there. -/
theorem declared?_eq_find? {t : SymbolTable} {d : Nat} {f : Frame} (h : t.frameAt? d = some f) (x : String) :
    t.declared? d x = f.find? x := by
  unfold declared? declaredIn?
  unfold frameAt? at h
  rw [h, Option.bind_some]

/-- A frame is at most at the depth of the table. -/
theorem le_depth_of_frameAt? {t : SymbolTable} {d : Nat} {f : Frame} (h : t.frameAt? d = some f) : d ≤ t.depth := by
  by_contra hd
  rw [frameAt?_eq_none (Nat.lt_of_not_le hd)] at h
  cases h

/-- So is what is declared. -/
theorem le_depth_of_declared? {t : SymbolTable} {d : Nat} {x : String} {b : Binding} (h : t.declared? d x = some b) :
    d ≤ t.depth := by
  have hlt := lt_length_of_declaredIn? h
  rw [length_frames] at hlt
  exact Nat.le_of_lt_succ hlt

/-- At the depth of the table is declared what the innermost frame holds. -/
theorem declared?_depth (t : SymbolTable) (x : String) : t.declared? t.depth x = t.current.find? x := by
  unfold declared?
  rw [frames_eq_cons, declaredIn?_cons, if_pos t.length_tail_frames.symm]

@[simp] theorem declared?_empty (d : Nat) (x : String) : empty.declared? d x = none := by
  cases d <;> rfl

/-! ## Opening and closing a scope -/

/-- A frame that is opened is one deeper than the others, which stay where they are. -/
theorem frameAt?_enter (t : SymbolTable) (f : Frame) (d : Nat) :
    ({ t with nested := f :: t.nested } : SymbolTable).frameAt? d = if d = t.depth + 1 then some f else t.frameAt? d := by
  have hframes : ({ t with nested := f :: t.nested } : SymbolTable).frames = f :: t.frames := rfl
  unfold frameAt?
  rw [hframes, getElem?_reverse_cons, length_frames]

/-- A scope that is opened declares nothing yet. -/
theorem declared?_enter (t : SymbolTable) (slot d : Nat) (x : String) :
    ({ t with nested := .startingAt slot :: t.nested } : SymbolTable).declared? d x = t.declared? d x := by
  have hframes : ({ t with nested := .startingAt slot :: t.nested } : SymbolTable).frames = .startingAt slot :: t.frames := rfl
  unfold declared?
  rw [hframes, declaredIn?_cons]
  split
  · rename_i hd
    exact (declaredIn?_eq_none (Nat.le_of_eq hd.symm) x).symm
  · rfl

/-- What the innermost scope declares is gone when it is closed. -/
theorem declared?_leave {t : SymbolTable} (h : t.nested ≠ []) (d : Nat) (x : String) :
    t.leave.declared? d x = if d = t.depth then none else t.declared? d x := by
  obtain ⟨nested, outermost⟩ := t
  cases nested with
  | nil => exact absurd rfl h
  | cons f fs =>
    have hframes : (leave ⟨f :: fs, outermost⟩).frames = (⟨fs, outermost⟩ : SymbolTable).frames := rfl
    have hframes' : (⟨f :: fs, outermost⟩ : SymbolTable).frames = f :: (⟨fs, outermost⟩ : SymbolTable).frames := rfl
    have hdepth : depth ⟨f :: fs, outermost⟩ = (⟨fs, outermost⟩ : SymbolTable).frames.length := (length_frames ⟨fs, outermost⟩).symm
    unfold declared?
    rw [hframes, hframes', hdepth, declaredIn?_cons]
    split
    · rename_i hd
      exact declaredIn?_eq_none (Nat.le_of_eq hd.symm) x
    · rfl

/-- The scopes that stay open keep their frames. -/
theorem frameAt?_of_leave {t : SymbolTable} {d : Nat} {f : Frame} (h : t.leave.frameAt? d = some f) : t.frameAt? d = some f := by
  obtain ⟨nested, outermost⟩ := t
  cases nested with
  | nil => exact h
  | cons g gs =>
    have hlt := le_depth_of_frameAt? h
    have hd : d ≠ depth ⟨gs, outermost⟩ + 1 := Nat.ne_of_lt (Nat.lt_succ_of_le hlt)
    rw [frameAt?_enter ⟨gs, outermost⟩, if_neg hd]
    exact h

/-! ## Declaring -/

@[simp] theorem depth_setCurrent (t : SymbolTable) (f : Frame) : (t.setCurrent f).depth = t.depth := length_nested_setCurrent t f

/-- Putting in the innermost frame leaves the frames at the other depths. -/
theorem frameAt?_setCurrent (t : SymbolTable) (f : Frame) (d : Nat) :
    (t.setCurrent f).frameAt? d = if d = t.depth then some f else t.frameAt? d := by
  unfold frameAt?
  rw [frames_setCurrent, getElem?_reverse_cons, length_tail_frames]
  split
  · rfl
  · rename_i hd
    rw [frames_eq_cons t, List.tail_cons, getElem?_reverse_cons, length_tail_frames, if_neg hd]

section

variable {t t' : SymbolTable} {x : String} {constant : Bool} {ty : Ty} {pos : Position} {v : Variable}

theorem depth_declare (h : t.declare x constant ty pos = .ok (v, t')) : t'.depth = t.depth := by
  obtain ⟨-, -, rfl⟩ := declare_eq_ok.1 h
  exact depth_setCurrent ..

/-- Of the frames only the innermost one changes when a variable is declared, and there one more slot is taken. -/
theorem exists_frameAt?_of_declare (h : t.declare x constant ty pos = .ok (v, t')) {d : Nat} {f : Frame}
    (hf : t'.frameAt? d = some f) :
    ∃ g, t.frameAt? d = some g ∧ f.nextSlot = if d = t.depth then g.nextSlot + 1 else g.nextSlot := by
  obtain ⟨-, -, rfl⟩ := declare_eq_ok.1 h
  rw [frameAt?_setCurrent] at hf
  split at hf
  · rename_i hd
    cases hf
    exact ⟨t.current, hd ▸ t.frameAt?_depth, (if_pos hd).symm⟩
  · rename_i hd
    exact ⟨f, hf, (if_neg hd).symm⟩

/-- A declaration adds the variable to the innermost scope. -/
theorem declared?_declare (h : t.declare x constant ty pos = .ok (v, t')) (d : Nat) (y : String) :
    t'.declared? d y = if d = t.depth ∧ y = x then some (.storage v) else t.declared? d y := by
  obtain ⟨-, -, rfl⟩ := declare_eq_ok.1 h
  have hins : ({ t.current.insert x (.storage v) with nextSlot := t.current.nextSlot + 1 } : Frame).find? y =
      if y = x then some (.storage v) else t.current.find? y := Frame.find?_insert t.current x y _
  unfold declared?
  rw [frames_setCurrent, declaredIn?_cons, length_tail_frames, hins, frames_eq_cons t, List.tail_cons, declaredIn?_cons,
    length_tail_frames]
  by_cases hd : d = t.depth <;> simp [hd]

/-- A name that is declared was not declared at that depth before. -/
theorem declared?_eq_none_of_declare (h : t.declare x constant ty pos = .ok (v, t')) : t.declared? t.depth x = none := by
  rw [declared?_depth]
  exact (declare_eq_ok.1 h).1

end

/-- A function is declared in the outermost scope. -/
theorem declared?_withFunction (t : SymbolTable) (x : String) (f : Signature) (d : Nat) (y : String) :
    (t.withFunction x f).declared? d y = if d = 0 ∧ y = x then some (.function f) else t.declared? d y := by
  obtain ⟨nested, outermost⟩ := t
  unfold declared? declaredIn? withFunction frames
  rw [List.reverse_append, List.reverse_append]
  cases d with
  | zero =>
    change (outermost.insert x _).find? y = if 0 = 0 ∧ y = x then _ else outermost.find? y
    rw [Frame.find?_insert]
    simp
  | succ d => simp

/-- A function takes no slot. -/
theorem exists_frameAt?_of_withFunction {t : SymbolTable} {x : String} {g : Signature} {d : Nat} {f : Frame}
    (h : (t.withFunction x g).frameAt? d = some f) : ∃ f', t.frameAt? d = some f' ∧ f.nextSlot = f'.nextSlot := by
  unfold frameAt? withFunction frames at h
  rw [List.reverse_append] at h
  unfold frameAt? frames
  rw [List.reverse_append]
  cases d with
  | zero =>
    cases h
    exact ⟨t.outermost, rfl, rfl⟩
  | succ d => exact ⟨f, h, rfl⟩

/-! ## Looking up -/

/-- A name stands for what the deepest scope says that declares it. -/
theorem find?_eq_some {t : SymbolTable} {x : String} {b : Binding} :
    t.find? x = some b ↔ ∃ d, t.declared? d x = some b ∧ ∀ d', d < d' → t.declared? d' x = none := by
  unfold find? declared?
  induction t.frames with
  | nil => simp [declaredIn?]
  | cons f fs ih =>
    simp only [List.findSome?_cons, declaredIn?_cons]
    cases hf : f.find? x with
    | some b' =>
      constructor
      · intro hb
        refine ⟨fs.length, by rw [if_pos rfl]; exact hb, fun d' hd' => ?_⟩
        rw [if_neg (by omega), declaredIn?_eq_none (Nat.le_of_lt hd')]
      · rintro ⟨d, hd, hdeep⟩
        split at hd
        · exact hd
        · have hlt := lt_length_of_declaredIn? hd
          have hnone := hdeep _ hlt
          rw [if_pos rfl] at hnone
          cases hnone
    | none =>
      have hsame : ∀ d, (if d = fs.length then none else declaredIn? fs d x) = declaredIn? fs d x := by
        intro d
        split
        · rename_i hd
          exact (declaredIn?_eq_none (Nat.le_of_eq hd.symm) x).symm
        · rfl
      simp only [hsame]
      exact ih

/-! ## Noting a write -/

/-- Taking every slot as written is done at each depth. -/
theorem frameAt?_written (t : SymbolTable) (d : Nat) : t.written.frameAt? d = (t.frameAt? d).map Frame.written := by
  unfold frameAt?
  rw [frames_written, ← List.map_reverse, List.getElem?_map]

/-- With every slot written, the same is declared, with its write noted. -/
theorem declared?_written (t : SymbolTable) (d : Nat) (x : String) :
    t.written.declared? d x = (t.declared? d x).map Binding.markWritten := by
  unfold declared? declaredIn?
  rw [frames_written, ← List.map_reverse, List.getElem?_map]
  cases t.frames.reverse[d]? with
  | none => rfl
  | some f => exact Frame.find?_written f x

/-- Tables that differ only in what has been written declare the same variables. -/
theorem declared?_storage_of_written {t t' : SymbolTable} (h : t'.written = t.written) {d : Nat} {x : String} {v : Variable}
    (hx : t.declared? d x = some (.storage v)) : ∃ flag, t'.declared? d x = some (.storage { v with initialized := flag }) := by
  have hw := declared?_written t' d x
  rw [h, declared?_written, hx, Option.map_some] at hw
  obtain ⟨b, hb, hmark⟩ := Option.map_eq_some_iff.1 hw.symm
  cases b with
  | storage w =>
    simp only [Binding.markWritten, Binding.storage.injEq, Variable.mk.injEq] at hmark
    obtain ⟨hty, hconstant, hslot, hscope, -⟩ := hmark
    refine ⟨w.initialized, hb.trans ?_⟩
    rw [← hty, ← hconstant, ← hslot, ← hscope]
  | function f => cases hmark

/-- What has been written does not matter to the next free slot at any depth. -/
theorem nextSlot_of_written {t t' : SymbolTable} (h : t'.written = t.written) {d : Nat} {f : Frame} (hf : t'.frameAt? d = some f) :
    ∃ g, t.frameAt? d = some g ∧ f.nextSlot = g.nextSlot := by
  have hw := frameAt?_written t' d
  rw [h, frameAt?_written, hf, Option.map_some, Option.map_eq_some_iff] at hw
  obtain ⟨g, hg, hwritten⟩ := hw
  exact ⟨g, hg, (congrArg Frame.nextSlot hwritten).symm⟩

/-- What has been written does not matter to the depth. -/
theorem depth_of_written {t t' : SymbolTable} (h : t'.written = t.written) : t'.depth = t.depth := by
  simpa [written, depth] using congrArg (fun t => t.nested.length) h

/-- A write is noted at the deepest declaration of the name, and nowhere else. -/
theorem declaredIn?_markFirst? {x : String} {fs fs' : List Frame} (h : markFirst? x fs = some fs') :
    ∃ d b, declaredIn? fs d x = some b ∧ (∀ d', d < d' → declaredIn? fs d' x = none) ∧
      ∀ d' y, declaredIn? fs' d' y = if d' = d ∧ y = x then some b.markWritten else declaredIn? fs d' y := by
  induction fs generalizing fs' with
  | nil => cases h
  | cons f fs ih =>
    rw [markFirst?] at h
    cases hf : f.find? x with
    | some b =>
      simp only [hf, Option.some.injEq] at h
      subst h
      refine ⟨fs.length, b, ?_, fun d' hd' => ?_, fun d' y => ?_⟩
      · rw [declaredIn?_cons, if_pos rfl, hf]
      · rw [declaredIn?_cons, if_neg (by omega), declaredIn?_eq_none (Nat.le_of_lt hd')]
      · rw [declaredIn?_cons, declaredIn?_cons, Frame.find?_markWritten]
        by_cases hd' : d' = fs.length
        · by_cases hy : y = x <;> simp [hd', hy, hf]
        · simp [hd']
    | none =>
      simp only [hf, Option.map_eq_some_iff] at h
      obtain ⟨gs, hgs, rfl⟩ := h
      have hlength : gs.length = fs.length := by
        simpa using congrArg List.length (map_written_markFirst? hgs)
      obtain ⟨d, b, hb, hdeep, hmark⟩ := ih hgs
      have hlt := lt_length_of_declaredIn? hb
      refine ⟨d, b, ?_, fun d' hd' => ?_, fun d' y => ?_⟩
      · rw [declaredIn?_cons, if_neg (Nat.ne_of_lt hlt), hb]
      · rw [declaredIn?_cons, hf, hdeep d' hd', ite_self]
      · rw [declaredIn?_cons, declaredIn?_cons, hlength, hmark]
        by_cases hd' : d' = fs.length
        · rw [if_pos hd', if_pos hd', if_neg (by omega)]
        · rw [if_neg hd', if_neg hd']

/-- A write is noted at the declaration that the name stands for. -/
theorem declared?_markWritten {t t' : SymbolTable} {x : String} {pos : Position} (h : t.markWritten x pos = .ok t') :
    ∃ d b, t.declared? d x = some b ∧ (∀ d', d < d' → t.declared? d' x = none) ∧
      ∀ d' y, t'.declared? d' y = if d' = d ∧ y = x then some b.markWritten else t.declared? d' y :=
  declaredIn?_markFirst? (markWritten_eq_ok.1 h)

end SymbolTable

end C0Stack
