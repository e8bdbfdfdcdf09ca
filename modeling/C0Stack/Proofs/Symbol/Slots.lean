import C0Stack.Proofs.Symbol.History

/-!
# The slots that a table hands out

After any operations the variables of an open scope have consecutive slots, in the order in which they were declared. A block starts
where the scope around it stands, and that scope hands out no slot while the block is open; a function starts at zero. So in the
scopes from that of a function, or from the outermost one, up to the next function no two variables have the same slot
(`SymbolTable.slots_apart`).
-/

namespace C0Stack

namespace SymbolTable

/-- The operation of number `k` has opened the scope at depth `d`, which is still open. -/
def OpenedBy (as : List Action) (k d : Nat) (a : Action) : Prop :=
  as[k]? = some a ∧ d = depthAfter (as.take k) + 1 ∧ OpenSince as k d

/-- The open scope at the depth is that of a function. -/
def FunctionScope (as : List Action) (d : Nat) : Prop := ∃ k, OpenedBy as k d .enterFunction

/-- The scope at depth `d'` is the one at depth `d`, or is inside it with no scope of a function between. -/
def SameRun (as : List Action) (d d' : Nat) : Prop := d ≤ d' ∧ ∀ e, d < e → e ≤ d' → ¬ FunctionScope as e

/-- The first slot of the open scope at the depth: zero for the outermost one and for a function, and for a block the one that came
next in the scope around it when it was opened. -/
inductive Starts (as : List Action) : Nat → Nat → Prop
  | outermost : Starts as 0 0
  | function {k d : Nat} : OpenedBy as k d .enterFunction → Starts as d 0
  | block {k d : Nat} : OpenedBy as k d .enterBlock → Starts as d (after (as.take k)).current.nextSlot

/-- The variables of the open scope at the depth are those of the declarations of the given numbers, in this order, and have
consecutive slots. -/
structure Filled (as : List Action) (d : Nat) (f : Frame) (start : Nat) (is : List Nat) : Prop where
  starts : Starts as d start
  sorted : is.Pairwise (· < ·)
  mem_iff : ∀ i, i ∈ is ↔ ∃ x v, Holds as i d x (.storage v)
  slot_eq : ∀ n i x v, is[n]? = some i → Declares as i d x (.storage v) → v.slot = start + n
  nextSlot_eq : f.nextSlot = start + is.length

/-! ## One operation -/

/-- What an operation does to the frame at a depth, `f` being the frame behind it. -/
inductive FrameStep (t : SymbolTable) (a : Action) (d : Nat) (f : Frame) : Prop
  | block : a = .enterBlock → d = t.depth + 1 → f.nextSlot = t.current.nextSlot → FrameStep t a d f
  | function : a = .enterFunction → d = t.depth + 1 → f.nextSlot = 0 → FrameStep t a d f
  | taken {g : Frame} {x : String} {v : Variable} : t.frameAt? d = some g → a.Adds t d x (.storage v) → d = t.depth →
      v.slot = g.nextSlot → f.nextSlot = g.nextSlot + 1 → FrameStep t a d f
  | kept {g : Frame} : t.frameAt? d = some g → (∀ x v, ¬ a.Adds t d x (.storage v)) → f.nextSlot = g.nextSlot → FrameStep t a d f

/-- Every operation does one of these to the frame at a depth. -/
theorem frameStep {t : SymbolTable} {a : Action} {d : Nat} {f : Frame} (h : (a.next t).frameAt? d = some f) : FrameStep t a d f := by
  generalize ht : a.next t = t' at h
  cases ht ▸ a.effect t with
  | enterBlock =>
    have hf := (frameAt?_enter t _ d).symm.trans h
    split at hf
    · rename_i hd
      cases hf
      exact .block rfl hd rfl
    · exact .kept hf nofun rfl
  | enterFunction =>
    have hf := (frameAt?_enter t _ d).symm.trans h
    split at hf
    · rename_i hd
      cases hf
      exact .function rfl hd rfl
    · exact .kept hf nofun rfl
  | leave => exact .kept (frameAt?_of_leave h) nofun rfl
  | @declare x constant ty pos v t' hdeclare =>
    have hperform : (Action.declare x constant ty pos).perform t = .ok (some (.storage v), t') := map_eq_ok.2 ⟨_, hdeclare, rfl⟩
    obtain ⟨g, hg, hnext⟩ := exists_frameAt?_of_declare hdeclare h
    by_cases hd : d = t.depth
    · rw [if_pos hd] at hnext
      refine .taken hg ((Action.adds_iff_of_ok hperform).2 ⟨rfl, rfl, hd⟩) hd ?_ hnext
      rw [hd, frameAt?_depth] at hg
      cases hg
      obtain ⟨-, rfl, -⟩ := declare_eq_ok.1 hdeclare
      rfl
    · rw [if_neg hd] at hnext
      refine .kept hg (fun y w hadds => ?_) hnext
      obtain ⟨-, -, hd'⟩ := (Action.adds_iff_of_ok hperform).1 hadds
      exact hd hd'
  | @declareFunction x g pos t' hdeclare =>
    have hperform : (Action.declareFunction x g pos).perform t = .ok (some (.function g), t') := map_eq_ok.2 ⟨_, hdeclare, rfl⟩
    obtain ⟨-, rfl⟩ := declareFunction_eq_ok.1 hdeclare
    obtain ⟨f', hf', hnext⟩ := exists_frameAt?_of_withFunction h
    refine .kept hf' (fun y w hadds => ?_) hnext
    obtain ⟨-, hb, -⟩ := (Action.adds_iff_of_ok hperform).1 hadds
    cases hb
  | markWritten hmark =>
    obtain ⟨g, hg, hnext⟩ := nextSlot_of_written (written_markWritten hmark) h
    exact .kept hg nofun hnext
  | lookup => exact .kept h (by rintro x v ⟨_, ⟨⟩, -⟩) rfl
  | refused herror =>
    refine .kept h ?_ rfl
    rintro x v ⟨t', -, hok, -⟩
    rw [herror] at hok
    cases hok

/-! ## One operation more -/

section

variable {as : List Action} {a : Action} {d : Nat}

/-- A declaration in effect is in an open scope. -/
theorem Holds.le {i : Nat} {x : String} {b : Binding} (h : Holds as i d x b) : d ≤ depthAfter as := by
  have hd := h.2 as.length h.1.lt (Nat.le_refl _)
  rwa [List.take_length] at hd

/-- After one operation more a scope is open if it was and the depth has not fallen below it, or if the operation opens it. -/
theorem openedBy_concat {k : Nat} {c : Action} : OpenedBy (as ++ [a]) k d c ↔
    OpenedBy as k d c ∧ d ≤ a.deepen (depthAfter as) ∨
      k = as.length ∧ a = c ∧ d = depthAfter as + 1 ∧ d ≤ a.deepen (depthAfter as) := by
  unfold OpenedBy
  rcases Nat.lt_trichotomy k as.length with hk | rfl | hk
  · rw [List.getElem?_append_left hk, List.take_append_of_le_length (Nat.le_of_lt hk), openSince_concat hk]
    constructor
    · rintro ⟨hc, hd, hopen, hle⟩
      exact .inl ⟨⟨hc, hd, hopen⟩, hle⟩
    · rintro (⟨⟨hc, hd, hopen⟩, hle⟩ | ⟨rfl, -⟩)
      · exact ⟨hc, hd, hopen, hle⟩
      · exact absurd hk (Nat.lt_irrefl _)
  · rw [List.getElem?_concat_length, List.take_left' rfl, openSince_last]
    constructor
    · rintro ⟨⟨⟩, hd, hle⟩
      exact .inr ⟨rfl, rfl, hd, hle⟩
    · rintro (⟨⟨hc, -⟩, -⟩ | ⟨-, rfl, hd, hle⟩)
      · rw [List.getElem?_eq_none (Nat.le_refl _)] at hc
        cases hc
      · exact ⟨rfl, hd, hle⟩
  · rw [List.getElem?_eq_none (by simpa using Nat.succ_le_of_lt hk), List.getElem?_eq_none (Nat.le_of_lt hk)]
    constructor
    · rintro ⟨⟨⟩, -⟩
    · rintro (⟨⟨⟨⟩, -⟩, -⟩ | ⟨rfl, -⟩)
      exact absurd hk (Nat.lt_irrefl _)

/-- A scope that stays open keeps its first slot. -/
theorem Starts.concat {start : Nat} (h : Starts as d start) (hd : d ≤ a.deepen (depthAfter as)) : Starts (as ++ [a]) d start := by
  cases h with
  | outermost => exact .outermost
  | function hopened => exact .function (openedBy_concat.2 (.inl ⟨hopened, hd⟩))
  | @block k _ hopened =>
    have hk := (List.getElem?_eq_some_iff.1 hopened.1).1
    have hstarts : Starts (as ++ [a]) d _ := .block (openedBy_concat.2 (.inl ⟨hopened, hd⟩))
    rwa [List.take_append_of_le_length (Nat.le_of_lt hk)] at hstarts

/-- What the operations say of the slots, of each open scope and of each block and the scope around it. -/
structure Allotted (as : List Action) : Prop where
  filled : ∀ d f, (after as).frameAt? d = some f → ∃ start is, Filled as d f start is
  resumes : ∀ k d f, OpenedBy as k (d + 1) .enterBlock → (after as).frameAt? d = some f →
    (after (as.take k)).current.nextSlot = f.nextSlot

/-- Where an operation adds no variable to a scope, its slots stay as they are. -/
theorem Filled.concat_kept {f g : Frame} {start : Nat} {is : List Nat} (h : Filled as d g start is)
    (hd : d ≤ a.deepen (depthAfter as)) (hadds : ∀ x v, ¬ a.Adds (after as) d x (.storage v)) (hf : f.nextSlot = g.nextSlot) :
    Filled (as ++ [a]) d f start is where
  starts := h.starts.concat hd
  sorted := h.sorted
  mem_iff i := by
    rw [h.mem_iff]
    refine exists_congr fun x => exists_congr fun v => ?_
    rw [holds_concat]
    constructor
    · exact fun hholds => .inl ⟨hholds, hd⟩
    · rintro (⟨hholds, -⟩ | ⟨-, hnew⟩)
      · exact hholds
      · exact (hadds x v hnew).elim
  slot_eq n i x v hn hdeclares := by
    rcases declares_concat.1 hdeclares with hdeclares | ⟨-, hnew⟩
    · exact h.slot_eq n i x v hn hdeclares
    · exact (hadds x v hnew).elim
  nextSlot_eq := hf.trans h.nextSlot_eq

/-- A variable that an operation adds to a scope takes the next slot. -/
theorem Filled.concat_taken {f g : Frame} {start : Nat} {is : List Nat} (h : Filled as d g start is)
    (hd : d ≤ a.deepen (depthAfter as)) {x : String} {v : Variable} (hadds : a.Adds (after as) d x (.storage v))
    (hslot : v.slot = g.nextSlot) (hf : f.nextSlot = g.nextSlot + 1) : Filled (as ++ [a]) d f start (is ++ [as.length]) where
  starts := h.starts.concat hd
  sorted := by
    refine List.pairwise_append.2 ⟨h.sorted, List.pairwise_singleton _ _, fun i hi j hj => ?_⟩
    obtain ⟨y, w, hholds⟩ := (h.mem_iff i).1 hi
    rw [List.mem_singleton.1 hj]
    exact hholds.1.lt
  mem_iff i := by
    rw [List.mem_append, List.mem_singleton, h.mem_iff]
    constructor
    · rintro (⟨y, w, hholds⟩ | rfl)
      · exact ⟨y, w, holds_concat.2 (.inl ⟨hholds, hd⟩)⟩
      · exact ⟨x, v, holds_concat.2 (.inr ⟨rfl, hadds⟩)⟩
    · rintro ⟨y, w, hholds⟩
      rcases holds_concat.1 hholds with ⟨hholds, -⟩ | ⟨rfl, -⟩
      · exact .inl ⟨y, w, hholds⟩
      · exact .inr rfl
  slot_eq n i y w hn hdeclares := by
    rcases declares_concat.1 hdeclares with hdeclares | ⟨rfl, hadds'⟩
    · rcases Nat.lt_or_ge n is.length with hlt | hge
      · rw [List.getElem?_append_left hlt] at hn
        exact h.slot_eq n i y w hn hdeclares
      · rw [List.getElem?_append_right hge] at hn
        obtain rfl := List.mem_singleton.1 (List.mem_of_getElem? hn)
        exact absurd hdeclares.lt (Nat.lt_irrefl _)
    · have hn' : n = is.length := by
        rcases Nat.lt_or_ge n is.length with hlt | hge
        · rw [List.getElem?_append_left hlt] at hn
          obtain ⟨_, _, hholds⟩ := (h.mem_iff _).1 (List.mem_of_getElem? hn)
          exact absurd hholds.1.lt (Nat.lt_irrefl _)
        · have hlt := (List.getElem?_eq_some_iff.1 hn).1
          rw [List.length_append, List.length_singleton] at hlt
          exact Nat.le_antisymm (Nat.le_of_lt_succ hlt) hge
      have hsame : w = v := by
        obtain ⟨_, -, hok, -⟩ := hadds
        obtain ⟨_, -, hok', -⟩ := hadds'
        rw [hok] at hok'
        cases hok'
        rfl
      rw [hsame, hslot, h.nextSlot_eq, hn']
  nextSlot_eq := by rw [hf, h.nextSlot_eq, List.length_append, List.length_singleton, Nat.add_assoc]

/-- What the operations say of the slots still holds after one more. -/
theorem Allotted.concat (h : Allotted as) (a : Action) : Allotted (as ++ [a]) where
  filled d f hf := by
    rw [after_concat] at hf
    have hd : d ≤ a.deepen (depthAfter as) := by
      rw [← depth_after, ← depth_next]
      exact le_depth_of_frameAt? hf
    have hempty : d = (after as).depth + 1 → (∀ x v, ¬ a.Adds (after as) d x (.storage v)) →
        ∀ i, i ∈ ([] : List Nat) ↔ ∃ x v, Holds (as ++ [a]) i d x (.storage v) := by
      intro hdepth hadds i
      refine iff_of_false (List.not_mem_nil) ?_
      rintro ⟨x, v, hholds⟩
      rcases holds_concat.1 hholds with ⟨hholds, -⟩ | ⟨-, hnew⟩
      · have hle := hholds.le
        rw [hdepth, depth_after] at hle
        exact absurd hle (Nat.not_succ_le_self _)
      · exact hadds x v hnew
    cases frameStep hf with
    | block ha hdepth hnext =>
      subst ha
      have hstarts : Starts (as ++ [.enterBlock]) d _ :=
        .block (openedBy_concat.2 (.inr ⟨rfl, rfl, depth_after as ▸ hdepth, hd⟩))
      rw [List.take_left' rfl, ← hnext] at hstarts
      exact ⟨_, [], hstarts, .nil, hempty hdepth nofun, nofun, rfl⟩
    | function ha hdepth hnext =>
      subst ha
      have hstarts : Starts (as ++ [.enterFunction]) d 0 :=
        .function (openedBy_concat.2 (.inr ⟨rfl, rfl, depth_after as ▸ hdepth, hd⟩))
      exact ⟨0, [], hstarts, .nil, hempty hdepth nofun, nofun, hnext⟩
    | taken hg hadds _ hslot hnext =>
      obtain ⟨start, is, hfilled⟩ := h.filled d _ hg
      exact ⟨start, _, hfilled.concat_taken hd hadds hslot hnext⟩
    | kept hg hadds hnext =>
      obtain ⟨start, is, hfilled⟩ := h.filled d _ hg
      exact ⟨start, is, hfilled.concat_kept hd hadds hnext⟩
  resumes k d f hopened hf := by
    rw [after_concat] at hf
    rcases openedBy_concat.1 hopened with ⟨hopened, hle⟩ | ⟨rfl, rfl, hd, -⟩
    · have hk := (List.getElem?_eq_some_iff.1 hopened.1).1
      have hdepth : d + 1 ≤ depthAfter as := by
        have hopen := hopened.2.2 as.length hk (Nat.le_refl _)
        rwa [List.take_length] at hopen
      rw [← depth_after] at hdepth
      rw [List.take_append_of_le_length (Nat.le_of_lt hk)]
      cases frameStep hf with
      | block _ hd | function _ hd | taken _ _ hd => omega
      | kept hg _ hnext => rw [hnext, h.resumes k d _ hopened hg]
    · rw [List.take_left' rfl]
      have hd : d = (after as).depth := by rw [depth_after]; exact Nat.succ.inj hd
      cases frameStep hf with
      | function ha => cases ha
      | block _ hd' => omega
      | taken _ hadds =>
        obtain ⟨_, ⟨⟩, -⟩ := hadds
      | kept hg _ hnext =>
        rw [hd, frameAt?_depth] at hg
        cases hg
        exact hnext.symm

/-- So it holds after any operations. -/
theorem allotted (as : List Action) : Allotted as := by
  induction as using List.reverseRecOn with
  | nil =>
    refine ⟨fun d f hf => ?_, fun k d f hopened => ?_⟩
    · have hd : d = 0 := Nat.le_zero.1 (le_depth_of_frameAt? hf)
      subst hd
      cases hf
      refine ⟨0, [], .outermost, .nil, fun i => iff_of_false List.not_mem_nil ?_, nofun, rfl⟩
      rintro ⟨x, v, h, -⟩
      exact absurd h.lt (Nat.not_lt_zero _)
    · cases hopened.1
  | append_singleton as a ih => exact ih.concat a

end

/-! ## Scopes inside each other -/

section

variable {as : List Action} {d d' : Nat}

/-- The variables of a table have the slots with which they were declared. -/
theorem exists_variable_iff {x : String} {n : Nat} :
    (∃ w, (after as).declared? d x = some (.storage w) ∧ w.slot = n) ↔ ∃ i v, Holds as i d x (.storage v) ∧ v.slot = n := by
  have hslot : ∀ {noted : Prop} {v w : Variable}, NotedIf noted (.storage v) (.storage w) → w.slot = v.slot := by
    intro noted v w h
    by_cases hn : noted
    · cases h.1 hn
      rfl
    · cases h.2 hn
      rfl
  constructor
  · rintro ⟨w, hw, rfl⟩
    obtain ⟨i, b₀, hholds, hnoted⟩ := (agrees as x d _).1 hw
    cases b₀ with
    | storage v => exact ⟨i, v, hholds, (hslot hnoted).symm⟩
    | function f => by_cases hn : Noted as i d x <;> simp [NotedIf, hn, Binding.markWritten] at hnoted
  · rintro ⟨i, v, hholds, rfl⟩
    obtain ⟨b, hnoted⟩ := exists_notedIf (Noted as i d x) (.storage v)
    have hb := (agrees as x d b).2 ⟨i, _, hholds, hnoted⟩
    cases b with
    | storage w => exact ⟨w, hb, hslot hnoted⟩
    | function f => by_cases hn : Noted as i d x <;> simp [NotedIf, hn, Binding.markWritten] at hnoted

/-- Each variable has a slot between the first one of its scope and the next one. -/
theorem Filled.slot_bounds {f : Frame} {start : Nat} {is : List Nat} (h : Filled as d f start is) {x : String} {v : Variable}
    (hv : (after as).declared? d x = some (.storage v)) : start ≤ v.slot ∧ v.slot < f.nextSlot := by
  obtain ⟨i, w, hholds, hslot⟩ := exists_variable_iff.1 ⟨v, hv, rfl⟩
  obtain ⟨n, hn⟩ := List.getElem?_of_mem ((h.mem_iff i).2 ⟨x, w, hholds⟩)
  have hlt := (List.getElem?_eq_some_iff.1 hn).1
  have hw := h.slot_eq n i x w hn hholds.1
  have hnext := h.nextSlot_eq
  omega

/-- In one scope, variables that have the same slot are the same. -/
theorem Filled.name_eq {f : Frame} {start : Nat} {is : List Nat} (h : Filled as d f start is) {x x' : String} {v v' : Variable}
    (hv : (after as).declared? d x = some (.storage v)) (hv' : (after as).declared? d x' = some (.storage v'))
    (hslot : v.slot = v'.slot) : x = x' := by
  obtain ⟨i, w, hholds, hw⟩ := exists_variable_iff.1 ⟨v, hv, rfl⟩
  obtain ⟨i', w', hholds', hw'⟩ := exists_variable_iff.1 ⟨v', hv', rfl⟩
  obtain ⟨n, hn⟩ := List.getElem?_of_mem ((h.mem_iff i).2 ⟨x, w, hholds⟩)
  obtain ⟨n', hn'⟩ := List.getElem?_of_mem ((h.mem_iff i').2 ⟨x', w', hholds'⟩)
  have hw₁ := h.slot_eq n i x w hn hholds.1
  have hw₂ := h.slot_eq n' i' x' w' hn' hholds'.1
  obtain rfl : n = n' := by omega
  rw [hn] at hn'
  cases hn'
  obtain ⟨a, t, ha, hname, -⟩ := hholds.1
  obtain ⟨a', t', ha', hname', -⟩ := hholds'.1
  rw [ha] at ha'
  cases ha'
  rw [hname] at hname'
  exact Option.some.inj hname'

/-- A scope starts at or above the next slot of any scope around it, if there is no scope of a function between them. -/
theorem nextSlot_le_start (hlt : d < d') (hrun : SameRun as d d') {f f' : Frame} {start : Nat} {is : List Nat}
    (hf : (after as).frameAt? d = some f) (hf' : (after as).frameAt? d' = some f') (hfilled : Filled as d' f' start is) :
    f.nextSlot ≤ start := by
  induction d' generalizing f' start is with
  | zero => exact absurd hlt (Nat.not_lt_zero _)
  | succ e ih =>
    have hdepth := le_depth_of_frameAt? hf'
    obtain ⟨g, hg⟩ := exists_frameAt? (Nat.le_of_succ_le hdepth)
    generalize hd : e + 1 = c at hfilled
    cases hfilled.starts with
    | outermost => cases hd
    | function hopened => exact (hrun.2 (e + 1) hlt (Nat.le_refl _) ⟨_, hd ▸ hopened⟩).elim
    | block hopened =>
      rw [(allotted as).resumes _ e g (hd ▸ hopened) hg]
      rcases Nat.lt_or_eq_of_le (Nat.le_of_lt_succ hlt) with hlt' | rfl
      · obtain ⟨start', is', hfilled'⟩ := (allotted as).filled e g hg
        have hrun' : SameRun as d e := ⟨Nat.le_of_lt hlt', fun c hc hce => hrun.2 c hc (Nat.le_succ_of_le hce)⟩
        have hle := ih hlt' hrun' hg hfilled'
        rw [hfilled'.nextSlot_eq]
        exact Nat.le_trans hle (Nat.le_add_right _ _)
      · rw [hf] at hg
        cases hg
        exact Nat.le_refl _

/-- A slot is below the next one of the scopes inside, up to the next function. -/
theorem slot_lt_nextSlot (hrun : SameRun as d d') {x : String} {v : Variable} {f : Frame}
    (hv : (after as).declared? d x = some (.storage v)) (hf : (after as).frameAt? d' = some f) : v.slot < f.nextSlot := by
  obtain ⟨g, hg⟩ := exists_frameAt? (le_depth_of_declared? hv)
  obtain ⟨start, is, hfilled⟩ := (allotted as).filled d g hg
  have hown := (hfilled.slot_bounds hv).2
  rcases Nat.lt_or_eq_of_le hrun.1 with hlt | rfl
  · obtain ⟨start', is', hfilled'⟩ := (allotted as).filled d' f hf
    have hle := nextSlot_le_start hlt hrun hg hf hfilled'
    have hnext := hfilled'.nextSlot_eq
    omega
  · rw [hg] at hf
    cases hf
    exact hown

end

/-- Variables that are in scope at one time, in one function or outside functions, have different slots. After any operations the
variables of an open scope have consecutive slots from its first one on, in the order in which they were declared; each slot is below
the next one of its own scope and of the scopes inside it up to the next function; and no two variables of such a run of scopes have
the same slot. -/
theorem slots_apart (as : List Action) :
    (∀ d f, (after as).frameAt? d = some f → ∃ start is, Filled as d f start is ∧
      ∀ x slot, (∃ v, f.find? x = some (.storage v) ∧ v.slot = slot) ↔
        ∃ n i v, is[n]? = some i ∧ Declares as i d x (.storage v) ∧ slot = start + n) ∧
    (∀ d d' x v f, SameRun as d d' → (after as).declared? d x = some (.storage v) → (after as).frameAt? d' = some f →
      v.slot < f.nextSlot) ∧
    ∀ d d' x x' v v', SameRun as d d' → (after as).declared? d x = some (.storage v) →
      (after as).declared? d' x' = some (.storage v') → v.slot = v'.slot → d = d' ∧ x = x' := by
  refine ⟨fun d f hf => ?_, fun d d' x v f hrun hv hf => slot_lt_nextSlot hrun hv hf, fun d d' x x' v v' hrun hv hv' hslot => ?_⟩
  · obtain ⟨start, is, hfilled⟩ := (allotted as).filled d f hf
    refine ⟨start, is, hfilled, fun x slot => ?_⟩
    rw [← declared?_eq_find? hf, exists_variable_iff]
    constructor
    · rintro ⟨i, v, hholds, rfl⟩
      obtain ⟨n, hn⟩ := List.getElem?_of_mem ((hfilled.mem_iff i).2 ⟨x, v, hholds⟩)
      exact ⟨n, i, v, hn, hholds.1, hfilled.slot_eq n i x v hn hholds.1⟩
    · rintro ⟨n, i, v, hn, hdeclares, rfl⟩
      obtain ⟨_, _, -, hopen⟩ := (hfilled.mem_iff i).1 (List.mem_of_getElem? hn)
      exact ⟨i, v, ⟨hdeclares, hopen⟩, hfilled.slot_eq n i x v hn hdeclares⟩
  · obtain ⟨f', hf'⟩ := exists_frameAt? (le_depth_of_declared? hv')
    obtain ⟨start', is', hfilled'⟩ := (allotted as).filled d' f' hf'
    rcases Nat.lt_or_eq_of_le hrun.1 with hlt | rfl
    · obtain ⟨f, hf⟩ := exists_frameAt? (le_depth_of_declared? hv)
      have hbelow := slot_lt_nextSlot ⟨Nat.le_refl d, fun e he hle => absurd he (Nat.not_lt_of_le hle)⟩ hv hf
      have hle := nextSlot_le_start hlt hrun hf hf' hfilled'
      have habove := (hfilled'.slot_bounds hv').1
      omega
    · exact ⟨rfl, hfilled'.name_eq hv hv' hslot⟩

end SymbolTable

end C0Stack
