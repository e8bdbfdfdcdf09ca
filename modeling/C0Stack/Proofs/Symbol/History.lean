import C0Stack.Proofs.Static.Depths
import Mathlib.Data.List.Induction

/-!
# Histories of symbol tables

Any sequence of operations can be applied to a new table; one that fails changes nothing. What the table answers afterwards can be
read off the operations themselves. Each opening of a scope makes the depth one more and each closing one less, but not below zero. A
declaration belongs to the scope that was innermost then, or to the outermost one if it declares a function, and it is in effect until
the depth falls below that of its scope (`SymbolTable.Holds`). Of the declarations of a name that are in effect the deepest one is the
one that the name stands for, and a write to the name is noted there (`SymbolTable.agrees`, `SymbolTable.lexical_scoping`).
-/

namespace C0Stack

namespace SymbolTable

/-- An operation on a table. -/
inductive Action where
  | enterBlock
  | enterFunction
  | leave
  | declare (x : String) (constant : Bool) (ty : Ty) (pos : Position)
  | declareFunction (x : String) (f : Signature) (pos : Position)
  | markWritten (x : String) (pos : Position)
  | lookup (x : String) (pos : Position)
deriving DecidableEq, Repr, Inhabited

namespace Action

/-- Applies the operation. It gives back what was declared or looked up, and the table behind it. -/
def perform (t : SymbolTable) : Action → Except Diagnostic (Option Binding × SymbolTable)
  | enterBlock => .ok (none, t.enterBlock)
  | enterFunction => .ok (none, t.enterFunction)
  | leave => .ok (none, t.leave)
  | declare x constant ty pos => (t.declare x constant ty pos).map fun (v, t') => (some (.storage v), t')
  | declareFunction x f pos => (t.declareFunction x f pos).map fun t' => (some (.function f), t')
  | markWritten x pos => (t.markWritten x pos).map fun t' => (none, t')
  | lookup x pos => (t.lookup x pos).map fun b => (some b, t)

/-- The table behind the operation. One that fails leaves the table as it was. -/
def next (t : SymbolTable) (a : Action) : SymbolTable :=
  match a.perform t with
  | .ok (_, t') => t'
  | .error _ => t

/-- The depth behind the operation. -/
def deepen (d : Nat) : Action → Nat
  | enterBlock | enterFunction => d + 1
  | leave => d - 1
  | _ => d

/-- The name that the operation declares. -/
def name? : Action → Option String
  | declare x .. | declareFunction x .. => some x
  | _ => none

/-- The depth of the scope in which the operation declares a name. -/
def target (d : Nat) : Action → Nat
  | declareFunction .. => 0
  | _ => d

theorem next_of_error {t : SymbolTable} {a : Action} {e : Diagnostic} (h : a.perform t = .error e) : a.next t = t := by
  unfold next
  rw [h]

/-- An operation that succeeds leaves what it gives back. -/
theorem next_of_ok {t t' : SymbolTable} {a : Action} {r : Option Binding} (h : a.perform t = .ok (r, t')) : a.next t = t' := by
  unfold next
  rw [h]

end Action

/-- The table after the operations, from first to last. -/
def after (as : List Action) : SymbolTable := as.foldl Action.next empty

/-- The depth after the operations. -/
def depthAfter (as : List Action) : Nat := as.foldl Action.deepen 0

/-- The scope at depth `d` that was open behind the operation of number `i` is still open. -/
def OpenSince (as : List Action) (i d : Nat) : Prop := ∀ j, i < j → j ≤ as.length → d ≤ depthAfter (as.take j)

/-- The operation of number `i` has declared the name, in the scope that was then the one at depth `d`. -/
def Declares (as : List Action) (i d : Nat) (x : String) (b : Binding) : Prop :=
  ∃ a t, as[i]? = some a ∧ a.name? = some x ∧ a.perform (after (as.take i)) = .ok (some b, t) ∧ d = a.target (depthAfter (as.take i))

/-- The declaration is in effect: its scope is still open. -/
def Holds (as : List Action) (i d : Nat) (x : String) (b : Binding) : Prop := Declares as i d x b ∧ OpenSince as i d

/-- No scope deeper than `d` has a declaration of the name in effect. -/
def Innermost (as : List Action) (d : Nat) (x : String) : Prop := ∀ i d' b, Holds as i d' x b → d' ≤ d

/-- Since the declaration of number `i`, a write to the name was noted when no declaration deeper than `d` was in effect. -/
def Noted (as : List Action) (i d : Nat) (x : String) : Prop :=
  ∃ j pos, i < j ∧ as[j]? = some (.markWritten x pos) ∧ Innermost (as.take j) d x

/-! ## One operation -/

/-- All that an operation can do to a table. -/
inductive Action.Effect (t : SymbolTable) : Action → SymbolTable → Prop
  | enterBlock : Effect t .enterBlock t.enterBlock
  | enterFunction : Effect t .enterFunction t.enterFunction
  | leave : Effect t .leave t.leave
  | declare {x : String} {constant : Bool} {ty : Ty} {pos : Position} {v : Variable} {t' : SymbolTable} :
      t.declare x constant ty pos = .ok (v, t') → Effect t (.declare x constant ty pos) t'
  | declareFunction {x : String} {f : Signature} {pos : Position} {t' : SymbolTable} :
      t.declareFunction x f pos = .ok t' → Effect t (.declareFunction x f pos) t'
  | markWritten {x : String} {pos : Position} {t' : SymbolTable} :
      t.markWritten x pos = .ok t' → Effect t (.markWritten x pos) t'
  | lookup {x : String} {pos : Position} : Effect t (.lookup x pos) t
  | refused {a : Action} {e : Diagnostic} : a.perform t = .error e → Effect t a t

/-- A result under a function is a value exactly if the result is. -/
theorem map_eq_ok {α β : Type} {r : Except Diagnostic α} {f : α → β} {y : β} : r.map f = .ok y ↔ ∃ z, r = .ok z ∧ f z = y := by
  cases r <;> simp [Except.map]

/-- Every operation does one of these. -/
theorem Action.effect (t : SymbolTable) (a : Action) : a.Effect t (a.next t) := by
  cases h : a.perform t with
  | error e =>
    rw [a.next_of_error h]
    exact .refused h
  | ok r =>
    obtain ⟨r, t'⟩ := r
    rw [a.next_of_ok h]
    cases a with
    | enterBlock =>
      cases h
      exact .enterBlock
    | enterFunction =>
      cases h
      exact .enterFunction
    | leave =>
      cases h
      exact .leave
    | declare x constant ty pos =>
      obtain ⟨⟨v, t₁⟩, ht, ⟨⟩⟩ := map_eq_ok.1 h
      exact .declare ht
    | declareFunction x f pos =>
      obtain ⟨t₁, ht, ⟨⟩⟩ := map_eq_ok.1 h
      exact .declareFunction ht
    | markWritten x pos =>
      obtain ⟨t₁, ht, ⟨⟩⟩ := map_eq_ok.1 h
      exact .markWritten ht
    | lookup x pos =>
      obtain ⟨b, -, ⟨⟩⟩ := map_eq_ok.1 h
      exact .lookup

/-- Only opening and closing a scope changes the depth, and neither can fail. -/
theorem Action.deepen_of_error {t : SymbolTable} {a : Action} {e : Diagnostic} (h : a.perform t = .error e) (d : Nat) :
    a.deepen d = d := by
  cases a with
  | enterBlock | enterFunction | leave => cases h
  | declare | declareFunction | markWritten | lookup => rfl

/-- The depth behind an operation can be told from the operation. -/
theorem depth_next (t : SymbolTable) (a : Action) : (a.next t).depth = a.deepen t.depth := by
  generalize ht : a.next t = t'
  cases ht ▸ a.effect t with
  | enterBlock | enterFunction | lookup => rfl
  | leave => exact List.length_tail
  | declare h => exact depth_declare h
  | declareFunction h =>
    obtain ⟨-, rfl⟩ := declareFunction_eq_ok.1 h
    rfl
  | markWritten h => exact depth_of_written (written_markWritten h)
  | refused h => exact (Action.deepen_of_error h _).symm

/-- `b` is the binding with the note of a write, if there was one. -/
def NotedIf (noted : Prop) (b₀ b : Binding) : Prop := (noted → b = b₀.markWritten) ∧ (¬ noted → b = b₀)

/-- The operation declares the name, and it comes to stand for the binding in the scope at the depth. -/
def Action.Adds (t : SymbolTable) (a : Action) (d : Nat) (x : String) (b : Binding) : Prop :=
  ∃ t', a.name? = some x ∧ a.perform t = .ok (some b, t') ∧ d = a.target t.depth

/-- The operation notes a write to the name at its declaration in the scope at the depth. -/
def Action.Notes (t : SymbolTable) (a : Action) (d : Nat) (x : String) : Prop :=
  ∃ pos, a = .markWritten x pos ∧ ∀ d', d < d' → t.declared? d' x = none

/-- What an operation that succeeds adds is what it gives back. -/
theorem Action.adds_iff_of_ok {t t' : SymbolTable} {a : Action} {r : Option Binding} (h : a.perform t = .ok (r, t')) {d : Nat}
    {x : String} {b : Binding} : a.Adds t d x b ↔ a.name? = some x ∧ r = some b ∧ d = a.target t.depth := by
  unfold Adds
  rw [h]
  constructor
  · rintro ⟨t', hname, ⟨⟩, hd⟩
    exact ⟨hname, rfl, hd⟩
  · rintro ⟨hname, rfl, hd⟩
    exact ⟨t', hname, rfl, hd⟩

section

variable {t t' : SymbolTable} {a : Action} {d : Nat} {x : String} {b : Binding}

theorem Action.not_adds (h : a.name? = none) : ¬ a.Adds t d x b := by
  rintro ⟨_, hname, -⟩
  rw [h] at hname
  cases hname

theorem Action.not_notes (h : ∀ pos, a ≠ .markWritten x pos) : ¬ a.Notes t d x := by
  rintro ⟨pos, ha, -⟩
  exact h pos ha

/-- Where an operation adds and notes nothing, the scopes that stay open declare what they did. -/
theorem declared?_kept (hadds : ¬ a.Adds t d x b) (hnotes : ∀ b₀, t.declared? d x = some b₀ → ¬ a.Notes t d x)
    (h : t'.declared? d x = if d ≤ a.deepen t.depth then t.declared? d x else none) :
    t'.declared? d x = some b ↔
      a.Adds t d x b ∨ d ≤ a.deepen t.depth ∧ ∃ b₀, t.declared? d x = some b₀ ∧ NotedIf (a.Notes t d x) b₀ b := by
  rw [h]
  constructor
  · intro hb
    split at hb
    · rename_i hd
      exact .inr ⟨hd, b, hb, fun hn => (hnotes b hb hn).elim, fun _ => rfl⟩
    · cases hb
  · rintro (hb | ⟨hd, b₀, hb₀, hb⟩)
    · exact (hadds hb).elim
    · rw [if_pos hd, hb₀, hb.2 (hnotes b₀ hb₀)]

/-- Scopes deeper than the innermost one declare nothing. -/
theorem declared?_eq_ite (t : SymbolTable) {n : Nat} (hn : t.depth ≤ n) (d : Nat) (x : String) :
    t.declared? d x = if d ≤ n then t.declared? d x else none := by
  split
  · rfl
  · rename_i hd
    cases hx : t.declared? d x with
    | none => rfl
    | some b => exact absurd (Nat.le_trans (le_depth_of_declared? hx) hn) hd

/-- The innermost scope is left, and the outermost one never is. -/
theorem declared?_leave_eq_ite (t : SymbolTable) (d : Nat) (x : String) :
    t.leave.declared? d x = if d ≤ t.depth - 1 then t.declared? d x else none := by
  by_cases hnested : t.nested = []
  · have hleave : t.leave = t := by
      obtain ⟨nested, outermost⟩ := t
      cases hnested
      rfl
    have hdepth : t.depth = 0 := by rw [depth, hnested]; rfl
    rw [hleave]
    exact t.declared?_eq_ite (by omega) d x
  · have hdepth : 0 < t.depth := List.length_pos_iff.2 hnested
    rw [declared?_leave hnested]
    split
    · rename_i hd
      rw [if_neg (by omega)]
    · rename_i hd
      split
      · rfl
      · rename_i hlt
        have hx := t.declared?_eq_ite (Nat.le_refl _) d x
        rwa [if_neg (by omega)] at hx

/-- The operation adds one binding, to a name that the scope has not declared. -/
theorem declared?_added {y : String} {b₁ : Binding} (hperform : a.perform t = .ok (some b₁, t')) (hname : a.name? = some y)
    (hdeepen : a.deepen t.depth = t.depth) (hnotes : ∀ pos, a ≠ .markWritten x pos)
    (hnone : t.declared? (a.target t.depth) y = none)
    (h : t'.declared? d x = if d = a.target t.depth ∧ x = y then some b₁ else t.declared? d x) :
    t'.declared? d x = some b ↔
      a.Adds t d x b ∨ d ≤ a.deepen t.depth ∧ ∃ b₀, t.declared? d x = some b₀ ∧ NotedIf (a.Notes t d x) b₀ b := by
  by_cases hnew : d = a.target t.depth ∧ x = y
  · rw [h, if_pos hnew, Action.adds_iff_of_ok hperform]
    obtain ⟨rfl, rfl⟩ := hnew
    simp [hname, hnone]
  · refine declared?_kept ?_ (fun _ _ => Action.not_notes hnotes) ?_
    · rw [Action.adds_iff_of_ok hperform, hname]
      rintro ⟨⟨⟩, -, hd⟩
      exact hnew ⟨hd, rfl⟩
    · rw [h, if_neg hnew, hdeepen]
      exact t.declared?_eq_ite (Nat.le_refl _) d x

/-- A write is noted at the deepest declaration of the name. -/
theorem declared?_noted {y : String} {pos : Position} (h : t.markWritten y pos = .ok t') :
    t'.declared? d x = some b ↔ (Action.markWritten y pos).Adds t d x b ∨
      d ≤ t.depth ∧ ∃ b₀, t.declared? d x = some b₀ ∧ NotedIf ((Action.markWritten y pos).Notes t d x) b₀ b := by
  obtain ⟨d₀, b₀, hb₀, hdeep, hmark⟩ := declared?_markWritten h
  by_cases hnoted : d = d₀ ∧ x = y
  · obtain ⟨rfl, rfl⟩ := hnoted
    have hnotes : (Action.markWritten x pos).Notes t d x := ⟨pos, rfl, hdeep⟩
    rw [hmark, if_pos ⟨rfl, rfl⟩]
    constructor
    · rintro ⟨⟩
      exact .inr ⟨le_depth_of_declared? hb₀, b₀, hb₀, fun _ => rfl, fun hn => (hn hnotes).elim⟩
    · rintro (hb | ⟨-, _, hb, hn⟩)
      · cases hb.choose_spec.1
      · rw [hb₀] at hb
        cases hb
        rw [hn.1 hnotes]
  · refine declared?_kept (Action.not_adds rfl) ?_ ?_
    · rintro b₁ hb₁ ⟨_, ⟨⟩, hinner⟩
      rcases Nat.lt_trichotomy d d₀ with hlt | rfl | hgt
      · rw [hinner d₀ hlt] at hb₀
        cases hb₀
      · exact hnoted ⟨rfl, rfl⟩
      · rw [hdeep d hgt] at hb₁
        cases hb₁
    · rw [hmark, if_neg hnoted]
      exact t.declared?_eq_ite (Nat.le_refl _) d x

/-- An operation that is refused adds nothing. It is no write that could be noted, since a name that is declared can be written. -/
theorem declared?_refused {e : Diagnostic} (h : a.perform t = .error e) :
    t.declared? d x = some b ↔
      a.Adds t d x b ∨ d ≤ a.deepen t.depth ∧ ∃ b₀, t.declared? d x = some b₀ ∧ NotedIf (a.Notes t d x) b₀ b := by
  refine declared?_kept ?_ ?_ ?_
  · rintro ⟨t', -, hok, -⟩
    rw [h] at hok
    cases hok
  · rintro b₀ hb₀ ⟨pos, rfl, hinner⟩
    have hfind : t.find? x = some b₀ := find?_eq_some.2 ⟨d, hb₀, hinner⟩
    obtain ⟨t', ht'⟩ := exists_markWritten_iff.2 (Option.isSome_of_eq_some hfind)
    have hperform : (Action.markWritten x pos).perform t = .ok (none, t') := map_eq_ok.2 ⟨t', ht', rfl⟩
    rw [h] at hperform
    cases hperform
  · rw [Action.deepen_of_error h]
    exact t.declared?_eq_ite (Nat.le_refl _) d x

/-- What a scope declares behind an operation is what the operation adds, or else what was declared before in a scope that stays
open, with the note of a write if the operation makes one. -/
theorem declared?_next : (a.next t).declared? d x = some b ↔
    a.Adds t d x b ∨ d ≤ a.deepen t.depth ∧ ∃ b₀, t.declared? d x = some b₀ ∧ NotedIf (a.Notes t d x) b₀ b := by
  generalize ht : a.next t = t'
  cases ht ▸ a.effect t with
  | enterBlock | enterFunction =>
    refine declared?_kept (Action.not_adds rfl) (fun _ _ => Action.not_notes (by simp)) ((declared?_enter t _ d x).trans ?_)
    exact t.declared?_eq_ite (Nat.le_succ _) d x
  | leave =>
    exact declared?_kept (Action.not_adds rfl) (fun _ _ => Action.not_notes (by simp)) (t.declared?_leave_eq_ite d x)
  | @declare y constant ty pos v t' h =>
    exact declared?_added (map_eq_ok.2 ⟨_, h, rfl⟩) rfl rfl (by simp) (declared?_eq_none_of_declare h) (declared?_declare h ..)
  | @declareFunction y f pos t' h =>
    have hperform : (Action.declareFunction y f pos).perform t = .ok (some (.function f), t') := map_eq_ok.2 ⟨_, h, rfl⟩
    obtain ⟨hy, rfl⟩ := declareFunction_eq_ok.1 h
    have hnone : t.declared? 0 y = none := by
      unfold declared? declaredIn? frames
      rw [List.reverse_append]
      exact hy
    exact declared?_added hperform rfl rfl (by simp) hnone (declared?_withFunction ..)
  | markWritten h => exact declared?_noted h
  | lookup =>
    exact declared?_kept (Action.not_adds rfl) (fun _ _ => Action.not_notes (by simp)) (t.declared?_eq_ite (Nat.le_refl _) d x)
  | refused h => exact declared?_refused h

end

/-! ## One operation more -/

section

variable {as : List Action} {a : Action} {i d : Nat} {x : String} {b : Binding}

theorem after_concat (as : List Action) (a : Action) : after (as ++ [a]) = a.next (after as) := List.foldl_append

theorem depthAfter_concat (as : List Action) (a : Action) : depthAfter (as ++ [a]) = a.deepen (depthAfter as) :=
  List.foldl_append

/-- The depth of the table is the one that the operations say. -/
theorem depth_after (as : List Action) : (after as).depth = depthAfter as := by
  induction as using List.reverseRecOn with
  | nil => rfl
  | append_singleton as a ih => rw [after_concat, depth_next, ih, depthAfter_concat]

theorem Declares.lt (h : Declares as i d x b) : i < as.length := by
  obtain ⟨a, -, ha, -⟩ := h
  exact (List.getElem?_eq_some_iff.1 ha).1

/-- After one operation more the declarations are those before and the one that it makes. -/
theorem declares_concat : Declares (as ++ [a]) i d x b ↔ Declares as i d x b ∨ i = as.length ∧ a.Adds (after as) d x b := by
  unfold Declares Action.Adds
  rcases Nat.lt_trichotomy i as.length with hi | rfl | hi
  · rw [List.getElem?_append_left hi, List.take_append_of_le_length (Nat.le_of_lt hi)]
    constructor
    · exact .inl
    · rintro (h | ⟨rfl, -⟩)
      · exact h
      · exact absurd hi (Nat.lt_irrefl _)
  · rw [List.getElem?_concat_length, List.take_left', depth_after]
    · constructor
      · rintro ⟨_, t, ⟨⟩, hname, hok, hd⟩
        exact .inr ⟨rfl, t, hname, hok, hd⟩
      · rintro (⟨_, _, h, -⟩ | ⟨-, t, hname, hok, hd⟩)
        · rw [List.getElem?_eq_none (Nat.le_refl _)] at h
          cases h
        · exact ⟨a, t, rfl, hname, hok, hd⟩
    · rfl
  · rw [List.getElem?_eq_none (by simpa using Nat.succ_le_of_lt hi), List.getElem?_eq_none (Nat.le_of_lt hi)]
    constructor
    · rintro ⟨_, _, ⟨⟩, -⟩
    · rintro (⟨_, _, ⟨⟩, -⟩ | ⟨rfl, -⟩)
      exact absurd hi (Nat.lt_irrefl _)

/-- After one operation more a scope is still open if the depth has not fallen below it. -/
theorem openSince_concat (hi : i < as.length) :
    OpenSince (as ++ [a]) i d ↔ OpenSince as i d ∧ d ≤ a.deepen (depthAfter as) := by
  unfold OpenSince
  rw [List.length_append, List.length_singleton, ← depthAfter_concat]
  constructor
  · intro h
    refine ⟨fun j hij hj => ?_, ?_⟩
    · have hd := h j hij (Nat.le_succ_of_le hj)
      rwa [List.take_append_of_le_length hj] at hd
    · have hd := h (as.length + 1) (Nat.lt_succ_of_lt hi) (Nat.le_refl _)
      rwa [List.take_of_length_le (by simp)] at hd
  · rintro ⟨h, hlast⟩ j hij hj
    rcases Nat.lt_or_eq_of_le hj with hlt | rfl
    · rw [List.take_append_of_le_length (Nat.le_of_lt_succ hlt)]
      exact h j hij (Nat.le_of_lt_succ hlt)
    · rwa [List.take_of_length_le (by simp)]

/-- Since the last operation a scope is open if the depth has not fallen below it. -/
theorem openSince_last : OpenSince (as ++ [a]) as.length d ↔ d ≤ a.deepen (depthAfter as) := by
  unfold OpenSince
  rw [List.length_append, List.length_singleton, ← depthAfter_concat]
  constructor
  · intro h
    have hd := h (as.length + 1) (Nat.lt_succ_self _) (Nat.le_refl _)
    rwa [List.take_of_length_le (by simp)] at hd
  · intro h j hij hj
    obtain rfl : j = as.length + 1 := Nat.le_antisymm hj hij
    rwa [List.take_of_length_le (by simp)]

/-- The scope of a new declaration is open. -/
theorem Action.Adds.le {t : SymbolTable} (h : a.Adds t d x b) : d ≤ a.deepen t.depth := by
  obtain ⟨t', hname, -, rfl⟩ := h
  cases a with
  | declare => exact Nat.le_refl _
  | declareFunction => exact Nat.zero_le _
  | enterBlock | enterFunction | leave | markWritten | lookup => cases hname

/-- After one operation more a declaration is in effect if its scope is still open, or if it is the new one. -/
theorem holds_concat : Holds (as ++ [a]) i d x b ↔
    Holds as i d x b ∧ d ≤ a.deepen (depthAfter as) ∨ i = as.length ∧ a.Adds (after as) d x b := by
  unfold Holds
  rw [declares_concat]
  constructor
  · rintro ⟨h | ⟨rfl, h⟩, hopen⟩
    · obtain ⟨hopen, hd⟩ := (openSince_concat h.lt).1 hopen
      exact .inl ⟨⟨h, hopen⟩, hd⟩
    · exact .inr ⟨rfl, h⟩
  · rintro (⟨⟨h, hopen⟩, hd⟩ | ⟨rfl, h⟩)
    · exact ⟨.inl h, (openSince_concat h.lt).2 ⟨hopen, hd⟩⟩
    · exact ⟨.inr ⟨rfl, h⟩, openSince_last.2 (depth_after as ▸ h.le)⟩

/-- After one operation more a write is noted if it was before, or if the operation is that write. -/
theorem noted_concat (hi : i < as.length) :
    Noted (as ++ [a]) i d x ↔ Noted as i d x ∨ ∃ pos, a = .markWritten x pos ∧ Innermost as d x := by
  constructor
  · rintro ⟨j, pos, hij, hj, hinner⟩
    rcases Nat.lt_trichotomy j as.length with hlt | rfl | hgt
    · rw [List.getElem?_append_left hlt] at hj
      rw [List.take_append_of_le_length (Nat.le_of_lt hlt)] at hinner
      exact .inl ⟨j, pos, hij, hj, hinner⟩
    · rw [List.getElem?_concat_length] at hj
      rw [List.take_left' rfl] at hinner
      exact .inr ⟨pos, Option.some.inj hj, hinner⟩
    · rw [List.getElem?_eq_none (by simpa using Nat.succ_le_of_lt hgt)] at hj
      cases hj
  · rintro (⟨j, pos, hij, hj, hinner⟩ | ⟨pos, rfl, hinner⟩)
    · have hlt := (List.getElem?_eq_some_iff.1 hj).1
      refine ⟨j, pos, hij, ?_, ?_⟩
      · rwa [List.getElem?_append_left hlt]
      · rwa [List.take_append_of_le_length (Nat.le_of_lt hlt)]
    · refine ⟨as.length, pos, hi, List.getElem?_concat_length, ?_⟩
      rwa [List.take_left' rfl]

theorem not_noted_last : ¬ Noted (as ++ [a]) as.length d x := by
  rintro ⟨j, pos, hij, hj, -⟩
  rw [List.getElem?_eq_none (by simpa using Nat.succ_le_of_lt hij)] at hj
  cases hj

end

/-- Two notes of a write say no more than one. -/
theorem notedIf_or {m n : Prop} {b₀ b : Binding} : NotedIf (m ∨ n) b₀ b ↔ ∃ b₁, NotedIf m b₀ b₁ ∧ NotedIf n b₁ b := by
  by_cases hm : m <;> by_cases hn : n <;> simp [NotedIf, hm, hn]

theorem exists_notedIf (noted : Prop) (b₀ : Binding) : ∃ b, NotedIf noted b₀ b := by
  by_cases h : noted
  · exact ⟨b₀.markWritten, fun _ => rfl, fun hn => (hn h).elim⟩
  · exact ⟨b₀, fun hn => (h hn).elim, fun _ => rfl⟩

/-! ## The whole history -/

/-- The table declares what the operations say. -/
def Agrees (as : List Action) (x : String) : Prop :=
  ∀ d b, (after as).declared? d x = some b ↔ ∃ i b₀, Holds as i d x b₀ ∧ NotedIf (Noted as i d x) b₀ b

/-- A declaration is the innermost one exactly if no deeper scope declares the name. -/
theorem Agrees.innermost_iff {as : List Action} {x : String} (h : Agrees as x) {d : Nat} :
    Innermost as d x ↔ ∀ d', d < d' → (after as).declared? d' x = none := by
  constructor
  · intro hinner d' hd'
    cases hb : (after as).declared? d' x with
    | none => rfl
    | some b =>
      obtain ⟨i, b₀, hholds, -⟩ := (h d' b).1 hb
      exact absurd (hinner i d' b₀ hholds) (Nat.not_le_of_lt hd')
  · intro hnone i d' b₀ hholds
    obtain ⟨b, hb⟩ := exists_notedIf (Noted as i d' x) b₀
    have hdeclared := (h d' b).2 ⟨i, b₀, hholds, hb⟩
    by_contra hd'
    rw [hnone d' (Nat.lt_of_not_le hd')] at hdeclared
    cases hdeclared

/-- The table and the operations still agree after one more. -/
theorem Agrees.concat {as : List Action} {x : String} (h : Agrees as x) (a : Action) : Agrees (as ++ [a]) x := by
  intro d b
  have hnotes : a.Notes (after as) d x ↔ ∃ pos, a = .markWritten x pos ∧ Innermost as d x := by
    unfold Action.Notes
    simp only [h.innermost_iff]
  rw [after_concat, declared?_next, depth_after, hnotes]
  constructor
  · rintro (hadds | ⟨hd, b₁, hb₁, hb⟩)
    · exact ⟨as.length, b, holds_concat.2 (.inr ⟨rfl, hadds⟩), fun hn => (not_noted_last hn).elim, fun _ => rfl⟩
    · obtain ⟨i, b₀, hholds, hb₀⟩ := (h d b₁).1 hb₁
      refine ⟨i, b₀, holds_concat.2 (.inl ⟨hholds, hd⟩), ?_⟩
      rw [noted_concat hholds.1.lt]
      exact notedIf_or.2 ⟨b₁, hb₀, hb⟩
  · rintro ⟨i, b₀, hholds, hb⟩
    rcases holds_concat.1 hholds with ⟨hholds, hd⟩ | ⟨rfl, hadds⟩
    · rw [noted_concat hholds.1.lt] at hb
      obtain ⟨b₁, hb₁, hb⟩ := notedIf_or.1 hb
      exact .inr ⟨hd, b₁, (h d b₁).2 ⟨i, b₀, hholds, hb₁⟩, hb⟩
    · rw [hb.2 not_noted_last]
      exact .inl hadds

/-- What an open scope declares after any operations: the declaration in effect there, with the note of a write if one was made when
the name stood for it. -/
theorem agrees (as : List Action) (x : String) : Agrees as x := by
  induction as using List.reverseRecOn with
  | nil =>
    intro d b
    change empty.declared? d x = some b ↔ _
    rw [declared?_empty]
    constructor
    · rintro ⟨⟩
    · rintro ⟨i, b₀, ⟨h, -⟩, -⟩
      exact absurd h.lt (Nat.not_lt_zero _)
  | append_singleton as a ih => exact ih.concat a

/-! ## What the table answers -/

section

variable {as : List Action} {x : String} {pos : Position}

/-- An open scope declares the name exactly if a declaration of it is in effect there. -/
theorem exists_declared?_iff {d : Nat} : (∃ b, (after as).declared? d x = some b) ↔ ∃ i b, Holds as i d x b := by
  constructor
  · rintro ⟨b, hb⟩
    obtain ⟨i, b₀, hholds, -⟩ := (agrees as x d b).1 hb
    exact ⟨i, b₀, hholds⟩
  · rintro ⟨i, b₀, hholds⟩
    obtain ⟨b, hb⟩ := exists_notedIf (Noted as i d x) b₀
    exact ⟨b, (agrees as x d b).2 ⟨i, b₀, hholds, hb⟩⟩

/-- The name stands for the deepest declaration in effect. -/
theorem find?_after {b : Binding} : (after as).find? x = some b ↔
    ∃ i d b₀, Holds as i d x b₀ ∧ Innermost as d x ∧ NotedIf (Noted as i d x) b₀ b := by
  rw [find?_eq_some]
  constructor
  · rintro ⟨d, hb, hdeep⟩
    obtain ⟨i, b₀, hholds, hnoted⟩ := (agrees as x d b).1 hb
    exact ⟨i, d, b₀, hholds, (agrees as x).innermost_iff.2 hdeep, hnoted⟩
  · rintro ⟨i, d, b₀, hholds, hinner, hnoted⟩
    exact ⟨d, (agrees as x d b).2 ⟨i, b₀, hholds, hnoted⟩, (agrees as x).innermost_iff.1 hinner⟩

/-- A name stands for nothing exactly if no scope declares it. -/
theorem find?_eq_none_iff (t : SymbolTable) (x : String) : t.find? x = none ↔ ∀ d, t.declared? d x = none := by
  unfold find? declared?
  induction t.frames with
  | nil => simp [declaredIn?]
  | cons f fs ih =>
    simp only [List.findSome?_cons, declaredIn?_cons]
    cases hf : f.find? x with
    | some b =>
      simp only [reduceCtorEq, false_iff]
      intro h
      have hnone := h fs.length
      rw [if_pos rfl] at hnone
      cases hnone
    | none =>
      rw [ih]
      refine forall_congr' fun d => ?_
      split
      · rename_i hd
        exact iff_of_true (declaredIn?_eq_none (Nat.le_of_eq hd.symm) x) rfl
      · rfl

/-- A name stands for nothing exactly if no declaration of it is in effect. -/
theorem find?_after_eq_none : (after as).find? x = none ↔ ¬ ∃ i d b, Holds as i d x b := by
  rw [find?_eq_none_iff]
  constructor
  · rintro h ⟨i, d, b₀, hholds⟩
    obtain ⟨b, hb⟩ := exists_declared?_iff.2 ⟨i, b₀, hholds⟩
    rw [h d] at hb
    cases hb
  · intro h d
    cases hb : (after as).declared? d x with
    | none => rfl
    | some b =>
      obtain ⟨i, b₀, hholds⟩ := exists_declared?_iff.1 ⟨b, hb⟩
      exact (h ⟨i, d, b₀, hholds⟩).elim

/-- What a declaration was given, and nothing else, is what it declares. -/
theorem Declares.eq {i d : Nat} {b : Binding} (h : Declares as i d x b) :
    (∃ constant ty pos slot, as[i]? = some (.declare x constant ty pos) ∧
      b = .storage ⟨ty, constant, slot, if d = 0 then .outermost else .nested, false⟩) ∨
    ∃ f pos, as[i]? = some (.declareFunction x f pos) ∧ d = 0 ∧ b = .function f := by
  obtain ⟨a, t, ha, hname, hok, rfl⟩ := h
  cases a with
  | enterBlock | enterFunction | leave | markWritten | lookup => cases hname
  | declare y constant ty pos =>
    cases hname
    obtain ⟨⟨v, t'⟩, hdeclare, ⟨⟩⟩ := map_eq_ok.1 hok
    obtain ⟨-, rfl, -⟩ := declare_eq_ok.1 hdeclare
    refine .inl ⟨constant, ty, pos, (after (as.take i)).current.nextSlot, ha, ?_⟩
    change _ = Binding.storage ⟨_, _, _, if depthAfter (as.take i) = 0 then _ else _, _⟩
    rw [← depth_after]
    unfold scope depth
    cases (after (as.take i)).nested <;> rfl
  | declareFunction y f pos =>
    cases hname
    obtain ⟨t', -, ⟨⟩⟩ := map_eq_ok.1 hok
    exact .inr ⟨f, pos, ha, rfl, rfl⟩

/-- With the note or without, the binding is the one that was declared, and has a value exactly if it is a function or a write was
noted. -/
theorem Declares.notedIf_iff {i d : Nat} {b₀ b : Binding} (h : Declares as i d x b₀) {noted : Prop} :
    NotedIf noted b₀ b ↔ b.markWritten = b₀.markWritten ∧ (b.isInitialized ↔ (∃ f, b₀ = .function f) ∨ noted) := by
  rcases h.eq with ⟨constant, ty, pos, slot, -, rfl⟩ | ⟨f, pos, -, -, rfl⟩
  · cases b with
    | function g => by_cases hn : noted <;> simp [NotedIf, Binding.markWritten, hn]
    | storage v =>
      obtain ⟨ty', constant', slot', scope', initialized⟩ := v
      by_cases hn : noted <;> cases initialized <;> simp [NotedIf, Binding.markWritten, Binding.isInitialized, hn]
  · by_cases hn : noted <;> cases b <;> simp [NotedIf, Binding.markWritten, Binding.isInitialized, hn]

/-- A declaration fails exactly if the innermost scope declares the name. -/
theorem declare_eq_error {t : SymbolTable} {constant : Bool} {ty : Ty} {e : Diagnostic} :
    t.declare x constant ty pos = .error e ↔ e = ⟨.duplicate x, pos⟩ ∧ ∃ b, t.declared? t.depth x = some b := by
  rw [declared?_depth]
  unfold declare
  cases t.current.find? x with
  | none => simp
  | some b => simp [eq_comm]

/-- The declaration of a function fails exactly if the outermost scope declares the name. -/
theorem declareFunction_eq_error {t : SymbolTable} {f : Signature} {e : Diagnostic} :
    t.declareFunction x f pos = .error e ↔ e = ⟨.duplicate x, pos⟩ ∧ ∃ b, t.declared? 0 x = some b := by
  have houtermost : t.declared? 0 x = t.outermost.find? x := by
    unfold declared? declaredIn? frames
    rw [List.reverse_append]
    rfl
  rw [houtermost]
  unfold declareFunction
  cases t.outermost.find? x with
  | none => simp
  | some b => simp [eq_comm]

end

/-- The table keeps the scopes of any sequence of operations apart. A name is looked up in the innermost open scope that declares it,
and what is found there is what was declared, with a value exactly if it is a function or a write to the name has been noted since, at a
time when the name stood for this declaration. A declaration fails exactly if its scope holds the name already, and what fails changes
nothing. -/
theorem lexical_scoping (as : List Action) :
    (∀ x pos e, (after as).lookup x pos = .error e ↔ e = ⟨.undeclared x, pos⟩ ∧ ¬ ∃ i d b, Holds as i d x b) ∧
    (∀ x pos b, (after as).lookup x pos = .ok b ↔ ∃ i d b₀, Holds as i d x b₀ ∧ Innermost as d x ∧
      b.markWritten = b₀.markWritten ∧ (b.isInitialized ↔ (∃ f, b₀ = .function f) ∨ Noted as i d x)) ∧
    (∀ i d x b, Declares as i d x b →
      (∃ constant ty pos slot, as[i]? = some (.declare x constant ty pos) ∧
        b = .storage ⟨ty, constant, slot, if d = 0 then .outermost else .nested, false⟩) ∨
      ∃ f pos, as[i]? = some (.declareFunction x f pos) ∧ d = 0 ∧ b = .function f) ∧
    (∀ x constant ty pos e, (after as).declare x constant ty pos = .error e ↔
      e = ⟨.duplicate x, pos⟩ ∧ ∃ i b, Holds as i (depthAfter as) x b) ∧
    (∀ x f pos e, (after as).declareFunction x f pos = .error e ↔ e = ⟨.duplicate x, pos⟩ ∧ ∃ i b, Holds as i 0 x b) ∧
    ∀ a e, a.perform (after as) = .error e → after (as ++ [a]) = after as := by
  refine ⟨fun x pos e => ?_, fun x pos b => ?_, fun i d x b h => h.eq, fun x constant ty pos e => ?_, fun x f pos e => ?_,
    fun a e h => ?_⟩
  · rw [← find?_after_eq_none]
    unfold lookup
    cases (after as).find? x with
    | none => simp [eq_comm]
    | some b => simp
  · have hlookup : (after as).lookup x pos = .ok b ↔ (after as).find? x = some b := by
      unfold lookup
      cases (after as).find? x <;> simp
    rw [hlookup, find?_after]
    refine exists_congr fun i => exists_congr fun d => exists_congr fun b₀ => and_congr_right fun hholds => ?_
    rw [hholds.1.notedIf_iff]
  · rw [declare_eq_error, depth_after, exists_declared?_iff]
  · rw [declareFunction_eq_error, exists_declared?_iff]
  · rw [after_concat, Action.next_of_error h]

/-- The write is noted in the block, and is forgotten with it. -/
example : (after [.declare "x" false .int ⟨1, 1⟩, .enterBlock, .declare "x" true .double ⟨2, 1⟩, .markWritten "x" ⟨3, 1⟩,
    .leave]).find? "x" = some (.storage ⟨.int, false, 0, .outermost, false⟩) := by decide

end SymbolTable

end C0Stack
