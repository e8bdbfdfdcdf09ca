import Mathlib.Data.List.Induction
import C0Stack.CommandLine

/-!
# The arguments of the command line

An argument offends if it is an option that there is not, or a second file. The arguments are read in order, and what has been read of
them is all that the reader knows: the file and the options among them (`Options.parse_append_of_clean`). So the first argument that offends
decides what is wrong, and where none does, the arguments are accepted exactly if there is a file among them (`Options.parse_eq_ok_iff`,
`Options.parse_eq_error_iff`). In which order the options come, and how often, makes no difference (`Options.parse_congr`).
-/

namespace C0Stack

/-- The options among the arguments. -/
def Flags.namedIn (args : List String) : Flags where
  statements := "--statements" ∈ args
  tokens := "--tokens" ∈ args
  view := "--view" ∈ args

namespace Options

/-- The options that there are. -/
def flagNames : List String := ["--statements", "--tokens", "--view"]

/-- The arguments that are not options. -/
def fileNames (args : List String) : List String := args.filter fun arg => !arg.startsWith "--"

/-- The arguments without the options that there are. -/
def withoutFlags (args : List String) : List String := args.filter (· ∉ flagNames)

/-- An argument that cannot come behind the given ones, and what is wrong with it. -/
inductive Offends (before : List String) (arg : String) : UsageError → Prop
  | unknownOption : arg.startsWith "--" = true → arg ∉ flagNames → Offends before arg (.unknownOption arg)
  | unexpectedArgument : arg.startsWith "--" = false → fileNames before ≠ [] → Offends before arg (.unexpectedArgument arg)

/-- No argument offends. -/
def Clean (args : List String) : Prop := ∀ before arg after, args = before ++ arg :: after → ∀ e, ¬ Offends before arg e

/-- What is wrong with the first argument that offends. -/
def FirstOffence (args : List String) (e : UsageError) : Prop :=
  ∃ before arg after, args = before ++ arg :: after ∧ Clean before ∧ Offends before arg e

/-! ## Kinds of arguments -/

section

variable {arg : String} {before args : List String} {e : UsageError}

theorem mem_flagNames_iff : arg ∈ flagNames ↔ arg = "--statements" ∨ arg = "--tokens" ∨ arg = "--view" := by
  simp [flagNames]

theorem not_mem_flagNames_iff : arg ∉ flagNames ↔ arg ≠ "--statements" ∧ arg ≠ "--tokens" ∧ arg ≠ "--view" := by
  rw [mem_flagNames_iff, not_or, not_or]

theorem startsWith_of_mem_flagNames (h : arg ∈ flagNames) : arg.startsWith "--" = true := by
  rcases mem_flagNames_iff.1 h with rfl | rfl | rfl <;> simp

theorem not_mem_flagNames_of_file (h : arg.startsWith "--" = false) : arg ∉ flagNames := by
  intro hflag
  rw [startsWith_of_mem_flagNames hflag] at h
  cases h

theorem namedIn_concat (h : arg ∉ flagNames) (before : List String) : Flags.namedIn (before ++ [arg]) = .namedIn before := by
  obtain ⟨hstatements, htokens, hview⟩ := not_mem_flagNames_iff.1 h
  simp [Flags.namedIn, hstatements.symm, htokens.symm, hview.symm]

theorem fileNames_concat_option (h : arg.startsWith "--" = true) (before : List String) :
    fileNames (before ++ [arg]) = fileNames before := by
  simp [fileNames, h]

theorem fileNames_concat_file (h : arg.startsWith "--" = false) (before : List String) :
    fileNames (before ++ [arg]) = fileNames before ++ [arg] := by
  simp [fileNames, h]

/-- An option offends unless there is such an option. -/
theorem forall_not_offends_option (h : arg.startsWith "--" = true) : (∀ e, ¬ Offends before arg e) ↔ arg ∈ flagNames := by
  constructor
  · intro hnone
    by_contra hflag
    exact hnone _ (.unknownOption h hflag)
  · rintro hflag e (⟨-, hunknown⟩ | ⟨hfile, -⟩)
    · exact hunknown hflag
    · exact not_mem_flagNames_of_file hfile hflag

/-- A file offends unless it is the first. -/
theorem forall_not_offends_file (h : arg.startsWith "--" = false) : (∀ e, ¬ Offends before arg e) ↔ fileNames before = [] := by
  constructor
  · intro hnone
    by_contra hbefore
    exact hnone _ (.unexpectedArgument h hbefore)
  · rintro hnil e (⟨hoption, -⟩ | ⟨-, hbefore⟩)
    · rw [h] at hoption
      cases hoption
    · exact hbefore hnil

/-! ## One argument -/

/-- An option is noted, and reading goes on. -/
theorem parseFrom_flag (h : arg ∈ flagNames) (path : Option String) (before args : List String) :
    parseFrom path (.namedIn before) (arg :: args) = parseFrom path (.namedIn (before ++ [arg])) args := by
  rcases mem_flagNames_iff.1 h with rfl | rfl | rfl <;> simp [parseFrom, Flags.namedIn]

/-- An option that there is not is refused. -/
theorem parseFrom_unknown (hoption : arg.startsWith "--" = true) (hflag : arg ∉ flagNames) (path : Option String) (flags : Flags)
    (args : List String) : parseFrom path flags (arg :: args) = .error (.unknownOption arg) := by
  obtain ⟨hstatements, htokens, hview⟩ := not_mem_flagNames_iff.1 hflag
  simp [parseFrom, hstatements, htokens, hview, hoption]

/-- The first file is noted, and reading goes on. -/
theorem parseFrom_file (hfile : arg.startsWith "--" = false) (flags : Flags) (args : List String) :
    parseFrom none flags (arg :: args) = parseFrom (some arg) flags args := by
  obtain ⟨hstatements, htokens, hview⟩ := not_mem_flagNames_iff.1 (not_mem_flagNames_of_file hfile)
  simp [parseFrom, hstatements, htokens, hview, hfile]

theorem parseFrom_second_file (hfile : arg.startsWith "--" = false) (path : String) (flags : Flags) (args : List String) :
    parseFrom (some path) flags (arg :: args) = .error (.unexpectedArgument arg) := by
  obtain ⟨hstatements, htokens, hview⟩ := not_mem_flagNames_iff.1 (not_mem_flagNames_of_file hfile)
  simp [parseFrom, hstatements, htokens, hview, hfile]

/-- An argument that offends is refused, whatever comes behind it. -/
theorem Offends.parseFrom_eq (h : Offends before arg e) (flags : Flags) (args : List String) :
    parseFrom (fileNames before).head? flags (arg :: args) = .error e := by
  cases h with
  | unknownOption hoption hflag => exact parseFrom_unknown hoption hflag _ flags args
  | unexpectedArgument hfile hbefore =>
    obtain ⟨file, files, hfiles⟩ := List.exists_cons_of_ne_nil hbefore
    rw [hfiles, List.head?_cons, parseFrom_second_file hfile]

/-- An argument that does not offend joins those that were read. -/
theorem parseFrom_of_not_offends (h : ∀ e, ¬ Offends before arg e) (args : List String) :
    parseFrom (fileNames before).head? (.namedIn before) (arg :: args) =
      parseFrom (fileNames (before ++ [arg])).head? (.namedIn (before ++ [arg])) args := by
  cases hoption : arg.startsWith "--" with
  | true => rw [parseFrom_flag ((forall_not_offends_option hoption).1 h), fileNames_concat_option hoption]
  | false =>
    rw [fileNames_concat_file hoption, (forall_not_offends_file hoption).1 h, namedIn_concat (not_mem_flagNames_of_file hoption)]
    exact parseFrom_file hoption _ args

/-! ## All arguments -/

theorem clean_nil : Clean [] := by
  intro before arg after h
  simp at h

/-- One argument more offends, or all is as before. -/
theorem clean_concat : Clean (before ++ [arg]) ↔ Clean before ∧ ∀ e, ¬ Offends before arg e := by
  constructor
  · intro h
    refine ⟨?_, h before arg [] rfl⟩
    rintro before' arg' after rfl
    exact h before' arg' (after ++ [arg]) (by simp)
  · rintro ⟨hbefore, harg⟩ before' arg' after heq
    rcases List.eq_nil_or_concat after with rfl | ⟨after, last, rfl⟩
    · obtain ⟨rfl, hlast⟩ := List.append_inj' heq rfl
      cases hlast
      exact harg
    · rw [List.concat_eq_append, ← List.cons_append, ← List.append_assoc] at heq
      exact hbefore before' arg' after (List.append_inj' heq rfl).1

/-- No argument offends exactly if all options are known and there is one file at most. -/
theorem clean_iff : Clean args ↔ (∀ arg ∈ args, arg.startsWith "--" = true → arg ∈ flagNames) ∧ (fileNames args).length ≤ 1 := by
  -- From the end, because an argument is judged by those in front of it.
  induction args using List.reverseRecOn with
  | nil => simp [clean_nil, fileNames]
  | append_singleton before arg ih =>
    rw [clean_concat, ih, List.forall_mem_append, List.forall_mem_singleton]
    cases hoption : arg.startsWith "--" with
    | true =>
      rw [forall_not_offends_option hoption, fileNames_concat_option hoption]
      tauto
    | false =>
      rw [forall_not_offends_file hoption, fileNames_concat_file hoption, ← List.length_eq_zero_iff, List.length_append,
        List.length_singleton]
      simp only [Bool.false_eq_true, false_imp_iff, and_true]
      constructor
      · rintro ⟨⟨hknown, -⟩, hnone⟩
        exact ⟨hknown, by omega⟩
      · rintro ⟨hknown, hone⟩
        exact ⟨⟨hknown, by omega⟩, by omega⟩

/-- Arguments among which none offends are known by the file and the options among them. -/
theorem parse_append_of_clean (h : Clean before) (args : List String) :
    parse (before ++ args) = parseFrom (fileNames before).head? (.namedIn before) args := by
  induction before using List.reverseRecOn generalizing args with
  | nil => rfl
  | append_singleton before arg ih =>
    obtain ⟨hbefore, harg⟩ := clean_concat.1 h
    rw [List.append_assoc, List.singleton_append, ih hbefore, parseFrom_of_not_offends harg]

/-- The first argument that offends decides. -/
theorem FirstOffence.parse_eq (h : FirstOffence args e) : parse args = .error e := by
  obtain ⟨before, arg, after, rfl, hbefore, harg⟩ := h
  rw [parse_append_of_clean hbefore, harg.parseFrom_eq]

/-- Some argument is the first to offend, or none does. -/
theorem clean_or_firstOffence (args : List String) : Clean args ∨ ∃ e, FirstOffence args e := by
  induction args using List.reverseRecOn with
  | nil => exact .inl clean_nil
  | append_singleton before arg ih =>
    rcases ih with hbefore | ⟨e, first, arg', after, rfl, hfirst, harg'⟩
    · by_cases harg : ∀ e, ¬ Offends before arg e
      · exact .inl (clean_concat.2 ⟨hbefore, harg⟩)
      · obtain ⟨e, he⟩ := not_forall_not.1 harg
        exact .inr ⟨e, before, arg, [], rfl, hbefore, he⟩
    · exact .inr ⟨e, first, arg', after ++ [arg], by simp, hfirst, harg'⟩

/-- With one file and no offence the arguments are accepted. -/
theorem parse_of_clean_file {path : String} (h : Clean args) (hfile : fileNames args = [path]) :
    parse args = .ok { toFlags := .namedIn args, path } := by
  have hparse := parse_append_of_clean h []
  rwa [List.append_nil, hfile] at hparse

/-- Without a file they are refused, even if none offends. -/
theorem parse_of_clean_nil (h : Clean args) (hfile : fileNames args = []) : parse args = .error .noInput := by
  have hparse := parse_append_of_clean h []
  rwa [List.append_nil, hfile] at hparse

/-- The three ways in which the reading of the arguments ends. -/
theorem parse_cases (args : List String) :
    (∃ path, Clean args ∧ fileNames args = [path] ∧ parse args = .ok { toFlags := .namedIn args, path }) ∨
      (Clean args ∧ fileNames args = [] ∧ parse args = .error .noInput) ∨
      ∃ e, FirstOffence args e ∧ parse args = .error e := by
  rcases clean_or_firstOffence args with h | ⟨e, h⟩
  · rcases hfiles : fileNames args with _ | ⟨path, _ | ⟨path', files⟩⟩
    · exact .inr (.inl ⟨h, rfl, parse_of_clean_nil h hfiles⟩)
    · exact .inl ⟨path, h, rfl, parse_of_clean_file h hfiles⟩
    · have hlength := (clean_iff.1 h).2
      rw [hfiles] at hlength
      simp at hlength
  · exact .inr (.inr ⟨e, h, h.parse_eq⟩)

/-- The arguments are accepted exactly if all options are known and there is one file, and give that file and these options. -/
theorem parse_eq_ok_iff {o : Options} :
    parse args = .ok o ↔
      (∀ arg ∈ args, arg.startsWith "--" = true → arg ∈ flagNames) ∧ fileNames args = [o.path] ∧ o.toFlags = .namedIn args := by
  constructor
  · intro h
    rcases parse_cases args with ⟨path, hclean, hfile, hparse⟩ | ⟨-, -, hparse⟩ | ⟨e, -, hparse⟩
    · rw [h] at hparse
      cases hparse
      exact ⟨(clean_iff.1 hclean).1, hfile, rfl⟩
    · rw [h] at hparse
      cases hparse
    · rw [h] at hparse
      cases hparse
  · rintro ⟨hknown, hfile, hflags⟩
    have hclean : Clean args := clean_iff.2 ⟨hknown, Nat.le_of_eq (congrArg List.length hfile)⟩
    rw [parse_of_clean_file hclean hfile, ← hflags]

/-- The arguments are refused for the first one that offends, or because none of them is a file. -/
theorem parse_eq_error_iff :
    parse args = .error e ↔ FirstOffence args e ∨ (e = .noInput ∧ ∀ arg ∈ args, arg ∈ flagNames) := by
  constructor
  · intro h
    rcases parse_cases args with ⟨path, -, -, hparse⟩ | ⟨hclean, hfile, hparse⟩ | ⟨e', hfirst, hparse⟩
    · rw [h] at hparse
      cases hparse
    · rw [h] at hparse
      cases hparse
      refine .inr ⟨rfl, fun arg harg => (clean_iff.1 hclean).1 arg harg ?_⟩
      simpa using List.filter_eq_nil_iff.1 hfile arg harg
    · rw [h] at hparse
      cases hparse
      exact .inl hfirst
  · rintro (hfirst | ⟨rfl, hflags⟩)
    · exact hfirst.parse_eq
    · have hfile : fileNames args = [] := by
        refine List.filter_eq_nil_iff.2 fun arg harg => ?_
        simp [startsWith_of_mem_flagNames (hflags arg harg)]
      exact parse_of_clean_nil (clean_iff.2 ⟨fun arg harg _ => hflags arg harg, hfile ▸ Nat.zero_le 1⟩) hfile

/-! ## The order of the options -/

/-- The options that there are do not change what becomes of the other arguments. -/
theorem parseFrom_eq_map (path : Option String) (before args : List String) :
    parseFrom path (.namedIn before) args =
      (parseFrom path {} (withoutFlags args)).map fun o => { toFlags := .namedIn (before ++ args), path := o.path } := by
  induction args generalizing path before with
  | nil => cases path <;> simp [withoutFlags, parseFrom, Except.map]
  | cons arg args ih =>
    by_cases hflag : arg ∈ flagNames
    · rw [parseFrom_flag hflag, ih, List.append_assoc, List.singleton_append, withoutFlags, withoutFlags,
        List.filter_cons_of_neg (by simpa using hflag)]
    · rw [withoutFlags, List.filter_cons_of_pos (by simpa using hflag)]
      cases hoption : arg.startsWith "--" with
      | true =>
        rw [parseFrom_unknown hoption hflag, parseFrom_unknown hoption hflag]
        rfl
      | false =>
        cases path with
        | none =>
          have hih := ih (some arg) (before ++ [arg])
          rw [namedIn_concat hflag, List.append_assoc] at hih
          rw [parseFrom_file hoption, parseFrom_file hoption]
          exact hih
        | some path =>
          rw [parseFrom_second_file hoption, parseFrom_second_file hoption]
          rfl

/-- Arguments that differ only in the order and the number of their options ask for the same. -/
theorem parse_congr {args' : List String} (hrest : withoutFlags args' = withoutFlags args)
    (hflags : ∀ flag ∈ flagNames, flag ∈ args' ↔ flag ∈ args) : parse args' = parse args := by
  have hnamed : Flags.namedIn args' = .namedIn args := by
    simp only [flagNames, List.forall_mem_cons, List.not_mem_nil, false_imp_iff, implies_true, and_true] at hflags
    obtain ⟨hstatements, htokens, hview⟩ := hflags
    simp only [Flags.namedIn, hstatements, htokens, hview]
  have hparse : ∀ args, parse args =
      (parseFrom none {} (withoutFlags args)).map fun o => { toFlags := .namedIn args, path := o.path } :=
    fun args => parseFrom_eq_map none [] args
  rw [hparse, hparse, hrest, hnamed]

end

end Options

end C0Stack
