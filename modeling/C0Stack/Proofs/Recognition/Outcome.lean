import C0Stack.Proofs.Grammar.Expr

/-!
# What a reader does with a text

A reader takes tokens of its language from the stream, or it stops at the first token that cannot come next (`Outcome`). In the second
case it names kinds of token each of which could have come instead. Both depend on nothing but the kinds of the tokens that it took
and of the next one: on another stream in which these are the same it does the same. The only other way for a reader to end is at an
assignment that stands as an operand.

The statements below put the outcomes of readers together: one reader after another (`Outcome.andThen`), a token in front
(`Outcome.cons`, `Outcome.token`), a choice by the next token (`Outcome.congr`).
-/

namespace C0Stack

/-- A token as the text of a source has it: of a good shape, and not the one that stands for the end. -/
structure Token.Proper (t : Token) : Prop where
  shaped : t.WellShaped
  kind_ne : t.kind ≠ .endOfFile

/-- Some token of the kind. -/
def Token.sample (kind : Token.Kind) : Token := ⟨kind, if kind = .integer then .integer 0 else .empty, .start, .start⟩

@[simp] theorem Token.kind_sample (kind : Token.Kind) : (sample kind).kind = kind := rfl

/-- A sample is a proper token, unless it is to stand for the end. -/
theorem Token.proper_sample {kind : Token.Kind} (h : kind ≠ .endOfFile) : (sample kind).Proper := by
  refine ⟨?_, h⟩
  unfold WellShaped sample
  by_cases hkind : kind = .integer <;> simp [hkind]

namespace Grammar

/-- All of the tokens are proper ones. -/
def Proper (ts : List Token) : Prop := ∀ t ∈ ts, t.Proper

theorem Proper.nil : Proper [] := nofun

/-- Tokens are proper ones if the first one is and the others are. -/
theorem proper_cons {t : Token} {ts : List Token} : Proper (t :: ts) ↔ t.Proper ∧ Proper ts := List.forall_mem_cons

/-- Two lists of proper tokens make one. -/
theorem proper_append {ts us : List Token} : Proper (ts ++ us) ↔ Proper ts ∧ Proper us := List.forall_mem_append

/-- Proper tokens have a good shape. -/
theorem Proper.shaped {ts : List Token} (h : Proper ts) : Shaped ts := fun t ht => (h t ht).shaped

end Grammar

namespace TokenStream

/-- The stream has an end, and the tokens up to it are proper ones. -/
def Readable : TokenStream → Prop
  | done _ => True
  | broken _ => False
  | more first rest => first.Proper ∧ rest.Readable

/-- With proper tokens in front a stream stays readable. -/
theorem readable_prepend {ts : List Token} {t : TokenStream} : (t.prepend ts).Readable ↔ Grammar.Proper ts ∧ t.Readable := by
  induction ts with
  | nil => simp [Grammar.Proper.nil]
  | cons first ts ih => rw [prepend_cons, Readable, ih, ← and_assoc, Grammar.proper_cons]

/-- A readable stream shows the kind of what comes next. -/
theorem Readable.exists_nextKind? {t : TokenStream} (h : t.Readable) : ∃ k, t.nextKind? = some k := by
  cases t with
  | done pos => exact ⟨_, rfl⟩
  | broken error => exact h.elim
  | more first rest => exact ⟨_, rfl⟩

/-- Where the next kind is not that of the end, there is a token. -/
theorem Readable.exists_more {t : TokenStream} (h : t.Readable) {kind : Token.Kind} (hkind : t.nextKind? = some kind)
    (hne : kind ≠ .endOfFile) : ∃ first rest, t = more first rest ∧ first.kind = kind := by
  cases t with
  | done pos => exact absurd (Option.some.inj hkind).symm hne
  | broken error => exact h.elim
  | more first rest => exact ⟨first, rest, rfl, Option.some.inj hkind⟩

/-- The stream behind what the reader reads. -/
def behind {α : Type} {bound : TokenStream → Nat} (read : (t : TokenStream) → Parsed α (bound t)) (t : TokenStream) : TokenStream :=
  (read t).rest

/-- What is behind a reader, given what it reads. -/
theorem behind_eq {α : Type} {bound : TokenStream → Nat} {read : (t : TokenStream) → Parsed α (bound t)} {t rest : TokenStream}
    {a : α} (h : (read t).pair = (a, rest)) : behind read t = rest := congrArg Prod.snd h

/-- Readers that read the same leave the same behind. -/
theorem behind_congr {α : Type} {bound bound' : TokenStream → Nat} {read : (t : TokenStream) → Parsed α (bound t)}
    {read' : (t : TokenStream) → Parsed α (bound' t)} {t t' : TokenStream} (h : (read t).pair = (read' t').pair) :
    behind read t = behind read' t' := congrArg Prod.snd h

/-- Behind a token that is taken the rest is left. -/
theorem behind_take {kind : Token.Kind} {first : Token} (h : first.kind = kind) (rest : TokenStream) :
    behind (take kind) (more first rest) = rest := by
  unfold behind
  rw [take_more h]

/-- A stream in which another token comes next breaks. -/
theorem behind_take_of_ne {kind : Token.Kind} {t : TokenStream} (h : t.nextKind? ≠ some kind) :
    behind (take kind) t = broken (t.unexpected [kind]) := by
  unfold behind take
  cases t with
  | done pos =>
    have hkind : kind ≠ .endOfFile := fun hkind => h (by rw [hkind]; rfl)
    simp only [hkind, if_false]
    rfl
  | broken error => rfl
  | more first rest =>
    have hkind : first.kind ≠ kind := fun hkind => h (by rw [← hkind]; rfl)
    simp only [hkind, if_false]
    rfl

/-- Nothing can be taken from a broken stream, and it stays broken with the same fault. -/
theorem behind_take_broken (kind : Token.Kind) (error : Diagnostic) : behind (take kind) (broken error) = broken error := rfl

/-- The other stream can be read, and the next tokens are of the same kind. -/
structure Resembles (t t' : TokenStream) : Prop where
  readable : t'.Readable
  nextKind? : t'.nextKind? = t.nextKind?

theorem Resembles.refl {t : TokenStream} (h : t.Readable) : t.Resembles t := ⟨h, rfl⟩

/-- A stream that resembles one with a token has a token of that kind. -/
theorem Resembles.exists_more {first : Token} {rest t' : TokenStream} (h : (more first rest).Resembles t')
    (hfirst : first.Proper) : ∃ first' rest', t' = more first' rest' ∧ first'.kind = first.kind :=
  h.readable.exists_more h.nextKind? hfirst.kind_ne

/-- A stream that resembles one that has ended has ended. -/
theorem Resembles.exists_done {pos : Position} {t' : TokenStream} (h : (done pos).Resembles t') : ∃ pos', t' = done pos' := by
  obtain ⟨hreadable, hnext⟩ := h
  cases t' with
  | done pos' => exact ⟨pos', rfl⟩
  | broken error => exact hreadable.elim
  | more first' rest' => exact absurd (Option.some.inj hnext) hreadable.1.kind_ne

end TokenStream

namespace Grammar

open TokenStream

/-- The other tokens are proper ones and, one by one, of the same kinds. -/
structure Alike (ts ts' : List Token) : Prop where
  proper : Proper ts'
  kinds : ts'.map Token.kind = ts.map Token.kind

theorem Alike.refl {ts : List Token} (h : Proper ts) : Alike ts ts := ⟨h, rfl⟩

/-- What is alike to two lists of tokens falls into two parts that are alike to them. -/
theorem Alike.of_append {ts us vs : List Token} (h : Alike (ts ++ us) vs) :
    ∃ ts' us', vs = ts' ++ us' ∧ Alike ts ts' ∧ Alike us us' := by
  obtain ⟨hproper, hkinds⟩ := h
  rw [List.map_append] at hkinds
  obtain ⟨ts', us', rfl, hts, hus⟩ := List.map_eq_append_iff.1 hkinds
  obtain ⟨hts', hus'⟩ := proper_append.1 hproper
  exact ⟨ts', us', rfl, ⟨hts', hts⟩, ⟨hus', hus⟩⟩

/-- What is alike to a list with a first token has a first token of that kind. -/
theorem Alike.of_cons {t : Token} {ts vs : List Token} (h : Alike (t :: ts) vs) :
    ∃ t' ts', vs = t' :: ts' ∧ t'.Proper ∧ t'.kind = t.kind ∧ Alike ts ts' := by
  obtain ⟨hproper, hkinds⟩ := h
  obtain ⟨t', ts', rfl, ht, hts⟩ := List.map_eq_cons_iff.1 hkinds
  obtain ⟨ht', hts'⟩ := proper_cons.1 hproper
  exact ⟨t', ts', rfl, ht', ht, hts', hts⟩

/-- Only no tokens are alike to none. -/
theorem Alike.eq_nil {vs : List Token} (h : Alike [] vs) : vs = [] := List.map_eq_nil_iff.1 h.kinds

/-- With tokens of the same kinds in front, streams still resemble each other. -/
theorem Alike.resembles {ts ts' : List Token} (h : Alike ts ts') {rest rest' : TokenStream} (hrest : rest.Resembles rest') :
    (rest.prepend ts).Resembles (rest'.prepend ts') := by
  refine ⟨readable_prepend.2 ⟨h.proper, hrest.readable⟩, ?_⟩
  cases ts with
  | nil =>
    rw [h.eq_nil]
    exact hrest.nextKind?
  | cons t ts =>
    obtain ⟨t', ts', rfl, -, hkind, -⟩ := h.of_cons
    rw [prepend_cons, prepend_cons, nextKind?_more, nextKind?_more, hkind]

/-- Some tokens behind the given ones make them a text of the language. -/
def Completable (L : List Token → Prop) (ts : List Token) : Prop := ∃ us, Proper us ∧ L (ts ++ us)

/-- A text of the language needs nothing more. -/
theorem Completable.of_mem {L : List Token → Prop} {ts : List Token} (h : L ts) : Completable L ts :=
  ⟨[], .nil, by rwa [List.append_nil]⟩

/-- It is enough to name the kinds of the tokens that complete a text. -/
theorem Completable.of_kinds {L : List Token → Prop} {ts : List Token} (kinds : List Token.Kind) (hkinds : .endOfFile ∉ kinds)
    (h : L (ts ++ kinds.map Token.sample)) : Completable L ts := by
  refine ⟨kinds.map Token.sample, fun t ht => ?_, h⟩
  obtain ⟨kind, hkind, rfl⟩ := List.mem_map.1 ht
  exact Token.proper_sample fun hend => hkinds (hend ▸ hkind)

/-- What can be completed to a text that can be completed in turn can be completed. -/
theorem Completable.trans {L L' : List Token → Prop} {ts : List Token} (h : Completable L ts)
    (hL : ∀ us, L us → Completable L' us) : Completable L' ts := by
  obtain ⟨us, hus, h⟩ := h
  obtain ⟨vs, hvs, h⟩ := hL _ h
  exact ⟨us ++ vs, proper_append.2 ⟨hus, hvs⟩, by rwa [← List.append_assoc]⟩

/-- What completes the second part of a text completes the whole. -/
theorem Completable.append {L : List Token → Prop} {ts us : List Token} (h : Completable (fun us => L (ts ++ us)) us) :
    Completable L (ts ++ us) := by
  obtain ⟨vs, hvs, h⟩ := h
  exact ⟨vs, hvs, by rwa [List.append_assoc]⟩

/-- There is a kind to choose, and the end of the text is not one of the kinds. -/
structure Choice (expected : List Token.Kind) : Prop where
  ne_nil : expected ≠ []
  not_end : .endOfFile ∉ expected

/-- One kind is a choice, if it is not that of the end. -/
theorem choice_singleton {kind : Token.Kind} (h : kind ≠ .endOfFile) : Choice [kind] :=
  ⟨by simp, fun hmem => h (List.mem_singleton.1 hmem).symm⟩

/-- How a reader of the language ends on a stream. -/
inductive Outcome (L : List Token → Prop) (r : TokenStream → TokenStream) (t : TokenStream) : Prop
  /-- It takes a text of the language. -/
  | reads (ts : List Token) (rest : TokenStream) : t = rest.prepend ts → L ts →
      (∀ ts' rest', Alike ts ts' → rest.Resembles rest' → r (rest'.prepend ts') = rest') → Outcome L r t
  /-- It stops at a token that cannot come next, and names kinds that could. -/
  | stops (ts : List Token) (rest : TokenStream) (expected : List Token.Kind) : t = rest.prepend ts → Choice expected →
      (∀ ts' rest', Alike ts ts' → rest.Resembles rest' → r (rest'.prepend ts') = .broken (rest'.unexpected expected)) →
      (∀ next : Token, next.Proper → next.kind ∈ expected → Completable L (ts ++ [next])) → Outcome L r t
  /-- It finds an assignment as an operand. -/
  | misplaced {x : String} {pos : Position} : r t = .broken ⟨.assignmentAsOperand x, pos⟩ → Outcome L r t

namespace Outcome

variable {L L' : List Token → Prop} {r q : TokenStream → TokenStream} {t : TokenStream}

/-- A reader of a language is one of any larger language. -/
theorem mono (h : Outcome L r t) (hL : ∀ ts, L ts → L' ts) : Outcome L' r t := by
  cases h with
  | reads ts rest ht hts hread => exact .reads ts rest ht (hL ts hts) hread
  | stops ts rest expected ht hchoice hread hexpected =>
    exact .stops ts rest expected ht hchoice hread fun next hs hk => (hexpected next hs hk).trans fun us hus => .of_mem (hL us hus)
  | misplaced h => exact .misplaced h

/-- A reader that the next token lets do the same as another one ends like it. -/
theorem congr (h : Outcome L q t) (ht : t.Readable) (hr : ∀ t', t.Resembles t' → r t' = q t') : Outcome L r t := by
  cases h with
  | reads ts rest hrest hts hread =>
    subst hrest
    exact .reads ts rest rfl hts fun ts' rest' hts' hrest' => by rw [hr _ (hts'.resembles hrest'), hread _ _ hts' hrest']
  | stops ts rest expected hrest hchoice hread hexpected =>
    subst hrest
    refine .stops ts rest expected rfl hchoice (fun ts' rest' hts' hrest' => ?_) hexpected
    rw [hr _ (hts'.resembles hrest'), hread _ _ hts' hrest']
  | misplaced h => exact .misplaced (by rw [hr t (.refl ht), h])

/-- The reader that takes nothing. -/
theorem pass (hL : L []) (hr : ∀ t', t.Resembles t' → r t' = t') : Outcome L r t := by
  refine .reads [] t rfl hL fun ts' rest' hts' hrest' => ?_
  rw [hts'.eq_nil]
  exact hr rest' hrest'

/-- The reader that cannot use the next token. -/
theorem refuse (expected : List Token.Kind) (hchoice : Choice expected)
    (hr : ∀ t', t.Resembles t' → r t' = broken (t'.unexpected expected))
    (hL : ∀ next : Token, next.Proper → next.kind ∈ expected → Completable L [next]) : Outcome L r t := by
  refine .stops [] t expected rfl hchoice (fun ts' rest' hts' hrest' => ?_) hL
  rw [hts'.eq_nil]
  exact hr rest' hrest'

/-- The reader that takes one token, of which only the kind counts, and goes on with another reader. -/
theorem cons {first : Token} {rest : TokenStream} (h : Outcome (fun us => L (first :: us)) q rest)
    (ht : (more first rest).Readable)
    (hr : ∀ first' rest', first'.Proper → first'.kind = first.kind → rest.Resembles rest' →
      r (more first' rest') = q rest') : Outcome L r (more first rest) := by
  cases h with
  | reads ts rest hrest hts hread =>
    subst hrest
    refine .reads (first :: ts) rest rfl hts fun vs rest' hvs hrest' => ?_
    obtain ⟨first', ts', rfl, hproper, hkind, hts'⟩ := hvs.of_cons
    rw [prepend_cons, hr _ _ hproper hkind (hts'.resembles hrest'), hread _ _ hts' hrest']
  | stops ts rest expected hrest hchoice hread hexpected =>
    subst hrest
    refine .stops (first :: ts) rest expected rfl hchoice (fun vs rest' hvs hrest' => ?_) fun next hs hk => ?_
    · obtain ⟨first', ts', rfl, hproper, hkind, hts'⟩ := hvs.of_cons
      rw [prepend_cons, hr _ _ hproper hkind (hts'.resembles hrest'), hread _ _ hts' hrest']
    · obtain ⟨us, hus, h⟩ := hexpected next hs hk
      exact ⟨us, hus, h⟩
  | misplaced h => exact .misplaced (by rw [hr _ _ ht.1 rfl (.refl ht.2), h])

/-- One reader after another. A text of the first must be the start of a text of both, and the second must leave a broken stream as
it is. -/
theorem andThen {L₁ : List Token → Prop} (h : Outcome L₁ r t) (ht : t.Readable) (hL : ∀ ts, L₁ ts → Completable L ts)
    (hbroken : ∀ error, q (broken error) = broken error)
    (h' : ∀ ts rest, r t = rest → rest.Readable → L₁ ts → Outcome (fun us => L (ts ++ us)) q rest) :
    Outcome L (fun t => q (r t)) t := by
  cases h with
  | reads ts rest hrest hts hread =>
    subst hrest
    obtain ⟨hproper, hreadable⟩ := readable_prepend.1 ht
    have hr : r (rest.prepend ts) = rest := hread ts rest (.refl hproper) (.refl hreadable)
    cases h' ts rest hr hreadable hts with
    | reads us rest' hrest' hus hread' =>
      subst hrest'
      refine .reads (ts ++ us) rest' (prepend_append rest' ts us).symm hus fun vs rest'' hvs hrest'' => ?_
      obtain ⟨ts', us', rfl, hts', hus'⟩ := hvs.of_append
      rw [prepend_append, hread _ _ hts' (hus'.resembles hrest''), hread' _ _ hus' hrest'']
    | stops us rest' expected hrest' hchoice hread' hexpected =>
      subst hrest'
      refine .stops (ts ++ us) rest' expected (prepend_append rest' ts us).symm hchoice (fun vs rest'' hvs hrest'' => ?_)
        fun next hs hk => ?_
      · obtain ⟨ts', us', rfl, hts', hus'⟩ := hvs.of_append
        rw [prepend_append, hread _ _ hts' (hus'.resembles hrest''), hread' _ _ hus' hrest'']
      · rw [List.append_assoc]
        exact (hexpected next hs hk).append
    | misplaced h => exact .misplaced (by rw [hr, h])
  | stops ts rest expected hrest hchoice hread hexpected =>
    refine .stops ts rest expected hrest hchoice (fun ts' rest' hts' hrest' => ?_) fun next hs hk =>
      (hexpected next hs hk).trans hL
    rw [hread _ _ hts' hrest', hbroken]
  | misplaced h => exact .misplaced (by rw [h, hbroken])

/-- The reader that takes a token of a given kind, and goes on with another reader. -/
theorem token {kind : Token.Kind} (ht : t.Readable) (hkind : kind ≠ .endOfFile)
    (hL : ∀ next : Token, next.Proper → next.kind = kind → Completable L [next])
    (hbroken : ∀ error, r (broken error) = broken error)
    (h : ∀ first rest, t = more first rest → first.kind = kind → rest.Readable → Outcome (fun us => L (first :: us)) r rest) :
    Outcome L (fun t => r (behind (take kind) t)) t := by
  by_cases hnext : t.nextKind? = some kind
  · cases t with
    | done pos => exact absurd (Option.some.inj hnext).symm hkind
    | broken error => exact ht.elim
    | more first rest =>
      have hfirst : first.kind = kind := Option.some.inj hnext
      refine (h first rest rfl hfirst ht.2).cons ht fun first' rest' _ hkind' _ => ?_
      rw [behind_take (hkind'.trans hfirst)]
  · refine refuse [kind] (choice_singleton hkind) (fun t' ht' => ?_) fun next hs hk => hL next hs (List.mem_singleton.1 hk)
    rw [behind_take_of_ne (by rwa [ht'.nextKind?]), hbroken]

/-- The reader that takes a token of a given kind. -/
theorem take {kind : Token.Kind} (ht : t.Readable) (hkind : kind ≠ .endOfFile)
    (hL : ∀ next : Token, next.Proper → next.kind = kind → L [next]) : Outcome L (behind (take kind)) t := by
  refine token (r := id) ht hkind (fun next hs hk => .of_mem (hL next hs hk)) (fun _ => rfl) fun first rest htok hfirst _ => ?_
  subst htok
  exact pass (hL first ht.1 hfirst) fun t' _ => rfl

end Outcome

end Grammar

end C0Stack
