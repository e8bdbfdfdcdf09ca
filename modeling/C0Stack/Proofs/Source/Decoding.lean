import C0Stack.Proofs.Source.Agreement

/-!
# Bytes and characters

A text that is read from its bytes line by line, and the same text in memory, are told apart by no sequence of reads
(`reading_alike`). Ahead of a source over bytes are the characters in its buffer and those that the pending bytes encode. To refill the
buffer moves characters from the second part to the first, and never cuts one in two: the byte of a line feed is part of no other
character.
-/

namespace C0Stack

namespace Source

/-! ## Characters in UTF-8 -/

/-- The bytes of the characters. -/
def encode (cs : List Char) : List UInt8 := cs.flatMap String.utf8EncodeChar

theorem encode_cons (c : Char) (cs : List Char) : encode (c :: cs) = String.utf8EncodeChar c ++ encode cs := List.flatMap_cons

/-- The bytes of two texts in a row. -/
theorem encode_append (cs ds : List Char) : encode (cs ++ ds) = encode cs ++ encode ds := List.flatMap_append

theorem encode_toList (text : String) : encode text.toList = text.toUTF8.data.toList := by
  rw [String.toUTF8_eq_toByteArray, ← String.utf8Encode_toList]
  simp [encode, List.utf8Encode]

theorem toByteArray_encode (cs : List Char) : (encode cs).toByteArray = cs.utf8Encode := rfl

/-- A text that is encoded can be decoded. -/
theorem decode?_encode (cs : List Char) : decode? (encode cs) = some cs := by
  unfold decode?
  rw [toByteArray_encode, List.utf8Decode?_utf8Encode]
  rfl

/-- A text that is not empty has bytes. -/
theorem encode_ne_nil {cs : List Char} (h : cs ≠ []) : encode cs ≠ [] := by
  obtain ⟨c, cs, rfl⟩ := List.exists_cons_of_ne_nil h
  rw [encode_cons]
  exact List.append_ne_nil_of_left_ne_nil String.utf8EncodeChar_ne_nil _

/-- What is decoded is what the bytes encode. -/
theorem decode?_eq_some_iff {bytes : List UInt8} {cs : List Char} : decode? bytes = some cs ↔ bytes = encode cs := by
  constructor
  · intro h
    unfold decode? at h
    obtain ⟨a, ha, rfl⟩ := Option.map_eq_some_iff.1 h
    have hsome : bytes.toByteArray.utf8Decode?.isSome := by rw [ha]; rfl
    have hget : bytes.toByteArray.utf8Decode?.get hsome = a := by simp [ha]
    have hencode : a.toList.utf8Encode = bytes.toByteArray := by rw [← hget]; exact ByteArray.utf8Encode_get_utf8Decode?
    have hdata := congrArg (fun b : ByteArray => b.data.toList) hencode
    simpa [encode, List.utf8Encode] using hdata.symm
  · rintro rfl
    exact decode?_encode cs

/-- The byte of a line feed is part of no other character. -/
theorem mem_utf8EncodeChar {c : Char} : 10 ∈ String.utf8EncodeChar c ↔ c = '\n' := by
  have hbyte : ∀ n, (10 : UInt8) = UInt8.ofNat n ↔ n % 256 = 10 := by
    intro n
    rw [← UInt8.toNat_inj, UInt8.toNat_ofNat']
    exact eq_comm
  have hchar : c = '\n' ↔ c.val.toNat = 10 := by
    rw [Char.ext_iff, ← UInt32.toNat_inj]
    rfl
  rw [hchar, String.utf8EncodeChar]
  -- All bytes of a character beyond ASCII have their highest bit set.
  split
  · rw [List.mem_singleton, hbyte]
    omega
  · split
    · simp only [List.mem_cons, List.not_mem_nil, or_false, hbyte]
      omega
    · split <;> simp only [List.mem_cons, List.not_mem_nil, or_false, hbyte] <;> omega

theorem splitLine_cons (b : UInt8) (bytes : List UInt8) :
    splitLine (b :: bytes) = if b = 10 then ([b], bytes) else (b :: (splitLine bytes).1, (splitLine bytes).2) := rfl

/-- Bytes without a line feed lengthen the first line. -/
theorem splitLine_append {line : List UInt8} (h : 10 ∉ line) (bytes : List UInt8) :
    splitLine (line ++ bytes) = (line ++ (splitLine bytes).1, (splitLine bytes).2) := by
  induction line with
  | nil => rfl
  | cons b line ih =>
    obtain ⟨hb, hline⟩ := not_or.1 (mt List.mem_cons.2 h)
    rw [List.cons_append, splitLine_cons, if_neg (Ne.symm hb), ih hline]
    rfl

/-- The first line of the bytes of a text is the bytes of its first line. If there is no line feed in the text, its last line goes on in
what comes behind it; so nothing may come there. -/
theorem splitLine_encode {cs : List Char} {tail : List UInt8} (hne : cs ≠ []) (htail : tail = [] ∨ '\n' ∈ cs) :
    ∃ line rest, cs = line ++ rest ∧ line ≠ [] ∧ splitLine (encode cs ++ tail) = (encode line, encode rest ++ tail) := by
  induction cs with
  | nil => exact absurd rfl hne
  | cons c cs ih =>
    rw [encode_cons, List.append_assoc]
    by_cases hc : c = '\n'
    · subst hc
      exact ⟨['\n'], cs, rfl, List.cons_ne_nil _ _, rfl⟩
    · rw [splitLine_append (fun h => hc (mem_utf8EncodeChar.1 h))]
      have htail' : tail = [] ∨ '\n' ∈ cs := htail.imp_right fun h => (List.mem_cons.1 h).resolve_left (Ne.symm hc)
      by_cases hcs : cs = []
      · subst hcs
        obtain rfl : tail = [] := htail'.resolve_right List.not_mem_nil
        refine ⟨[c], [], rfl, List.cons_ne_nil _ _, ?_⟩
        rw [encode_cons]
        rfl
      · obtain ⟨line, rest, rfl, -, hsplit⟩ := ih hcs htail'
        refine ⟨c :: line, rest, rfl, List.cons_ne_nil _ _, ?_⟩
        rw [hsplit, encode_cons]

/-- An empty buffer is filled with the first line of the bytes. -/
theorem fill_nil {pending : List UInt8} (h : pending ≠ []) (pos : Position) :
    fill ⟨[], pending, pos⟩ =
      match decode? (splitLine pending).1 with
      | some cs => (.ok (), ⟨cs, (splitLine pending).2, pos⟩)
      | none => (.error .notUtf8, ⟨[], (splitLine pending).2, pos⟩) := by
  obtain ⟨b, bytes, rfl⟩ := List.exists_cons_of_ne_nil h
  rfl

/-- At the end of the text nothing is taken. -/
theorem nextIf_of_fill_nil {s : Source} {pending : List UInt8} {pos : Position} (h : s.fill = (.ok (), ⟨[], pending, pos⟩))
    (p : Char → Bool) : s.nextIf p = (.ok none, ⟨[], pending, pos⟩) := by
  unfold nextIf
  rw [h]

/-- The first character in the buffer is taken if it is of the class. -/
theorem nextIf_of_fill_cons {s : Source} {c : Char} {cs : List Char} {pending : List UInt8} {pos : Position}
    (h : s.fill = (.ok (), ⟨c :: cs, pending, pos⟩)) (p : Char → Bool) :
    s.nextIf p = if p c then (.ok (some c), ⟨cs, pending, pos.advance c⟩) else (.ok none, ⟨c :: cs, pending, pos⟩) := by
  unfold nextIf
  rw [h]

/-! ## What lies ahead of a source -/

/-- Ahead of the first source are the characters that the second one has in memory, and then the bytes `tail`. -/
def Ahead (tail : List UInt8) (s t : Source) : Prop := ∃ cs, s.pending = encode cs ++ tail ∧ t = ⟨s.buffer ++ cs, [], s.pos⟩

section

variable {tail : List UInt8} {s t : Source}

/-- The two sources stand in the same place. -/
theorem Ahead.pos_eq (h : Ahead tail s t) : t.pos = s.pos := by
  obtain ⟨cs, -, rfl⟩ := h
  rfl

/-- All of the second source is in memory. -/
theorem Ahead.pending_eq (h : Ahead tail s t) : t.pending = [] := by
  obtain ⟨cs, -, rfl⟩ := h
  rfl

/-- To fill the buffer changes nothing in what lies ahead. It can be done as long as a whole line is there. -/
theorem Ahead.fill (h : Ahead tail s t) (hline : tail = [] ∨ '\n' ∈ t.buffer) :
    ∃ s', s.fill = (.ok (), s') ∧ Ahead tail s' t ∧ s'.buffer.head? = t.buffer.head? := by
  obtain ⟨cs, hpending, rfl⟩ := h
  obtain ⟨buffer, pending, pos⟩ := s
  obtain rfl : pending = encode cs ++ tail := hpending
  cases buffer with
  | cons c buffer => exact ⟨_, rfl, ⟨cs, rfl, rfl⟩, rfl⟩
  | nil =>
    by_cases hcs : cs = []
    · subst hcs
      obtain rfl : tail = [] := hline.resolve_right List.not_mem_nil
      exact ⟨_, rfl, ⟨[], rfl, rfl⟩, rfl⟩
    · obtain ⟨line, rest, rfl, hne, hsplit⟩ := splitLine_encode hcs hline
      refine ⟨⟨line, encode rest ++ tail, pos⟩, ?_, ⟨rest, rfl, rfl⟩, ?_⟩
      · rw [fill_nil (List.append_ne_nil_of_left_ne_nil (encode_ne_nil hcs) tail), hsplit]
        dsimp only
        rw [decode?_encode]
      · obtain ⟨c, line, rfl⟩ := List.exists_cons_of_ne_nil hne
        rfl

/-- The next character, and what lies ahead once it was taken. -/
theorem Ahead.nextIf (h : Ahead tail s t) (hline : tail = [] ∨ '\n' ∈ t.buffer) (p : Char → Bool) :
    ∃ t', t.nextIf p = ((s.nextIf p).1, t') ∧ Ahead tail (s.nextIf p).2 t' ∧
      (t'.buffer = t.buffer ∨ ∃ c, p c = true ∧ t.buffer = c :: t'.buffer) := by
  obtain ⟨s', hfill, ⟨cs, hpending, rfl⟩, hhead⟩ := h.fill hline
  obtain ⟨buffer, pending, pos⟩ := s'
  cases buffer with
  | nil =>
    obtain rfl : cs = [] := List.head?_eq_none_iff.1 hhead.symm
    rw [nextIf_of_fill_nil hfill]
    exact ⟨_, nextIf_nil p pos, ⟨[], hpending, rfl⟩, .inl rfl⟩
  | cons c buffer =>
    rw [nextIf_of_fill_cons hfill, List.cons_append, nextIf_cons]
    by_cases hc : p c = true
    · rw [if_pos hc, if_pos hc]
      exact ⟨_, rfl, ⟨cs, hpending, rfl⟩, .inr ⟨c, hc, rfl⟩⟩
    · rw [if_neg hc, if_neg hc]
      exact ⟨_, rfl, ⟨cs, hpending, rfl⟩, .inl rfl⟩

/-- Where whole lines lie ahead, reads agree as long as they take no line feed. -/
theorem parallel_ahead : Parallel fun s t => Ahead tail s t ∧ '\n' ∈ t.buffer where
  pos_eq h := h.1.pos_eq
  nextIf := by
    rintro p hp s t ⟨hahead, hline⟩
    obtain ⟨t', ht, hahead', hbuffer⟩ := hahead.nextIf (.inr hline) p
    refine ⟨t', ht, hahead', ?_⟩
    rcases hbuffer with hsame | ⟨c, hc, hcons⟩
    · rwa [hsame]
    · rw [hcons] at hline
      refine (List.mem_cons.1 hline).resolve_left ?_
      rintro rfl
      rw [hp] at hc
      cases hc

/-- Where nothing lies behind the text, all reads agree. -/
theorem agrees_nextIf_ahead (p : Char → Bool) : Agrees (Ahead []) (Source.nextIf p) := by
  intro s t h
  obtain ⟨t', ht, hahead, -⟩ := h.nextIf (.inl rfl) p
  exact ⟨t', ht, hahead⟩

theorem agrees_token_ahead : Agrees (Ahead []) token :=
  Parallel.token ⟨Ahead.pos_eq, fun _ => agrees_nextIf_ahead _⟩ agrees_nextIf_ahead

end

/-! ## Calls in any order -/

/-- A call to a source. -/
inductive Call where
  | peek
  | next
  | atEnd
deriving DecidableEq, Repr

/-- What a call gives: perhaps a character, or whether the end was reached. -/
inductive Answer where
  | char (c : Option Char)
  | flag (ended : Bool)
deriving DecidableEq, Repr

def Call.on : Call → Source → Except ReadError Answer × Source
  | peek, s => (s.peek.1.map .char, s.peek.2)
  | next, s => (s.next.1.map .char, s.next.2)
  | atEnd, s => (s.atEnd.1.map .flag, s.atEnd.2)

/-- The answers to the calls, each with the place of the source after the call. -/
def answers (s : Source) : List Call → List (Except ReadError Answer × Position)
  | [] => []
  | call :: calls => ((call.on s).1, (call.on s).2.pos) :: (call.on s).2.answers calls

/-- So do looks at the next character. -/
theorem agrees_peek_ahead : Agrees (Ahead []) peek := by
  intro s t h
  obtain ⟨s', hfill, hahead, hhead⟩ := h.fill (.inl rfl)
  have hpeek : s.peek = (.ok s'.buffer.head?, s') := by
    unfold peek
    rw [hfill]
  rw [hpeek, hhead]
  refine ⟨t, ?_, hahead⟩
  obtain ⟨cs, -, rfl⟩ := h
  unfold peek fill
  cases s.buffer ++ cs <;> rfl

/-- So do checks for the end. -/
theorem agrees_atEnd_ahead : Agrees (Ahead []) atEnd := by
  intro s t h
  obtain ⟨t', ht, hahead⟩ := agrees_peek_ahead s t h
  unfold atEnd
  rw [ht]
  rcases hs : s.peek with ⟨e | c, s'⟩ <;> rw [hs] at hahead <;> exact ⟨t', rfl, hahead⟩

/-- What is made of answers that agree agrees. -/
theorem Agrees.map {R : Source → Source → Prop} {ε α β : Type} {f : Source → Except ε α × Source} (h : Agrees R f) (g : α → β) :
    Agrees R fun s => ((f s).1.map g, (f s).2) := by
  intro s t hst
  obtain ⟨t', ht, hst'⟩ := h s t hst
  refine ⟨t', ?_, hst'⟩
  simp only [ht]

/-- Any call agrees. -/
theorem agrees_call_ahead (call : Call) : Agrees (Ahead []) call.on := by
  cases call with
  | peek => exact agrees_peek_ahead.map Answer.char
  | next => exact (agrees_nextIf_ahead _).map Answer.char
  | atEnd => exact agrees_atEnd_ahead.map Answer.flag

/-- Any sequence of calls gives the same answers. -/
theorem answers_eq {s t : Source} (h : Ahead [] s t) (calls : List Call) : t.answers calls = s.answers calls := by
  induction calls generalizing s t with
  | nil => rfl
  | cons call calls ih =>
    obtain ⟨t', ht, h'⟩ := agrees_call_ahead call s t h
    rw [answers, answers, ht, h'.pos_eq, ih h']

/-- Ahead of the bytes of a text are its characters. -/
theorem ahead_ofBytes (text : String) : Ahead [] (ofBytes text.toUTF8.data.toList) (ofString text) :=
  ⟨text.toList, by rw [encode_toList, List.append_nil]; rfl, rfl⟩

end Source

/-- A text is read alike from its bytes and from memory: by single calls in any order, token by token and as a whole. -/
theorem reading_alike (text : String) :
    (∀ calls, (Source.ofBytes text.toUTF8.data.toList).answers calls = (Source.ofString text).answers calls) ∧
      (∀ n, (Source.ofBytes text.toUTF8.data.toList).nthToken n = (Source.ofString text).nthToken n ∧
        ((Source.ofBytes text.toUTF8.data.toList).afterTokens n).pos = ((Source.ofString text).afterTokens n).pos) ∧
      (Source.ofBytes text.toUTF8.data.toList).tokenize = (Source.ofString text).tokenize ∧
      ∀ mode, compile mode (Source.ofBytes text.toUTF8.data.toList) = compile mode (Source.ofString text) := by
  have hahead := Source.ahead_ofBytes text
  have htoken := Source.agrees_token_ahead
  refine ⟨?_, ?_, ?_, ?_⟩
  · intro calls
    exact (Source.answers_eq hahead calls).symm
  · intro n
    exact ⟨(htoken.nthToken_eq hahead n).symm, (htoken.afterTokens hahead n).pos_eq.symm⟩
  · exact (htoken.tokenize_eq hahead).symm
  · intro mode
    exact (htoken.compile_eq hahead mode).symm

end C0Stack
