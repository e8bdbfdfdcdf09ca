import C0Stack.Position

/-!
# Character sources

A source hands out the characters of a text one at a time and knows the place of the next one. A text held in memory is all in the
buffer from the start. Bytes are decoded a line at a time, whenever the buffer has run empty: a line that is not UTF-8 fails the
read, is dropped as a whole and does not move the place, and reading goes on with the line after it.

`size` bounds what is left to read. No operation raises it, and each character taken and each line dropped lowers it, so that a
loop over a source ends.
-/

namespace C0Stack

/-- Why a source could not read on. -/
inductive ReadError where
  | notUtf8
deriving DecidableEq, Repr

/-- What went wrong, in words. -/
def ReadError.message : ReadError → String
  | notUtf8 => "stream did not contain valid UTF-8"

/-- A source of characters: the characters decoded but not yet taken, the bytes not yet decoded, and the place of the next
character. -/
structure Source where
  buffer : List Char
  pending : List UInt8
  pos : Position
deriving DecidableEq, Repr

namespace Source

/-- A source over a text held in memory. -/
def ofString (text : String) : Source := ⟨text.toList, [], .start⟩

/-- A literal stands for the list of its characters. With this list put in its place there are no bytes to be decoded. -/
theorem ofString_ofList (cs : List Char) : ofString (.ofList cs) = ⟨cs, [], .start⟩ := by
  rw [ofString, String.toList_ofList]

/-- A source over bytes that are decoded line by line. -/
def ofBytes (bytes : List UInt8) : Source := ⟨[], bytes, .start⟩

/-- The bytes of the first line, its line feed included, and the bytes after it. -/
def splitLine : List UInt8 → List UInt8 × List UInt8
  | [] => ([], [])
  | b :: rest =>
    if b = 10 then ([b], rest)
    else ((b :: (splitLine rest).1), (splitLine rest).2)

/-- The characters that the bytes encode, if they are UTF-8. -/
def decode? (bytes : List UInt8) : Option (List Char) := bytes.toByteArray.utf8Decode?.map Array.toList

/-- Reads the next line into an empty buffer. -/
def fill (s : Source) : Except ReadError Unit × Source :=
  match s.buffer, s.pending with
  | [], b :: bytes =>
    let rest := { s with pending := (splitLine (b :: bytes)).2 }
    match decode? (splitLine (b :: bytes)).1 with
    | some cs => (.ok (), { rest with buffer := cs })
    | none => (.error .notUtf8, rest)
  | _, _ => (.ok (), s)

/-- The next character, left in place; none at the end. -/
def peek (s : Source) : Except ReadError (Option Char) × Source :=
  match s.fill with
  | (.ok (), s) => (.ok s.buffer.head?, s)
  | (.error e, s) => (.error e, s)

/-- Takes the next character if it satisfies `p`. -/
def nextIf (p : Char → Bool) (s : Source) : Except ReadError (Option Char) × Source :=
  match s.fill with
  | (.ok (), s) =>
    match s.buffer with
    | c :: cs => if p c then (.ok (some c), { s with buffer := cs, pos := s.pos.advance c }) else (.ok none, s)
    | [] => (.ok none, s)
  | (.error e, s) => (.error e, s)

/-- Takes the next character; none at the end. -/
def next (s : Source) : Except ReadError (Option Char) × Source := s.nextIf fun _ => true

/-- Whether no character is left. -/
def atEnd (s : Source) : Except ReadError Bool × Source :=
  match s.peek with
  | (.ok c, s) => (.ok c.isNone, s)
  | (.error e, s) => (.error e, s)

/-! ## What is left to read -/

/-- The number of characters in the buffer and of bytes behind it. -/
def size (s : Source) : Nat := s.buffer.length + s.pending.length

/-- A line and what is behind it are all there is. -/
theorem length_splitLine (bytes : List UInt8) :
    (splitLine bytes).1.length + (splitLine bytes).2.length = bytes.length := by
  induction bytes with
  | nil => rfl
  | cons b rest ih =>
    unfold splitLine
    split
    · simp [Nat.add_comm]
    · simp only [List.length_cons]
      omega

/-- A line has bytes, if there are any. -/
theorem splitLine_cons_ne_nil (b : UInt8) (bytes : List UInt8) : (splitLine (b :: bytes)).1 ≠ [] := by
  unfold splitLine
  split <;> simp

/-- Text takes at least one byte for each character. -/
theorem length_le_of_decode? {bytes : List UInt8} {cs : List Char} (h : decode? bytes = some cs) :
    cs.length ≤ bytes.length := by
  unfold decode? at h
  obtain ⟨a, ha, rfl⟩ := Option.map_eq_some_iff.1 h
  obtain ⟨l, hl⟩ := ByteArray.isSome_utf8Decode?_iff.1 (by simp [ha] : bytes.toByteArray.utf8Decode?.isSome)
  have hdec : a = l.toArray := by
    rw [hl, List.utf8Decode?_utf8Encode] at ha
    exact (Option.some.inj ha).symm
  have hbytes : bytes = l.flatMap String.utf8EncodeChar := by
    have := congrArg (fun b : ByteArray => b.data.toList) hl
    simpa [List.utf8Encode] using this
  subst hdec
  rw [hbytes]
  simp only
  clear hl hbytes h ha
  induction l with
  | nil => simp
  | cons c rest ih =>
    have : 0 < (String.utf8EncodeChar c).length := List.length_pos_iff.2 (by simp)
    simp only [List.flatMap_cons, List.length_append, List.length_cons] at ih ⊢
    omega

/-- Filling the buffer leaves no more to read. -/
theorem size_fill_le (s : Source) : s.fill.2.size ≤ s.size := by
  unfold fill
  split
  · rename_i b bytes hb hp
    have hlen := length_splitLine (b :: bytes)
    split
    · rename_i cs hcs
      have := length_le_of_decode? hcs
      simp only [size, hb, hp, List.length_nil]
      omega
    · simp only [size, hb, hp, List.length_nil]
      omega
  · exact Nat.le_refl _

/-- Taking a character leaves no more to read. -/
theorem size_nextIf_le (p : Char → Bool) (s : Source) : (s.nextIf p).2.size ≤ s.size := by
  have h := size_fill_le s
  unfold nextIf
  split
  · rename_i s' hs
    rw [hs] at h
    split
    · rename_i c cs hb
      split
      · simp only [size, hb, List.length_cons] at h ⊢
        omega
      · exact h
    · exact h
  · rename_i e s' hs
    rw [hs] at h
    exact h

/-- A character taken is a character less. -/
theorem size_nextIf_lt {p : Char → Bool} {s s' : Source} {c : Char} (h : s.nextIf p = (.ok (some c), s')) :
    s'.size < s.size := by
  have hle := size_fill_le s
  unfold nextIf at h
  split at h
  · rename_i t ht
    rw [ht] at hle
    split at h
    · rename_i d ds hb
      split at h
      · cases h
        simp only [size, hb, List.length_cons] at hle ⊢
        omega
      · simp at h
    · simp at h
  · simp at h

/-- The longest run of characters that satisfy `p`, taken. -/
def takeWhile (p : Char → Bool) (s : Source) : Except ReadError (List Char) × Source :=
  match _h : s.nextIf p with
  | (.ok (some c), s') =>
    match takeWhile p s' with
    | (.ok cs, s'') => (.ok (c :: cs), s'')
    | (.error e, s'') => (.error e, s'')
  | (.ok none, s') => (.ok [], s')
  | (.error e, s') => (.error e, s')
termination_by s.size
decreasing_by exact size_nextIf_lt _h

/-- Taking a run of characters leaves no more to read. -/
theorem size_takeWhile_le (p : Char → Bool) (s : Source) : (s.takeWhile p).2.size ≤ s.size := by
  fun_induction takeWhile p s with
  | case1 s c s' h cs s'' hs ih =>
    have := size_nextIf_lt h
    rw [hs] at ih
    simp only at ih ⊢
    omega
  | case2 s c s' h e s'' hs ih =>
    have := size_nextIf_lt h
    rw [hs] at ih
    simp only at ih ⊢
    omega
  | case3 s s' h => simpa [h] using size_nextIf_le p s
  | case4 s e s' h => simpa [h] using size_nextIf_le p s

end Source

end C0Stack
