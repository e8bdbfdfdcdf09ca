import C0Stack.Program
import C0Stack.Text.Lines
import C0Stack.Proofs.Token.Printing

/-!
# Reading a listing

A listing shows all there is to the instructions of a program. Every row ends at its line feed, the address ends at the first colon of
the row, however many digits it has, and the mnemonic at the first space behind that. `Program.readListing` goes by these marks and gets
the instructions back from the listing of every program (`listing_determines`).
-/

namespace C0Stack

/-! ## The reader -/

namespace Operation

def all : List Operation :=
  [lit, lod, sto, lodg, stog, add, sub, mul, div, eq, ne, lt, gt, le, ge, pop, call, ret, jmp, jz]

/-- The operation with the mnemonic. -/
def named? (name : List Char) : Option Operation := all.find? fun op => op.mnemonic.toList = name

end Operation

namespace Instruction

/-- What stands behind a mnemonic: nothing, or a space and the operand. -/
def readOperand : List Char → Option Nat
  | [] => none
  | _ :: digits => some (Lexing.decimalValue digits)

def isNotSpace (c : Char) : Bool := c ≠ ' '

/-- The instruction that the characters show. -/
def read? (cs : List Char) : Option Instruction :=
  (Operation.named? (cs.takeWhile isNotSpace)).map fun op => ⟨op, readOperand (cs.dropWhile isNotSpace)⟩

end Instruction

namespace Program

def isNotColon (c : Char) : Bool := c ≠ ':'

/-- The instruction of a row, behind the colon and a space. -/
def readRow? (cs : List Char) : Option Instruction := Instruction.read? ((cs.dropWhile isNotColon).drop 2)

/-- The instructions of a listing. -/
def readListing (text : String) : Option (List Instruction) := (Text.splitLines text.toList).mapM readRow?

end Program

/-! ## Fields and lines -/

namespace Text

/-- The text holds no line feed and none of the other characters before the space. -/
def Plain (text : String) : Prop := ∀ c ∈ text.toList, 32 ≤ c.toNat

instance (text : String) : Decidable (Plain text) := List.decidableBAll _ _

theorem Plain.append {text text' : String} (h : Plain text) (h' : Plain text') : Plain (text ++ text') := by
  unfold Plain
  rw [String.toList_append]
  exact List.forall_mem_append.2 ⟨h, h'⟩

/-- Spaces are plain. -/
theorem plain_spaces (count : Nat) : Plain (spaces count) := by
  unfold Plain spaces
  rw [String.toList_ofList]
  intro c hc
  rw [List.eq_of_mem_replicate hc]
  decide

/-- A field with a plain text is plain. -/
theorem Plain.alignRight {text : String} (h : Plain text) (width : Nat) : Plain (alignRight width text) := (plain_spaces _).append h

/-- A number is written in digits. -/
theorem toNat_of_mem_toString {n : Nat} {c : Char} (hc : c ∈ (toString n).toList) : 48 ≤ c.toNat ∧ c.toNat ≤ 57 :=
  isDigit_iff.1 ((Lexical.decimal_toString n).1.2 c hc)

theorem plain_toString (n : Nat) : Plain (toString n) := by
  intro c hc
  have hdigit := toNat_of_mem_toString hc
  omega

/-- A field with a number holds spaces and digits. -/
theorem mem_alignRight_toString {width n : Nat} {c : Char} (hc : c ∈ (alignRight width (toString n)).toList) :
    c = ' ' ∨ 48 ≤ c.toNat ∧ c.toNat ≤ 57 := by
  rw [alignRight, spaces, String.toList_append, String.toList_ofList, List.mem_append] at hc
  exact hc.imp List.eq_of_mem_replicate toNat_of_mem_toString

/-- A line of plain characters ends at its line feed. -/
theorem splitLines_feed {line : List Char} (h : ∀ c ∈ line, 32 ≤ c.toNat) (rest : List Char) :
    splitLines (line ++ '\n' :: rest) = line :: splitLines rest := by
  induction line with
  | nil => rw [List.nil_append, splitLines]
  | cons c line ih =>
    obtain ⟨hc, hline⟩ := List.forall_mem_cons.1 h
    rw [List.cons_append, splitLines, ih hline, consFirst]
    · rintro rfl
      exact absurd hc (by decide)
    · rintro _ rfl
      exact absurd hc (by decide)

end Text

/-! ## Instructions -/

theorem Operation.named?_mnemonic (op : Operation) : named? op.mnemonic.toList = some op := by
  cases op <;> decide

namespace Instruction

theorem isNotSpace_of_mem_mnemonic (op : Operation) : ∀ c ∈ op.mnemonic.toList, isNotSpace c = true := by
  rw [← List.all_eq_true]
  cases op <;> decide

theorem plain_mnemonic (op : Operation) : Text.Plain op.mnemonic := by
  cases op <;> decide

/-- The space ends the mnemonic, so that none is taken for another one that it starts or that starts it. -/
theorem read?_mnemonic (op : Operation) {rest : List Char} (hrest : ¬ Lexical.Starts isNotSpace rest) :
    read? (op.mnemonic.toList ++ rest) = some ⟨op, readOperand rest⟩ := by
  obtain ⟨htake, hdrop⟩ := Lexical.takeWhile_run (isNotSpace_of_mem_mnemonic op) hrest
  rw [read?, htake, hdrop, Operation.named?_mnemonic, Option.map_some]

theorem toList_render_some (op : Operation) (n : Nat) :
    (render ⟨op, some n⟩).toList = op.mnemonic.toList ++ ' ' :: (toString n).toList := by
  simp [render]

/-- An instruction is read back. -/
theorem read?_render (i : Instruction) : read? i.render.toList = some i := by
  obtain ⟨op, operand⟩ := i
  cases operand with
  | none =>
    have hread := read?_mnemonic op (Lexical.not_starts_nil (p := isNotSpace))
    rwa [List.append_nil] at hread
  | some n =>
    have hspace : ¬ Lexical.Starts isNotSpace (' ' :: (toString n).toList) := Lexical.not_starts_cons rfl _
    have hvalue : Lexing.decimalValue (toString n).toList = n := (Lexical.decimalValue_eq _).trans (Lexical.decimal_toString n).2
    rw [toList_render_some, read?_mnemonic op hspace, readOperand, hvalue]

/-- An instruction is plain. -/
theorem plain_render (i : Instruction) : Text.Plain i.render := by
  obtain ⟨op, operand⟩ := i
  cases operand with
  | none => exact plain_mnemonic op
  | some n => exact ((plain_mnemonic op).append (by decide)).append (Text.plain_toString n)

end Instruction

/-! ## Rows -/

namespace Program

/-- A row without its line feed. -/
def rowText (address : Nat) (i : Instruction) : String := Text.alignRight 4 (toString address) ++ ": " ++ i.render

theorem plain_rowText (address : Nat) (i : Instruction) : Text.Plain (rowText address i) :=
  (((Text.plain_toString address).alignRight 4).append (by decide)).append i.plain_render

/-- The first colon of a row is the one behind the address. -/
theorem readRow?_rowText (address : Nat) (i : Instruction) : readRow? (rowText address i).toList = some i := by
  have haddress : ∀ c ∈ (Text.alignRight 4 (toString address)).toList, isNotColon c = true := by
    intro c hc
    refine decide_eq_true ?_
    rintro rfl
    exact absurd (Text.mem_alignRight_toString hc) (by decide)
  have hcolon : ¬ Lexical.Starts isNotColon (':' :: ' ' :: i.render.toList) := Lexical.not_starts_cons rfl _
  have hrow : (rowText address i).toList = (Text.alignRight 4 (toString address)).toList ++ ':' :: ' ' :: i.render.toList := by
    simp [rowText]
  rw [readRow?, hrow, (Lexical.takeWhile_run haddress hcolon).2]
  exact i.read?_render

/-! ## Listings -/

/-- The rows of the instructions, the first of which has the given address. -/
def rowsFrom (address : Nat) (is : List Instruction) : List (List Char) := (is.zipIdx address).map fun (i, a) => (rowText a i).toList

/-- A listing is its rows, each with a line feed. -/
theorem toList_listing (p : Program) : p.listing.toList = (rowsFrom 0 p.instructions).flatMap (· ++ ['\n']) := by
  have hrow : ∀ address i, (row address i).toList = (rowText address i).toList ++ ['\n'] := fun _ _ => String.toList_append
  simp only [listing, rowsFrom, String.toList_join, List.flatMap_map, hrow]

/-- Plain rows are the lines of the listing. -/
theorem splitLines_rows {rows : List (List Char)} (h : ∀ row ∈ rows, ∀ c ∈ row, 32 ≤ c.toNat) :
    Text.splitLines (rows.flatMap (· ++ ['\n'])) = rows := by
  induction rows with
  | nil => rfl
  | cons row rows ih =>
    obtain ⟨hrow, hrows⟩ := List.forall_mem_cons.1 h
    rw [List.flatMap_cons, List.append_assoc, List.singleton_append, Text.splitLines_feed hrow, ih hrows]

/-- Rows are read back, whatever address they start with. -/
theorem mapM_readRow? (address : Nat) (is : List Instruction) : (rowsFrom address is).mapM readRow? = some is := by
  induction is generalizing address with
  | nil => rfl
  | cons i is ih =>
    have hrows : rowsFrom address (i :: is) = (rowText address i).toList :: rowsFrom (address + 1) is := rfl
    simp [hrows, readRow?_rowText, ih]

/-- A listing is read back. -/
theorem readListing_listing (p : Program) : readListing p.listing = some p.instructions := by
  have hrows : ∀ row ∈ rowsFrom 0 p.instructions, ∀ c ∈ row, 32 ≤ c.toNat := by
    intro row hrow
    obtain ⟨⟨i, address⟩, -, rfl⟩ := List.mem_map.1 hrow
    exact plain_rowText address i
  rw [readListing, toList_listing, splitLines_rows hrows, mapM_readRow?]

end Program

/-- The instructions of a program can be read off its listing, whatever operands they have or lack. So programs with the same listing have
the same instructions. -/
theorem listing_determines :
    (∀ p : Program, Program.readListing p.listing = some p.instructions) ∧
      ∀ p q : Program, p.listing = q.listing ↔ p.instructions = q.instructions := by
  refine ⟨Program.readListing_listing, ?_⟩
  intro p q
  constructor
  · intro h
    have hread := Program.readListing_listing p
    rw [h, Program.readListing_listing q] at hread
    exact (Option.some.inj hread).symm
  · intro h
    rw [Program.listing, Program.listing, h]

end C0Stack
