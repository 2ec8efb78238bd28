import Chip8.Instruction.Text
import Chip8.Proofs.Decoding

/-!
# What an assembly line says

An assembly line is all that a log shows of a word, and nothing is lost by it: the
line of an instruction determines the instruction (`Instruction.text_inj`).  To
read a line back, one cuts it at its first blank and then at its commas, since no
mnemonic has a blank and no operand a comma; then the kinds of the operands tell
the instructions apart that share a mnemonic.

The digits of a word are matched twice, to choose its line and to select its operation.
Both choices are those of its instruction (`text_eq`, `instruction_operation`), and so they
agree: two words have the same line exactly if they are the same word, or one operation is
selected for both and they agree in every field that it takes an operand from
(`line_iff_operation_and_fields`).
-/

namespace Chip8

/-! ## Lists with commas -/

/-- Pieces with something between them: that stands in front of all but the first. -/
theorem intercalate_eq_append_flatMap {α : Type} (sep p : List α) (ps : List (List α)) :
    sep.intercalate (p :: ps) = p ++ ps.flatMap (sep ++ ·) := by
  induction ps generalizing p with
  | nil => simp
  | cons q qs ih =>
      rw [List.intercalate_cons_cons, ih, List.flatMap_cons, List.append_assoc, List.append_assoc]

/-- Pieces with a comma and a blank between them are pieces with a comma between
them, all but the first of which start with a blank. -/
theorem intercalate_comma_blank (p : List Char) (ps : List (List Char)) :
    [',', ' '].intercalate (p :: ps) = [','].intercalate (p :: ps.map (' ' :: ·)) := by
  rw [intercalate_eq_append_flatMap, intercalate_eq_append_flatMap, List.flatMap_map]
  rfl

/-- A list with commas can be cut into its pieces, if none of them has a comma. -/
theorem intercalate_comma_blank_inj {p q : List Char} {ps qs : List (List Char)}
    (hps : ∀ r ∈ p :: ps, ',' ∉ r) (hqs : ∀ r ∈ q :: qs, ',' ∉ r)
    (h : [',', ' '].intercalate (p :: ps) = [',', ' '].intercalate (q :: qs)) :
    p :: ps = q :: qs := by
  rw [intercalate_comma_blank, intercalate_comma_blank] at h
  have hcut := congrArg (List.splitOn ',') h
  rw [List.splitOn_intercalate _ (by simpa using hps) (List.cons_ne_nil _ _),
    List.splitOn_intercalate _ (by simpa using hqs) (List.cons_ne_nil _ _)] at hcut
  obtain ⟨hhead, htail⟩ := List.cons.inj hcut
  rw [hhead, (List.map_inj_right (by simp)).1 htail]

/-! ## Operands -/

namespace Operand

/-- Heights are written in decimal. -/
theorem isDigit_of_mem_text {n : BitVec 4} {c : Char} (hc : c ∈ (height n).text.toList) :
    c.isDigit = true := by
  have hdigits : c ∈ Nat.toDigits 10 n.toNat := by simpa [text] using hc
  exact Nat.isDigit_of_mem_toDigits (by decide) (by decide) hdigits

theorem exists_height {a : Operand} (hdigits : ∀ c ∈ a.text.toList, c.isDigit = true) :
    ∃ n, a = .height n := by
  cases a with
  | height n => exact ⟨n, rfl⟩
  | _ => simp [text] at hdigits

theorem height_text_inj : ∀ {m n : BitVec 4}, (height m).text = (height n).text → m = n := by
  decide

theorem comma_not_mem_text (a : Operand) : ',' ∉ a.text.toList := by
  intro hc
  cases a with
  | height n => exact absurd (isDigit_of_mem_text hc) (by decide)
  | register | byte | address | word =>
      have halphanum : ','.isAlphanum = true :=
        Hex.isAlphanum_of_mem_digits (by simpa [text] using hc)
      exact absurd halphanum (by decide)
  | _ => simp [text] at hc

/-- The spelling of an operand determines it. -/
theorem text_inj {a b : Operand} (h : a.text = b.text) : a = b := by
  by_cases hheight : ∀ c ∈ a.text.toList, c.isDigit = true
  · obtain ⟨m, rfl⟩ := exists_height hheight
    obtain ⟨n, rfl⟩ := exists_height (h ▸ hheight)
    rw [height_text_inj h]
  · have ha : ∀ n, a ≠ .height n := by
      rintro n rfl
      exact hheight fun c hc => isDigit_of_mem_text hc
    have hb : ∀ n, b ≠ .height n := by
      rintro n rfl
      exact hheight (h ▸ fun c hc => isDigit_of_mem_text hc)
    have hlist := congrArg String.toList h
    have hlength := congrArg List.length hlist
    -- First letters tell names from numbers, and lengths tell the numbers apart.
    cases a <;> cases b <;>
      simp [text, Hex.digits_toNat_inj] at hlist hlength ha hb ⊢
    all_goals exact hlist

end Operand

/-! ## Lines -/

namespace Instruction

/-- What stands after the mnemonic. -/
def operandsText : List Operand → List Char
  | [] => []
  | operands => ' ' :: [',', ' '].intercalate (operands.map (·.text.toList))

/-- A line is a mnemonic and what stands after it. -/
theorem toList_text (i : Instruction) :
    i.text.toList = i.mnemonic.toList ++ operandsText i.operands := by
  unfold text
  split
  case h_1 h => simp [h, operandsText]
  case h_2 h => simp [operandsText, Function.comp_def]

theorem blank_not_mem_mnemonic (i : Instruction) : ' ' ∉ i.mnemonic.toList := by
  cases i <;> simp [mnemonic]

/-- The first blank of a line is where its mnemonic ends. -/
theorem cut_at_blank (i : Instruction) :
    i.text.toList.takeWhile (· ≠ ' ') = i.mnemonic.toList ∧
      i.text.toList.dropWhile (· ≠ ' ') = operandsText i.operands := by
  have hmnemonic : ∀ c ∈ i.mnemonic.toList, decide (c ≠ ' ') = true := by
    intro c hc
    exact decide_eq_true fun hblank => i.blank_not_mem_mnemonic (hblank ▸ hc)
  have hrest : operandsText i.operands = [] ∨
      ∃ rest, operandsText i.operands = ' ' :: rest := by
    cases i.operands with
    | nil => exact Or.inl rfl
    | cons a as => exact Or.inr ⟨_, rfl⟩
  rw [toList_text, List.takeWhile_append_of_pos hmnemonic,
    List.dropWhile_append_of_pos hmnemonic]
  rcases hrest with hrest | ⟨rest, hrest⟩ <;> simp [hrest]

/-- What stands after the mnemonic determines the operands. -/
theorem operandsText_inj {as bs : List Operand} (h : operandsText as = operandsText bs) :
    as = bs := by
  cases as with
  | nil =>
      cases bs with
      | nil => rfl
      | cons b bs => exact absurd h (List.cons_ne_nil _ _).symm
  | cons a as =>
      cases bs with
      | nil => exact absurd h (List.cons_ne_nil _ _)
      | cons b bs =>
          have hcomma : ∀ operands : List Operand,
              ∀ r ∈ operands.map (·.text.toList), ',' ∉ r := by
            intro operands r hr
            obtain ⟨c, -, rfl⟩ := List.mem_map.1 hr
            exact c.comma_not_mem_text
          have hpieces := intercalate_comma_blank_inj (hcomma (a :: as)) (hcomma (b :: bs))
            (List.cons.inj h).2
          exact (List.map_inj_right fun _ _ hc => Operand.text_inj (String.toList_inj.1 hc)).1
            hpieces

/-- The mnemonic and the operands determine the instruction. -/
theorem eq_of_parts {i j : Instruction} (hmnemonic : i.mnemonic = j.mnemonic)
    (hoperands : i.operands = j.operands) : i = j := by
  cases i <;> cases j <;> simp_all [mnemonic, operands]

/-- **The line of an instruction determines it.** -/
theorem text_inj {i j : Instruction} (h : i.text = j.text) : i = j := by
  have hi := i.cut_at_blank
  rw [h] at hi
  have hmnemonic := hi.1.symm.trans j.cut_at_blank.1
  have hoperands := hi.2.symm.trans j.cut_at_blank.2
  exact eq_of_parts (String.toList_inj.1 hmnemonic) (operandsText_inj hoperands)

/-- Only data is written as data. -/
theorem data_prefix_text_iff {i : Instruction} :
    "DATA".toList <+: i.text.toList ↔ ∃ word, i = .data word := by
  rw [toList_text]
  cases i <;> simp [mnemonic, operands, operandsText]

end Instruction

/-! ## Operations and the fields that they use -/

/-- The parts of a word that can be operands. -/
inductive Opcode.Field where
  /-- The second digit. -/
  | x
  /-- The third digit. -/
  | y
  /-- The last digit. -/
  | n
  /-- The last two digits. -/
  | kk
  /-- The last three digits. -/
  | address
deriving DecidableEq

/-- What stands in a part of a word. -/
def Opcode.field (op : Opcode) : Opcode.Field → Nat
  | .x => op.x.toNat
  | .y => op.y.toNat
  | .n => op.n.toNat
  | .kk => op.kk.toNat
  | .address => op.address.toNat

/-- The parts of a word that an operation takes its operands from. -/
def Operation.fields : Operation → List Opcode.Field
  | .clear | .ret | .nop => []
  | .jump | .call | .setIndex | .setIndexOffset => [.address]
  | .skipIfByte | .skipUnlessByte | .setByte | .addByte | .random => [.x, .kk]
  | .skipIfSame | .skipUnlessSame | .copy | .or | .and | .xor | .add | .sub | .subFrom => [.x, .y]
  | .draw => [.x, .y, .n]
  | .shiftRight | .shiftLeft | .skipIfHeld | .skipUnlessHeld | .readDelay | .awaitKey | .setDelay
  | .setSound | .addIndex | .glyph | .decimal | .store | .load => [.x]

/-- Operations make the same instruction of two words exactly if they are the same operation
and the words agree in its fields.  Only of words that are not recognised more is made. -/
theorem Operation.instruction_eq_iff {o₁ o₂ : Operation} (hnop : o₁ ≠ .nop) {op₁ op₂ : Opcode} :
    o₁.instruction op₁ = o₂.instruction op₂ ↔
      o₁ = o₂ ∧ ∀ f ∈ o₁.fields, op₁.field f = op₂.field f := by
  constructor
  · intro h
    have hsame : o₁ = o₂ := by
      cases o₁ <;> cases o₂ <;> simp [instruction] at h ⊢
    subst hsame
    refine ⟨rfl, ?_⟩
    cases o₁ <;> simp_all [instruction, fields, Opcode.field]
  · rintro ⟨rfl, hfields⟩
    cases o₁ <;> simp_all [instruction, fields, Opcode.field, BitVec.toNat_inj]

namespace Opcode

variable {op op₁ op₂ : Opcode}

/-- **The line of a word is that of its instruction.** -/
theorem text_eq (op : Opcode) : op.text = op.decode.text := by
  have hkk := op.kk_eq_append
  have hword := op.word_eq_append
  have hzero : Hex.digits 1 0 = ['0'] := rfl
  unfold text
  split
  case h_35 =>
    have hnop : op.operation = .nop := by simp [operation, *]
    rw [decode_of_operation_eq_nop hnop]
    apply String.toList_inj.1
    simp [Instruction.text, Instruction.mnemonic, Instruction.operands, Operand.text]
  all_goals
    apply String.toList_inj.1
    simp [decode, decodeSystem, decodeArithmetic, decodeKey, decodeTransfer, Instruction.text,
      Instruction.mnemonic, Instruction.operands, Operand.text, *]

theorem decode_eq_of_text_eq (htext : op₁.text = op₂.text) : op₁.decode = op₂.decode := by
  rw [text_eq, text_eq] at htext
  exact Instruction.text_inj htext

/-- A line says that a word is data exactly if the word is not recognised. -/
theorem data_prefix_text_iff : "DATA".toList <+: op.text.toList ↔ op.operation = .nop := by
  rw [text_eq, Instruction.data_prefix_text_iff, operation_eq_nop_iff]

/-- Words that are not recognised are told apart. -/
theorem eq_of_decode_eq_of_nop (hnop : op₁.operation = .nop) (hdecode : op₁.decode = op₂.decode) :
    op₁ = op₂ := by
  have hnop₂ : op₂.operation = .nop := by
    rw [operation_eq_nop_iff] at hnop ⊢
    rwa [← hdecode]
  rw [decode_of_operation_eq_nop hnop, decode_of_operation_eq_nop hnop₂] at hdecode
  exact congrArg Opcode.mk (Instruction.data.inj hdecode)

/-- A word is reported as unrecognised exactly if no operation is selected for it. -/
theorem notices_eq_unrecognised_iff : op.notices = [.unrecognised op] ↔ op.operation = .nop := by
  unfold notices
  split <;> simp_all

end Opcode

/-- **Lines and operations agree** on all words.  Two words have the same line exactly
if they are the same word, or if both are recognised, the same operation is selected for
both, and they agree in every field that it uses.  The operations of words with the same
line do the same to every machine, whatever the random byte.  And a line says that a word
is data exactly if the operation selected for the word is the one that does nothing, and
the word is reported as unrecognised. -/
theorem line_iff_operation_and_fields :
    (∀ op₁ op₂ : Opcode, op₁.text = op₂.text ↔
      op₁ = op₂ ∨
        (op₁.operation ≠ .nop ∧ op₁.operation = op₂.operation ∧
          ∀ f ∈ op₁.operation.fields, op₁.field f = op₂.field f)) ∧
      (∀ op₁ op₂ : Opcode, op₁.text = op₂.text →
        ∀ random m, op₁.operation.run op₁ random m = op₂.operation.run op₂ random m) ∧
      ∀ op : Opcode, ("DATA".toList <+: op.text.toList ↔ op.operation = .nop) ∧
        (op.operation = .nop ↔ op.notices = [.unrecognised op]) ∧
        (op.operation = .nop → ∀ random m, op.operation.run op random m = m) := by
  refine ⟨?_, ?_, ?_⟩
  · intro op₁ op₂
    constructor
    · intro htext
      have hdecode := Opcode.decode_eq_of_text_eq htext
      by_cases hnop : op₁.operation = .nop
      · exact Or.inl (Opcode.eq_of_decode_eq_of_nop hnop hdecode)
      · rw [← Opcode.instruction_operation, ← Opcode.instruction_operation] at hdecode
        exact Or.inr ⟨hnop, (Operation.instruction_eq_iff hnop).1 hdecode⟩
    · rintro (rfl | ⟨hnop, hsame⟩)
      · rfl
      · have hinstruction := (Operation.instruction_eq_iff hnop).2 hsame
        rw [Opcode.instruction_operation, Opcode.instruction_operation] at hinstruction
        rw [Opcode.text_eq, Opcode.text_eq, hinstruction]
  · intro op₁ op₂ htext random m
    rw [Opcode.run_operation, Opcode.run_operation, Opcode.decode_eq_of_text_eq htext]
  · intro op
    refine ⟨Opcode.data_prefix_text_iff, Opcode.notices_eq_unrecognised_iff.symm, ?_⟩
    intro hnop random m
    rw [hnop]
    rfl

end Chip8
