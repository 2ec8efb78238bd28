import Chip8.Proofs.ShownPicture
import Mathlib.Data.List.Induction

/-!
# What makes a picture news

A picture is news when a word drew since it was last handed over: one that turns
every pixel off, or a sprite with a bit set in it (`Machine.draws`).  It makes no
difference whether the picture ends up as it was, and nothing else makes it news
(`changed_step`).  So the picture of a machine that was just switched on is handed over
if a word drew since it was asked for last, and else is not (`handed_over_iff_drawn`).
-/

namespace Chip8

/-! ## Sprites -/

namespace Sprite

/-- A byte other than zero has a bit set. -/
theorem exists_getMsbD {byte : Byte} (hne : byte ≠ 0) : ∃ c < 8, byte.getMsbD c = true := by
  apply Classical.byContradiction
  intro hnone
  apply hne
  apply BitVec.eq_of_getMsbD_eq
  intro c hc
  have hzero : (0 : Byte).getMsbD c = false := BitVec.getMsbD_zero
  rw [hzero]
  exact Bool.eq_false_iff.2 fun hset => hnone ⟨c, hc, hset⟩

/-- A sprite covers a pixel exactly if one of its bytes has a bit set. -/
theorem isEmpty_pixels (x y : Nat) (bytes : List Byte) :
    (pixels x y bytes).isEmpty = !bytes.any (· != 0) := by
  rw [Bool.eq_iff_iff, List.isEmpty_iff, Bool.not_eq_true', pixels, List.flatMap_eq_nil_iff]
  constructor
  · intro hempty
    rw [List.any_eq_false]
    intro byte hbyte hne
    obtain ⟨c, hc, hset⟩ := exists_getMsbD (bne_iff_ne.1 hne)
    obtain ⟨r, hr⟩ := List.getElem?_of_mem hbyte
    have hmem : (byte, r) ∈ bytes.zipIdx := List.mk_mem_zipIdx_iff_getElem?.2 hr
    have hrow := hempty _ hmem
    rw [List.map_eq_nil_iff, List.filter_eq_nil_iff] at hrow
    exact hrow c (List.mem_range.2 hc) hset
  · rintro hzero ⟨byte, r⟩ hmem
    have hbyte := List.any_eq_false.1 hzero byte (List.fst_mem_of_mem_zipIdx hmem)
    have heq : byte = 0 := by simpa using hbyte
    simp [heq]

end Sprite

/-! ## Words that draw -/

/-- Whether an instruction draws: it turns every pixel off, or draws a sprite that
has a bit set in it. -/
def Instruction.draws (m : Machine) : Instruction → Bool
  | .clear => true
  | .draw _ _ n => (m.readIndexed n.toNat).any (· != 0)
  | _ => false

namespace Machine

variable (m : Machine)

/-- Whether the next step draws: the machine does not wait for a key, and the word
that the program counter points at draws. -/
def draws (m : Machine) : Bool := !m.paused && m.fetch.decode.draws m

/-- An instruction makes the picture news exactly if it draws. -/
theorem changed_execute (i : Instruction) (random : Byte) :
    (i.execute random m).display.changed = (m.display.changed || i.draws m) := by
  rw [Instruction.execute_display]
  cases i with
  | clear => exact (Bool.or_true _).symm
  | draw x y n =>
      rw [Display.changed_draw, Sprite.isEmpty_pixels, Bool.not_not]
      rfl
  | _ => exact (Bool.or_false _).symm

/-- **A step makes the picture news exactly if it draws.** -/
theorem changed_step (random : Byte) :
    (m.after (.step random)).display.changed = (m.display.changed || m.draws) := by
  cases hpaused : m.paused with
  | true => simp [after_step_of_paused hpaused, draws, hpaused]
  | false =>
      rw [after_step_of_running hpaused, changed_execute, draws, hpaused]
      rfl

end Machine

/-- The byte `row` places from the index register on is the one that a sprite has in
its row `row`. -/
theorem Machine.any_readIndexed_iff (m : Machine) (count : Nat) :
    (m.readIndexed count).any (· != 0) = true ↔
      ∃ row < count, m.read (m.i + .ofNat 16 row) ≠ 0 := by
  simp only [Machine.read, Word.address_add_ofNat, List.any_eq_true, bne_iff_ne]
  constructor
  · rintro ⟨byte, hmem, hne⟩
    obtain ⟨row, hrow, hbyte⟩ := List.getElem_of_mem hmem
    have hcell := (Bank.getElem_readFrom _ _ hrow).symm.trans hbyte
    rw [readIndexed, Bank.length_readFrom] at hrow
    exact ⟨row, hrow, hcell ▸ hne⟩
  · rintro ⟨row, hrow, hne⟩
    have hlt : row < (m.memory.readFrom m.i.address count).length := by
      rwa [Bank.length_readFrom]
    exact ⟨_, List.getElem_mem hlt, (Bank.getElem_readFrom _ _ hlt).symm ▸ hne⟩

/-- **The digits of the words that draw**: 00E0, and Dxyn if one of the n bytes from
the index register on is not zero. -/
theorem Opcode.draws_decode (op : Opcode) (m : Machine) :
    op.decode.draws m = true ↔
      op.word = 0x00E0 ∨
        op.family = 0xD ∧ ∃ row < op.n.toNat, m.read (m.i + .ofNat 16 row) ≠ 0 := by
  constructor
  · intro hdraws
    have hpattern := op.decode_pattern
    cases hop : op.decode with
    | clear =>
        rw [hop] at hpattern
        exact Or.inl hpattern
    | draw x y n =>
        rw [hop] at hpattern hdraws
        obtain ⟨hfamily, -, -, rfl⟩ := hpattern
        exact Or.inr ⟨hfamily, (m.any_readIndexed_iff _).1 hdraws⟩
    | _ =>
        rw [hop] at hdraws
        exact absurd hdraws Bool.false_ne_true
  · rintro (hword | ⟨hfamily, hbytes⟩)
    · have hop : op.decode = .clear := decode_of_pattern hword
      rw [hop]
      rfl
    · have hop : op.decode = .draw op.x op.y op.n := decode_of_pattern ⟨hfamily, rfl, rfl, rfl⟩
      rw [hop]
      exact (m.any_readIndexed_iff _).2 hbytes

/-! ## The news after a run -/

namespace Machine

variable (m : Machine)

/-- What a command does to the news about the picture. -/
theorem changed_after (c : Command) :
    (m.after c).display.changed =
      match c with
      | .step _ => m.display.changed || m.draws
      | .takeFrame | .reset => false
      | _ => m.display.changed := by
  cases c with
  | step random => exact m.changed_step random
  | keyDown b => rw [after_keyDown]
  | keyUp b => rw [after_keyUp]
  | takeFrame => rw [after_takeFrame]
  | load program => rw [after_load]
  | loadFrom readings => rw [after_loadFrom_eq]
  | reset => rfl

/-- Of the steps of a run that drew, the requests for the picture and the resets, a step
that drew was the last. -/
def DrewLast (m : Machine) (cs : List Command) : Prop :=
  ∃ before random since, cs = before ++ .step random :: since ∧
    .takeFrame ∉ since ∧ .reset ∉ since ∧ (m.run before).draws = true

theorem not_drewLast_nil : ¬ m.DrewLast [] := by
  rintro ⟨before, random, since, hsplit, -⟩
  simp at hsplit

/-- One more command is the step that drew, or leaves it the last. -/
theorem drewLast_concat_iff {cs : List Command} {c : Command} :
    m.DrewLast (cs ++ [c]) ↔
      (∃ random, c = .step random ∧ (m.run cs).draws = true) ∨
        m.DrewLast cs ∧ c ≠ .takeFrame ∧ c ≠ .reset := by
  constructor
  · -- The step that drew is the new command if nothing came since, else it was there before.
    rintro ⟨before, random, since, hsplit, htake, hreset, hdraws⟩
    obtain rfl | ⟨since, d, rfl⟩ := List.eq_nil_or_concat since
    · obtain ⟨rfl, hlast⟩ := List.append_inj' hsplit rfl
      exact Or.inl ⟨random, List.singleton_inj.1 hlast, hdraws⟩
    · rw [List.concat_eq_append] at hsplit htake hreset
      rw [← List.cons_append, ← List.append_assoc] at hsplit
      obtain ⟨rfl, hlast⟩ := List.append_inj' hsplit rfl
      obtain rfl := List.singleton_inj.1 hlast
      simp only [List.mem_append, List.mem_singleton, not_or] at htake hreset
      exact Or.inr ⟨⟨before, random, since, rfl, htake.1, hreset.1, hdraws⟩,
        Ne.symm htake.2, Ne.symm hreset.2⟩
  · rintro (⟨random, rfl, hdraws⟩ | ⟨⟨before, random, since, rfl, htake, hreset, hdraws⟩, hlast⟩)
    · exact ⟨cs, random, [], rfl, List.not_mem_nil, List.not_mem_nil, hdraws⟩
    · refine ⟨before, random, since ++ [c], by simp, ?_, ?_, hdraws⟩
      · simp [htake, Ne.symm hlast.1]
      · simp [hreset, Ne.symm hlast.2]

/-- **When the picture is news after a run**: if it was before and nobody asked for it
since, or if a step drew. -/
theorem changed_run_iff (cs : List Command) :
    (m.run cs).display.changed = true ↔
      m.display.changed = true ∧ .takeFrame ∉ cs ∧ .reset ∉ cs ∨ m.DrewLast cs := by
  induction cs using List.reverseRecOn with
  | nil => simp [not_drewLast_nil]
  | append_singleton cs c ih =>
      rw [run_append, run_cons, run_nil, changed_after, drewLast_concat_iff]
      cases c with
      | step random =>
          simp only [Bool.or_eq_true, ih, List.mem_append, List.mem_singleton, reduceCtorEq,
            or_false, Command.step.injEq, exists_eq_left', ne_eq, not_false_eq_true, and_true]
          tauto
      | _ => simp [ih]

/-- A step draws if the machine does not wait for a key and its word draws. -/
theorem draws_iff :
    m.draws = true ↔ m.paused = false ∧
      (m.fetch.word = 0x00E0 ∨
        m.fetch.family = 0xD ∧ ∃ row < m.fetch.n.toNat, m.read (m.i + .ofNat 16 row) ≠ 0) := by
  rw [draws, Bool.and_eq_true, Bool.not_eq_true', Opcode.draws_decode]

end Machine

/-- **When a picture is handed over.**  A machine that was just switched on is given
any commands, and then it is asked for the picture.  It hands its picture over if one
of the steps made since it was asked last, or since the last reset, executed a word
00E0, or a word Dxyn with a byte other than zero among the n bytes from the index
register on; and it hands over nothing if no step did. -/
theorem handed_over_iff_drawn (cs : List Command) :
    let m := Machine.fresh.run cs
    let drawn := ∃ before random since, cs = before ++ .step random :: since ∧
      .takeFrame ∉ since ∧ .reset ∉ since ∧
        let n := Machine.fresh.run before
        n.paused = false ∧ (n.fetch.word = 0x00E0 ∨
          n.fetch.family = 0xD ∧ ∃ row < n.fetch.n.toNat, n.read (n.i + .ofNat 16 row) ≠ 0)
    ((m.perform .takeFrame).2 = .picture (some m.display.frame) ↔ drawn) ∧
      ((m.perform .takeFrame).2 = .picture none ↔ ¬ drawn) := by
  intro m drawn
  have hdrawn : m.display.changed = true ↔ drawn := by
    rw [Machine.changed_run_iff]
    have hstart : Machine.fresh.display.changed = false := rfl
    simp only [hstart, Bool.false_eq_true, false_and, false_or, Machine.DrewLast,
      Machine.draws_iff, drawn]
  rw [Machine.answer_takeFrame, ← hdrawn]
  cases m.display.changed <;> simp

end Chip8
