import Chip8.Proofs.Footprint
import Chip8.Proofs.Runs
import Mathlib.Data.List.Induction

/-!
# What the timers count

A timer ticks whenever a word is executed, and at no other time: not while the
machine waits for a key, and not when a key goes up or down, a picture is handed over
or a program is loaded.  Two words set it, one each.  A timer that no word sets has
therefore fallen by the number of words executed, but not below zero
(`Timer.toNat_run`), and that is what a word reads off the delay timer as well, which
counts itself (`timers_count_executed_words`).

The timers are alike but for the word that sets them, so what is said of them here is
said of any `Timer`.
-/

namespace Chip8

theorem Byte.toNat_countDown (b : Byte) : b.countDown.toNat = b.toNat - 1 := by
  have hlt := b.isLt
  rw [Byte.countDown_eq, BitVec.toNat_ofNat, Nat.mod_eq_of_lt (by omega)]

/-- Whether a word is Fxkk, for some x and these last two digits. -/
def Opcode.IsTransfer (op : Opcode) (kk : Byte) : Prop := op.family = 0xF ∧ op.kk = kk

instance (op : Opcode) (kk : Byte) : Decidable (op.IsTransfer kk) :=
  inferInstanceAs (Decidable (_ ∧ _))

/-- One of the timers: what it shows, and the last two digits of the words Fxkk that
set it to Vx.  Any other word that is executed makes it tick. -/
structure Timer where
  value : Machine → Byte
  setBy : Byte
  value_after : ∀ (m : Machine) {c : Command}, c ≠ .reset →
    value (m.after c) =
      match m.executes c with
      | some op => if op.IsTransfer setBy then m.v[op.x] else (value m).countDown
      | none => value m

namespace Timer

/-- The delay timer, which Fx15 sets. -/
def delay : Timer where
  value := Machine.delay
  setBy := 0x15
  value_after := by
    intro m c hreset
    cases hop : m.executes c with
    | none => rw [Machine.after_of_executes_none hreset hop]
    | some op =>
        obtain ⟨random, -, hafter⟩ := Machine.after_of_executes hop
        rw [hafter, Opcode.delay_execute]
        rfl

/-- The sound timer, which Fx18 sets. -/
def sound : Timer where
  value := Machine.sound
  setBy := 0x18
  value_after := by
    intro m c hreset
    cases hop : m.executes c with
    | none => rw [Machine.after_of_executes_none hreset hop]
    | some op =>
        obtain ⟨random, -, hafter⟩ := Machine.after_of_executes hop
        rw [hafter, Opcode.sound_execute]
        rfl

variable (t : Timer) (m : Machine)

/-- A word that does not set a timer takes one off it, and nothing else does. -/
theorem toNat_after {c : Command} (hreset : c ≠ .reset)
    (hset : ∀ op ∈ m.executes c, ¬ op.IsTransfer t.setBy) :
    (t.value (m.after c)).toNat = (t.value m).toNat - (m.executes c).toList.length := by
  rw [t.value_after m hreset]
  cases hop : m.executes c with
  | none => rfl
  | some op =>
      have hother : ¬ op.IsTransfer t.setBy := hset op hop
      simp only [if_neg hother]
      exact (t.value m).toNat_countDown

/-- **A timer counts the words executed** in a run that does not set it. -/
theorem toNat_run {cs : List Command} (hreset : .reset ∉ cs)
    (hset : ∀ op ∈ m.executed cs, ¬ op.IsTransfer t.setBy) :
    (t.value (m.run cs)).toNat = (t.value m).toNat - (m.executed cs).length := by
  -- From the end: where the last command counts from is what the rest has left.
  induction cs using List.reverseRecOn with
  | nil => rfl
  | append_singleton cs c ih =>
      rw [List.mem_append, not_or, List.mem_singleton] at hreset
      simp only [Machine.executed_append, Machine.executed_singleton, List.mem_append] at hset
      have hrest := ih hreset.1 fun op hop => hset op (Or.inl hop)
      have hlast := t.toNat_after (m.run cs) (Ne.symm hreset.2) fun op hop =>
        hset op (Or.inr (Option.mem_toList.2 hop))
      rw [Machine.executed_append, Machine.executed_singleton, List.length_append,
        Machine.run_append, Machine.run_cons, Machine.run_nil, hlast, hrest]
      omega

end Timer

namespace Machine

/-- What a run leaves in the timers, by the number of words executed in it. -/
structure TimersCount (start : Machine) (cs : List Command) : Prop where
  /-- If no word Fx15 is executed, the delay timer falls by the number of words. -/
  delay : (∀ op ∈ start.executed cs, ¬ op.IsTransfer 0x15) →
    (start.run cs).delay.toNat = start.delay.toNat - (start.executed cs).length
  /-- If no word Fx18 is executed, so does the sound timer, and a tone sounds if there
  were fewer words than it showed. -/
  sound : (∀ op ∈ start.executed cs, ¬ op.IsTransfer 0x18) →
    (start.run cs).sound.toNat = start.sound.toNat - (start.executed cs).length ∧
      (start.run cs).sounding = decide ((start.executed cs).length < start.sound.toNat)
  /-- A word Fx07 before which no word Fx15 is executed puts the delay timer into Vx,
  less the number of words up to and with itself. -/
  reads : ∀ pre c op, pre ++ [c] <+: cs → (start.run pre).executes c = some op →
    op.IsTransfer 0x07 → (∀ op ∈ start.executed pre, ¬ op.IsTransfer 0x15) →
      (start.run (pre ++ [c])).v[op.x].toNat =
        start.delay.toNat - ((start.executed pre).length + 1)
  /-- A step of a machine that waits for a key makes no difference to anything. -/
  waits : ∀ pre random, pre ++ [.step random] <+: cs → (start.run pre).paused = true →
    start.run (pre ++ [.step random]) = start.run pre ∧
      start.executed (pre ++ [.step random]) = start.executed pre

end Machine

/-- A word Fx07 puts into Vx what the delay timer shows after it ticked. -/
theorem Opcode.v_execute_of_reads {op : Opcode} (hreads : op.IsTransfer 0x07)
    (random : Byte) (m : Machine) :
    (op.decode.execute random m.advance).v[op.x] = m.delay.countDown := by
  have hdecode : op.decode = .readDelay op.x := decode_of_pattern ⟨hreads.1, hreads.2, rfl⟩
  rw [hdecode]
  exact Bank.getElem_set_self _ _ _

/-- **The timers count executed words**, in every run without a reset and from every
state. -/
theorem timers_count_executed_words (start : Machine) {cs : List Command}
    (hreset : .reset ∉ cs) : start.TimersCount cs where
  delay := Timer.delay.toNat_run start hreset
  sound := by
    intro hset
    have hsound : (start.run cs).sound.toNat =
        start.sound.toNat - (start.executed cs).length :=
      Timer.sound.toNat_run start hreset hset
    refine ⟨hsound, ?_⟩
    have hzero : (start.run cs).sound ≠ 0 ↔ 0 < (start.run cs).sound.toNat := by bv_omega
    rw [Machine.sounding, Bool.eq_iff_iff, bne_iff_ne, decide_eq_true_eq, hzero, hsound]
    omega
  reads := by
    intro pre c op hpre hop hreads hset
    have hpre' : .reset ∉ pre := fun hmem => hreset (hpre.subset (by simp [hmem]))
    have hdelay : (start.run pre).delay.toNat =
        start.delay.toNat - (start.executed pre).length :=
      Timer.delay.toNat_run start hpre' hset
    obtain ⟨random, -, hafter⟩ := Machine.after_of_executes hop
    rw [Machine.run_append, Machine.run_cons, Machine.run_nil, hafter,
      op.v_execute_of_reads hreads, Byte.toNat_countDown, hdelay]
    omega
  waits := by
    intro pre random _ hpaused
    constructor
    · rw [Machine.run_append, Machine.run_cons, Machine.run_nil,
        Machine.after_step_of_paused hpaused]
    · simp [Machine.executes, hpaused]

/-- A program waits for a key and reads the delay timer; the sound timer runs out with
its last word, and a step made while it waits does not count. -/
theorem timers_count_executed_words_past_wait :
    let start := { Machine.fresh with delay := 5, sound := 2 }
    let pre : List Command := [.load [0xF1, 0x0A, 0xF2, 0x07], .step 0, .step 0, .keyDown 3,
      .takeFrame]
    .reset ∉ pre ++ [.step 0] ∧ start.TimersCount (pre ++ [.step 0]) ∧
      start.executed (pre ++ [.step 0]) = [⟨0xF10A⟩, ⟨0xF207⟩] ∧
      (start.run (pre ++ [.step 0])).delay.toNat = 3 ∧
      (start.run (pre ++ [.step 0])).sounding = false ∧
      (start.run (pre ++ [.step 0])).v[(2 : Register)].toNat = 3 := by
  intro start pre
  have hreset : .reset ∉ pre ++ [.step 0] := by simp [pre]
  have hfirst : start.executed pre = [⟨0xF10A⟩] := by decide +kernel
  have hlast : (start.run pre).executes (.step 0) = some ⟨0xF207⟩ := by decide +kernel
  have hexecuted : start.executed (pre ++ [.step 0]) = [⟨0xF10A⟩, ⟨0xF207⟩] := by
    rw [Machine.executed_append, Machine.executed_singleton, hfirst, hlast]
    rfl
  have hcount := timers_count_executed_words start hreset
  refine ⟨hreset, hcount, hexecuted, ?_, ?_, ?_⟩
  · rw [hcount.delay (by rw [hexecuted]; decide), hexecuted]
    rfl
  · rw [(hcount.sound (by rw [hexecuted]; decide)).2, hexecuted]
    rfl
  · have hreads := hcount.reads pre (.step 0) ⟨0xF207⟩ (List.prefix_refl _) hlast (by decide)
      (by rw [hfirst]; decide)
    rw [hfirst] at hreads
    exact hreads

end Chip8
