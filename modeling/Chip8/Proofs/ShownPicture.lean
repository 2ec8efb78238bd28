import Chip8.Proofs.Effect
import Chip8.Proofs.Runs

/-!
# The picture that a host shows

A host shows the picture that it was handed last.  Whether that is the picture of
the machine depends on the news about the display: as long as a picture that
differs from the one shown is news, the next one asked for is handed over.
Machine and host are then in step (`InStep`), and asking for the picture makes
their pictures equal exactly if they were (`shown_takeFrame_eq_iff`).

Every command keeps them in step but one.  A reset makes the picture blank without
making it news, so a host that shows anything else goes on showing it, until
something is drawn or cleared (`inStep_run_fresh_iff`).  `shown_eq_iff` is the
exact account of when the picture shown is that of the machine, and
`shown_stale_after_reset` the shortest run in which it is not.
-/

namespace Chip8

namespace Display

theorem changed_draw (d : Display) (pixels : List Pixel) :
    (d.draw pixels).1.changed = (d.changed || !pixels.isEmpty) := by
  induction pixels generalizing d with
  | nil => simp [draw]
  | cons p rest ih => simp [draw, ih, flip]

/-- Drawing changes nothing or makes the display news. -/
theorem draw_eq_or_changed (d : Display) (pixels : List Pixel) :
    (d.draw pixels).1 = d ∨ (d.draw pixels).1.changed = true := by
  cases pixels with
  | nil => exact Or.inl rfl
  | cons p rest => exact Or.inr (by simp [changed_draw])

end Display

/-- The picture that a host shows after an answer: it replaces its own by every
picture that is handed over. -/
def Answer.shown (picture : Frame) : Answer → Frame
  | .picture (some frame) => frame
  | _ => picture

namespace Machine

variable (m : Machine) (picture : Frame)

/-- The picture that a host shows after a run, if it showed a picture before it. -/
def shown (picture : Frame) (m : Machine) (cs : List Command) : Frame :=
  (m.answers cs).foldl Answer.shown picture

theorem answers_append (cs ds : List Command) :
    m.answers (cs ++ ds) = m.answers cs ++ (m.run cs).answers ds := by
  induction cs generalizing m with
  | nil => rfl
  | cons c cs ih =>
      rw [List.cons_append, answers, answers, ih, List.cons_append]
      rfl

@[simp] theorem shown_nil : m.shown picture [] = picture := rfl

theorem shown_append (cs ds : List Command) :
    m.shown picture (cs ++ ds) = (m.run cs).shown (m.shown picture cs) ds := by
  rw [shown, answers_append, List.foldl_append]
  rfl

theorem shown_cons (c : Command) (cs : List Command) :
    m.shown picture (c :: cs) = (m.after c).shown (m.shown picture [c]) cs :=
  m.shown_append picture [c] cs

/-- The picture is handed over exactly if it is news. -/
theorem answer_takeFrame :
    (m.perform .takeFrame).2 =
      .picture (if m.display.changed then some m.display.frame else none) := by
  show Answer.picture m.display.take.2 = _
  rw [Display.take]
  split <;> rfl

/-- A host that asks is handed the picture if it is news, and else keeps its own. -/
theorem shown_takeFrame :
    m.shown picture [.takeFrame] = if m.display.changed then m.display.frame else picture := by
  show Answer.shown picture (m.perform .takeFrame).2 = _
  rw [answer_takeFrame]
  split <;> rfl

/-- Only a host that asks is handed a picture. -/
theorem shown_of_ne_takeFrame {c : Command} (htake : c ≠ .takeFrame) :
    m.shown picture [c] = picture := by
  cases c with
  | takeFrame => exact absurd rfl htake
  | load program =>
      show Answer.shown picture (m.afterLoad (m.load program)).2 = picture
      cases m.load program <;> rfl
  | loadFrom readings =>
      show Answer.shown picture (m.afterLoad (m.loadFrom readings)).2 = picture
      cases m.loadFrom readings <;> rfl
  | _ => rfl

/-- A host that never asks goes on showing its picture. -/
theorem shown_of_takeFrame_notMem {cs : List Command}
    (htake : .takeFrame ∉ cs) : m.shown picture cs = picture := by
  induction cs generalizing m with
  | nil => rfl
  | cons c cs ih =>
      rw [List.mem_cons, not_or] at htake
      rw [shown_cons, shown_of_ne_takeFrame m picture (Ne.symm htake.1), ih _ htake.2]

/-! ## Machine and host in step -/

/-- Machine and host are in step: the host shows the picture of the machine, unless
that is news. -/
def InStep (m : Machine) (picture : Frame) : Prop :=
  m.display.changed = true ∨ picture = m.display.frame

/-- After the host asked, it shows the picture of the machine exactly if the two
were in step. -/
theorem shown_takeFrame_eq_iff :
    m.shown picture [.takeFrame] = (m.after .takeFrame).display.frame ↔ m.InStep picture := by
  rw [shown_takeFrame, after_takeFrame, InStep]
  cases m.display.changed <;> simp

/-- A word leaves the display as it is or makes it news. -/
theorem display_execute_eq_or_changed (i : Instruction) (random : Byte) :
    (i.execute random m).display = m.display ∨
      (i.execute random m).display.changed = true := by
  rw [Instruction.execute_display]
  split
  · exact Or.inr rfl
  · exact m.display.draw_eq_or_changed _
  · exact Or.inl rfl

/-- So does every command that neither asks for the picture nor is a reset. -/
theorem display_after_eq_or_changed {c : Command} (hreset : c ≠ .reset)
    (htake : c ≠ .takeFrame) :
    (m.after c).display = m.display ∨ (m.after c).display.changed = true := by
  cases c with
  | step random =>
      by_cases hpaused : m.paused = true
      · rw [after_step_of_paused hpaused]
        exact Or.inl rfl
      · rw [after_step_of_running (by simpa using hpaused)]
        exact m.advance.display_execute_eq_or_changed _ random
  | keyDown b => rw [after_keyDown]; exact Or.inl rfl
  | keyUp b => rw [after_keyUp]; exact Or.inl rfl
  | takeFrame => exact absurd rfl htake
  | load program => rw [after_load]; exact Or.inl rfl
  | loadFrom readings => rw [after_loadFrom_eq]; exact Or.inl rfl
  | reset => exact absurd rfl hreset

/-- **Every command but a reset** keeps machine and host in step. -/
theorem InStep.after {m : Machine} {picture : Frame} (h : m.InStep picture) {c : Command}
    (hreset : c ≠ .reset) : (m.after c).InStep (m.shown picture [c]) := by
  by_cases htake : c = .takeFrame
  · subst htake
    exact Or.inr ((m.shown_takeFrame_eq_iff picture).2 h)
  · rw [shown_of_ne_takeFrame m picture htake]
    rcases m.display_after_eq_or_changed hreset htake with hsame | hchanged
    · rw [InStep, hsame]
      exact h
    · exact Or.inl hchanged

theorem InStep.run {m : Machine} {picture : Frame} (h : m.InStep picture)
    {cs : List Command} (hreset : .reset ∉ cs) : (m.run cs).InStep (m.shown picture cs) := by
  induction cs generalizing m picture with
  | nil => exact h
  | cons c cs ih =>
      rw [List.mem_cons, not_or] at hreset
      rw [run_cons, shown_cons]
      exact ih (h.after (Ne.symm hreset.1)) hreset.2

/-! ## Resets -/

/-- While a display is no news, it stays as it is, and so does the picture shown. -/
theorem still_run {m : Machine} {cs : List Command} (hreset : .reset ∉ cs)
    (hstill : ∀ pre, pre <+: cs → (m.run pre).display.changed = false) :
    (m.run cs).display = m.display ∧ m.shown picture cs = picture := by
  induction cs generalizing m with
  | nil => exact ⟨rfl, rfl⟩
  | cons c cs ih =>
      rw [List.mem_cons, not_or] at hreset
      have hbefore : m.display.changed = false := hstill [] List.nil_prefix
      have hafter : (m.after c).display.changed = false :=
        hstill [c] (List.cons_prefix_cons.2 ⟨rfl, List.nil_prefix⟩)
      -- What is asked for without news is not handed over, and what draws makes news.
      have hfirst : (m.after c).display = m.display ∧ m.shown picture [c] = picture := by
        by_cases htake : c = .takeFrame
        · subst htake
          rw [after_takeFrame, shown_takeFrame, hbefore]
          exact ⟨by rw [← hbefore], rfl⟩
        · refine ⟨?_, m.shown_of_ne_takeFrame picture htake⟩
          rcases m.display_after_eq_or_changed (Ne.symm hreset.1) htake with hsame | hchanged
          · exact hsame
          · exact absurd (hafter.symm.trans hchanged) Bool.false_ne_true
      obtain ⟨hdisplay, hshown⟩ := ih hreset.2 (m := m.after c) fun pre hpre =>
        hstill (c :: pre) (List.cons_prefix_cons.2 ⟨rfl, hpre⟩)
      rw [run_cons, shown_cons, hfirst.2]
      exact ⟨hdisplay.trans hfirst.1, hshown⟩

/-- After a machine was switched on, a host is in step with it if it shows a blank
picture, or as soon as the display was news once. -/
theorem inStep_run_fresh_iff {cs : List Command} (hreset : .reset ∉ cs) :
    (fresh.run cs).InStep (fresh.shown picture cs) ↔
      picture = .blank ∨ ∃ pre, pre <+: cs ∧ (fresh.run pre).display.changed = true := by
  constructor
  · intro h
    by_cases hnews : ∃ pre, pre <+: cs ∧ (fresh.run pre).display.changed = true
    · exact Or.inr hnews
    · have hstill : ∀ pre, pre <+: cs → (fresh.run pre).display.changed = false :=
        fun pre hpre => Bool.eq_false_iff.2 fun hchanged => hnews ⟨pre, hpre, hchanged⟩
      obtain ⟨hdisplay, hshown⟩ := still_run picture hreset hstill
      rw [InStep, hdisplay, hshown] at h
      rcases h with hchanged | hblank
      · exact absurd hchanged Bool.false_ne_true
      · exact Or.inl hblank
  · rintro (rfl | ⟨pre, ⟨rest, rfl⟩, hchanged⟩)
    · exact InStep.run (Or.inr rfl) hreset
    · rw [run_append, shown_append]
      exact InStep.run (Or.inl hchanged) fun hmem => hreset (List.mem_append_right pre hmem)

/-- What a host has to show when a run of a machine that was just switched on
begins, or goes on after a reset. -/
theorem inStep_run_reset_iff {before after : List Command} (hreset : .reset ∉ after) :
    (m.run (before ++ .reset :: after)).InStep
        (m.shown picture (before ++ .reset :: after)) ↔
      m.shown picture before = .blank ∨
        ∃ pre, pre <+: after ∧ (fresh.run pre).display.changed = true := by
  have hrun : m.run (before ++ .reset :: after) = fresh.run after := by
    rw [run_append, run_cons]
    rfl
  have hshown : m.shown picture (before ++ .reset :: after) =
      fresh.shown (m.shown picture before) after := by
    rw [shown_append, shown_cons, shown_of_ne_takeFrame _ _ Command.noConfusion]
    rfl
  rw [hrun, hshown, inStep_run_fresh_iff _ hreset]

end Machine

/-- A member of a list is followed somewhere by a rest that does not have it. -/
theorem exists_last_of_mem {α : Type} {a : α} {l : List α} (ha : a ∈ l) :
    ∃ before after, l = before ++ a :: after ∧ a ∉ after := by
  obtain ⟨after, before, hsplit, hafter⟩ :=
    List.eq_append_cons_of_mem (List.mem_reverse.2 ha)
  refine ⟨before.reverse, after.reverse, ?_, by simpa using hafter⟩
  rw [← List.reverse_reverse l, hsplit]
  simp

/-- **When a host shows the picture of the machine.**  It starts with a blank
picture, a machine that was just switched on is given any commands, and then the
host asks for the picture.  It shows the picture of the machine, unless the last
reset found it showing something that is not blank and no picture was news since;
without a reset it always does. -/
theorem shown_eq_iff (cs : List Command) :
    Machine.fresh.shown .blank (cs ++ [.takeFrame]) =
        (Machine.fresh.run (cs ++ [.takeFrame])).display.frame ↔
      ∀ before after, cs = before ++ .reset :: after → .reset ∉ after →
        Machine.fresh.shown .blank before = .blank ∨
          ∃ pre, pre <+: after ∧ (Machine.fresh.run pre).display.changed = true := by
  rw [Machine.shown_append, Machine.run_append, Machine.run_cons, Machine.run_nil,
    Machine.shown_takeFrame_eq_iff]
  constructor
  · rintro h before after rfl hafter
    exact (Machine.fresh.inStep_run_reset_iff .blank hafter).1 h
  · intro h
    by_cases hreset : .reset ∈ cs
    · obtain ⟨before, after, rfl, hafter⟩ := exists_last_of_mem hreset
      exact (Machine.fresh.inStep_run_reset_iff .blank hafter).2 (h before after rfl hafter)
    · exact Machine.InStep.run (Or.inr rfl) hreset

/-- A host asks for a picture with one row of a glyph in it; then a reset makes the
picture blank, and the host asks again and still shows the glyph. -/
theorem shown_stale_after_reset :
    let cs : List Command := [.load [0xD0, 0x01], .step 0, .takeFrame, .reset, .takeFrame]
    Machine.fresh.shown .blank cs ≠ (Machine.fresh.run cs).display.frame := by
  intro cs hsame
  have hshown : (Machine.fresh.shown .blank cs).lit ⟨0, 0⟩ = true := by decide +kernel
  have hpicture : (Machine.fresh.run cs).display.frame.lit ⟨0, 0⟩ = false := by
    decide +kernel
  rw [hsame, hpicture] at hshown
  exact Bool.false_ne_true hshown

end Chip8
