import Chip8.Proofs.Alike
import Mathlib.Data.List.Infix

/-!
# Parts that a run does not see

The sound timer and the news about the picture are told to the host and to nobody else.
Machines that differ in them only go on to do so, wherever the host asks for the picture
(`tone_and_news_never_feed_back`).  In particular a picture that is handed over early,
and once more after some commands, leaves the same machine behind as one that is handed
over once, after them (`run_takeFrame_early`), and a host ends up with the same picture
(`shown_takeFrame_early`).

Held keys and the delay timer are looked at, but by three words only.  Machines that
differ in them only are told apart by no run in which these words find the same
(`keys_and_delay_seen_by_own_words`).
-/

namespace Chip8

/-! ## Tone and news -/

namespace Machine

/-- Machines that differ at most in the sound timer, and in whether the picture is news. -/
structure SameButToneAndNews (m n : Machine) : Prop extends m.Alike n where
  delay : m.delay = n.delay
  held : m.keyboard.held = n.keyboard.held

/-- The answers to the commands of a run that do not ask for the picture. -/
def replies (m : Machine) (cs : List Command) : List Answer :=
  m.observed (fun m c => if c = .takeFrame then [] else [(m.perform c).2]) cs

namespace SameButToneAndNews

variable {m n : Machine}

theorem refl (m : Machine) : m.SameButToneAndNews m :=
  { Alike.refl m with delay := rfl, held := rfl }

theorem symm (h : m.SameButToneAndNews n) : n.SameButToneAndNews m :=
  { h.toAlike.symm with delay := h.delay.symm, held := h.held.symm }

theorem trans {o : Machine} (h : m.SameButToneAndNews n) (h' : n.SameButToneAndNews o) :
    m.SameButToneAndNews o :=
  { h.toAlike.trans h'.toAlike with
    delay := h.delay.trans h'.delay
    held := h.held.trans h'.held }

theorem keyboard_eq (h : m.SameButToneAndNews n) : m.keyboard = n.keyboard := by
  have hrequest : m.keyboard.request = n.keyboard.request := h.waiting
  exact congrArg₂ Keyboard.mk h.held hrequest

/-- No instruction looks at anything else. -/
theorem seesSame (h : m.SameButToneAndNews n) (i : Instruction) : i.SeesSame m n := by
  cases i with
  | readDelay x => exact h.delay
  | skipIfHeld x | skipUnlessHeld x =>
      show m.keyboard.isHeld m.v[x] = n.keyboard.isHeld n.v[x]
      rw [h.v, Keyboard.isHeld_congr h.held]
  | _ => trivial

theorem after (h : m.SameButToneAndNews n) (c : Command) :
    (m.after c).SameButToneAndNews (n.after c) where
  toAlike := by
    have hadvance : m.advance.SameButToneAndNews n.advance :=
      { h.advance with delay := congrArg Byte.countDown h.delay, held := h.held }
    exact h.toAlike.after fun op _ => hadvance.seesSame op.decode
  delay := h.toAlike.value_after (t := Timer.delay) h.delay c
  held := by rw [held_after, held_after, h.held]

theorem after_takeFrame (h : m.SameButToneAndNews n) :
    (m.after .takeFrame).SameButToneAndNews n := by
  rw [Machine.after_takeFrame]
  exact { h with }

/-- **A run goes on alike** if the requests for the picture are left out. -/
theorem run (h : m.SameButToneAndNews n) (cs : List Command) :
    let rest := cs.filter (· ≠ .takeFrame)
    (m.run cs).SameButToneAndNews (n.run rest) ∧ m.replies cs = n.replies rest ∧
      m.log cs = n.log rest := by
  induction cs generalizing m n with
  | nil => exact ⟨h, rfl, rfl⟩
  | cons c cs ih =>
      by_cases htake : c = .takeFrame
      · subst htake
        exact ih h.after_takeFrame
      · obtain ⟨hrun, hreplies, hlog⟩ := ih (h.after c)
        rw [List.filter_cons_of_pos (by simpa using htake)]
        refine ⟨hrun, ?_, ?_⟩
        · rw [replies] at hreplies ⊢
          rw [observed_cons, replies, observed_cons, if_neg htake, if_neg htake,
            answer_eq m n htake, hreplies]
          rfl
        · rw [log, log, h.toAlike.notices_eq, hlog]

end SameButToneAndNews

end Machine

/-- **Tone and news never feed back.**  Two machines differ at most in the sound timer
and in whether the picture is news, and they are given the same commands, in which
somebody asks for the picture where he likes.  Then they differ in nothing else in the
end, and meanwhile they report the same and answer the same, but for the pictures that
were asked for. -/
theorem tone_and_news_never_feed_back {m n : Machine} (h : m.SameButToneAndNews n)
    {cs ds : List Command} (hsame : cs.filter (· ≠ .takeFrame) = ds.filter (· ≠ .takeFrame)) :
    (m.run cs).SameButToneAndNews (n.run ds) ∧ m.replies cs = n.replies ds ∧
      m.log cs = n.log ds := by
  obtain ⟨hm, hmreplies, hmlog⟩ := (Machine.SameButToneAndNews.refl m).run cs
  obtain ⟨hn, hnreplies, hnlog⟩ := h.symm.run ds
  rw [← hsame] at hn hnreplies hnlog
  exact ⟨hm.trans hn.symm, hmreplies.trans hnreplies.symm, hmlog.trans hnlog.symm⟩

/-- One of two machines sounds and has a picture to hand over; they are asked for it at
different times, while a sprite is drawn and a key is waited for. -/
theorem tone_and_news_never_feed_back_while_sounding :
    let m := { Machine.fresh with sound := 9, display := ⟨.blank, true⟩ }
    let n := Machine.fresh
    let program : List Byte := [0xD0, 0x05, 0xF1, 0x0A, 0xF1, 0x15]
    let cs : List Command := [.load program, .takeFrame, .step 0, .step 0, .takeFrame,
      .keyDown 4, .step 0]
    let ds : List Command := [.load program, .step 0, .step 0, .keyDown 4, .takeFrame,
      .takeFrame, .step 0]
    m.SameButToneAndNews n ∧
      cs.filter (· ≠ .takeFrame) = ds.filter (· ≠ .takeFrame) ∧
      (m.run cs).SameButToneAndNews (n.run ds) ∧ m.replies cs = n.replies ds ∧
      m.log cs = n.log ds ∧ (m.run cs).sounding = true ∧ (n.run ds).sounding = false := by
  intro m n program cs ds
  have h : m.SameButToneAndNews n := ⟨⟨rfl, rfl, rfl, rfl, rfl, rfl, rfl, rfl⟩, rfl, rfl⟩
  have hsame : cs.filter (· ≠ .takeFrame) = ds.filter (· ≠ .takeFrame) := by decide
  obtain ⟨hrun, hreplies, hlog⟩ := tone_and_news_never_feed_back h hsame
  exact ⟨h, hsame, hrun, hreplies, hlog, by decide +kernel, by decide +kernel⟩

/-! ## Handing a picture over early -/

namespace Machine

/-- Machines that differ at most in whether the picture is news. -/
structure SameButNews (m n : Machine) : Prop extends m.SameButToneAndNews n where
  sound : m.sound = n.sound

namespace SameButNews

variable {m n : Machine}

theorem after (h : m.SameButNews n) (c : Command) : (m.after c).SameButNews (n.after c) :=
  { h.toSameButToneAndNews.after c with
    sound := h.toAlike.value_after (t := Timer.sound) h.sound c }

theorem run (h : m.SameButNews n) (cs : List Command) : (m.run cs).SameButNews (n.run cs) :=
  List.foldl_rel h fun c _ _ _ hbefore => hbefore.after c

/-- Once their pictures are handed over they are equal. -/
theorem after_takeFrame_eq (h : m.SameButNews n) : m.after .takeFrame = n.after .takeFrame := by
  have hdisplay : Display.mk m.display.frame false = Display.mk n.display.frame false :=
    congrArg (Display.mk · false) h.frame
  rw [after_takeFrame, after_takeFrame]
  exact Machine.ext h.v h.i h.pc h.sp h.delay h.sound h.stack h.memory hdisplay h.keyboard_eq

end SameButNews

variable (m : Machine)

/-- **Handing a picture over early** makes no difference to the machine that hands it
over again in the end. -/
theorem run_takeFrame_early (cs : List Command) :
    ((m.after .takeFrame).run cs).after .takeFrame = (m.run cs).after .takeFrame := by
  have hearly : (m.after .takeFrame).SameButNews m := by
    have hsound : (m.after .takeFrame).sound = m.sound := by
      rw [after_takeFrame]
    exact { (SameButToneAndNews.refl m).after_takeFrame with sound := hsound }
  exact (hearly.run cs).after_takeFrame_eq

/-- Nor does it make a difference to the picture that a host shows then. -/
theorem shown_takeFrame_early (picture : Frame) {cs : List Command} (hreset : .reset ∉ cs) :
    m.shown picture (.takeFrame :: cs ++ [.takeFrame]) = m.shown picture (cs ++ [.takeFrame]) := by
  cases hchanged : m.display.changed with
  | false =>
      -- Without news nothing was handed over.
      have hsame : m.after .takeFrame = m := by
        rw [after_takeFrame, ← hchanged]
      have hshown : m.shown picture [.takeFrame] = picture := by
        rw [shown_takeFrame, hchanged]
        rfl
      rw [List.cons_append, shown_cons, hsame, hshown]
  | true =>
      -- Either way the host ends up with the picture of the machine.
      have hnews : m.InStep picture := Or.inl hchanged
      have hreset' : .reset ∉ (.takeFrame :: cs) := by simpa using hreset
      rw [shown_append, shown_append,
        (shown_takeFrame_eq_iff _ _).2 (hnews.run hreset),
        (shown_takeFrame_eq_iff _ _).2 (hnews.run hreset'), run_cons, run_takeFrame_early]

end Machine

/-! ## Held keys and the delay timer -/

/-- Whether a word that is executed can show a difference between two machines: Fx07 if
the delay timers, which tick first, differ; Ex9E and ExA1 if Vx names a key that is held
in one of them only. -/
def Opcode.TellsApart (op : Opcode) (m n : Machine) : Prop :=
  op.family = 0xF ∧ op.kk = 0x07 ∧ m.delay.countDown ≠ n.delay.countDown ∨
    op.family = 0xE ∧ (op.kk = 0x9E ∨ op.kk = 0xA1) ∧
      m.keyboard.isHeld m.v[op.x] ≠ n.keyboard.isHeld n.v[op.x]

instance (op : Opcode) (m n : Machine) : Decidable (op.TellsApart m n) :=
  inferInstanceAs (Decidable (_ ∨ _))

/-- A word that shows no difference finds the same wherever it looks. -/
theorem Opcode.seesSame_of_not_tellsApart {op : Opcode} {m n : Machine}
    (hsame : ¬ op.TellsApart m n) : op.decode.SeesSame m.advance n.advance := by
  have hpattern := op.decode_pattern
  cases hop : op.decode with
  | readDelay x =>
      rw [hop] at hpattern
      apply Classical.byContradiction
      intro hdelay
      exact hsame (Or.inl ⟨hpattern.1, hpattern.2.1, hdelay⟩)
  | skipIfHeld x =>
      rw [hop] at hpattern
      obtain ⟨hfamily, hkk, rfl⟩ := hpattern
      apply Classical.byContradiction
      intro hheld
      exact hsame (Or.inr ⟨hfamily, Or.inl hkk, hheld⟩)
  | skipUnlessHeld x =>
      rw [hop] at hpattern
      obtain ⟨hfamily, hkk, rfl⟩ := hpattern
      apply Classical.byContradiction
      intro hheld
      exact hsame (Or.inr ⟨hfamily, Or.inr hkk, hheld⟩)
  | _ => trivial

namespace Machine

/-- Machines that differ at most in which keys are held, and in the delay timer. -/
structure SameButKeysAndDelay (m n : Machine) : Prop extends m.Alike n where
  sound : m.sound = n.sound
  changed : m.display.changed = n.display.changed

namespace SameButKeysAndDelay

variable {m n : Machine}

theorem after (h : m.SameButKeysAndDelay n) {c : Command}
    (hsame : ∀ op ∈ m.executes c, ¬ op.TellsApart m n) :
    (m.after c).SameButKeysAndDelay (n.after c) where
  toAlike := h.toAlike.after fun op hop => Opcode.seesSame_of_not_tellsApart (hsame op hop)
  sound := h.toAlike.value_after (t := Timer.sound) h.sound c
  changed := h.toAlike.changed_after h.changed c

theorem answer_eq (h : m.SameButKeysAndDelay n) (c : Command) :
    (m.perform c).2 = (n.perform c).2 := by
  by_cases htake : c = .takeFrame
  · subst htake
    rw [answer_takeFrame, answer_takeFrame, h.changed, h.frame]
  · exact Machine.answer_eq m n htake

end SameButKeysAndDelay

end Machine

/-- **Held keys and the delay timer are seen through their own words only.**  Two
machines differ at most in them and are given the same commands.  As long as no word
that is executed shows a difference they differ in nothing else, and they report the
same and answer the same. -/
theorem keys_and_delay_seen_by_own_words {m n : Machine} (h : m.SameButKeysAndDelay n)
    {cs : List Command}
    (hsame : ∀ pre c op, pre ++ [c] <+: cs → (m.run pre).executes c = some op →
      ¬ op.TellsApart (m.run pre) (n.run pre)) :
    (∀ pre, pre <+: cs → (m.run pre).SameButKeysAndDelay (n.run pre)) ∧
      m.answers cs = n.answers cs ∧ m.log cs = n.log cs := by
  -- From the front: what the first command leaves differs in keys and delay again,
  -- and is told apart by nothing in the rest.
  induction cs generalizing m n with
  | nil =>
      refine ⟨?_, rfl, rfl⟩
      intro pre hpre
      rw [List.prefix_nil.1 hpre]
      exact h
  | cons c cs ih =>
      have hfirst : ∀ op ∈ m.executes c, ¬ op.TellsApart m n := fun op hop =>
        hsame [] c op (List.cons_prefix_cons.2 ⟨rfl, List.nil_prefix⟩) hop
      obtain ⟨hrun, hanswers, hlog⟩ := ih (h.after hfirst) fun pre d op hpre hop =>
        hsame (c :: pre) d op (List.cons_prefix_cons.2 ⟨rfl, hpre⟩) hop
      refine ⟨?_, ?_, ?_⟩
      · intro pre hpre
        cases pre with
        | nil => exact h
        | cons d pre =>
            obtain ⟨rfl, htail⟩ := List.cons_prefix_cons.1 hpre
            exact hrun pre htail
      · rw [Machine.answers, Machine.answers, h.answer_eq, hanswers]
      · rw [Machine.log, Machine.log, h.toAlike.notices_eq, hlog]

/-- A key that one machine holds and a delay that it has make no difference to a program
that waits for another key, sets the delay timer, reads it and looks for a third key. -/
theorem keys_and_delay_seen_by_own_words_past_wait :
    let m := { Machine.fresh with delay := 5, keyboard := (Keyboard.idle.keyDown 7).1 }
    let n := Machine.fresh
    let cs : List Command := [.load [0xF1, 0x0A, 0xF1, 0x15, 0xF2, 0x07, 0xE2, 0x9E], .step 0,
      .step 0, .keyDown 3, .step 0, .takeFrame, .step 0, .step 0]
    m.SameButKeysAndDelay n ∧
      (∀ pre c op, pre ++ [c] <+: cs → (m.run pre).executes c = some op →
        ¬ op.TellsApart (m.run pre) (n.run pre)) ∧
      (∀ pre, pre <+: cs → (m.run pre).SameButKeysAndDelay (n.run pre)) ∧
      m.answers cs = n.answers cs ∧ m.log cs = n.log cs := by
  intro m n cs
  have h : m.SameButKeysAndDelay n := ⟨⟨rfl, rfl, rfl, rfl, rfl, rfl, rfl, rfl⟩, rfl, rfl⟩
  have hsame : ∀ pre c op, pre ++ [c] <+: cs → (m.run pre).executes c = some op →
      ¬ op.TellsApart (m.run pre) (n.run pre) := by
    have hall : ∀ all ∈ cs.inits, ∀ c ∈ all.getLast?,
        ∀ op ∈ (m.run all.dropLast).executes c,
          ¬ op.TellsApart (m.run all.dropLast) (n.run all.dropLast) := by
      decide +kernel
    intro pre c op hpre hop
    have hlast := hall _ ((List.mem_inits _ _).2 hpre) c (by simp) op
    rw [List.dropLast_concat] at hlast
    exact hlast hop
  exact ⟨h, hsame, keys_and_delay_seen_by_own_words h hsame⟩

end Chip8
