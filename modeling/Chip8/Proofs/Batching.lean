import Chip8.Proofs.Frames
import Chip8.Proofs.Playing
import Chip8.Proofs.Unseen

/-!
# Frames of any size

How many steps make a frame is a matter of pace.  A frame with `k * n` steps leaves
the same session behind as one with `n` steps, the events coming up in it, and `k - 1`
more with `n` steps each in which no event comes up; and the window shows the same
picture in the end (`batched_frames_agree`).

Along the way the pictures shown and the lines about the tone differ, since they tell
what is new since the last frame.  But two rounds can always be put together
(`round_round`): the picture handed over between them is no concern of the machine,
and whoever was handed it is handed the next one too if that is another.
-/

namespace Chip8

/-- Asking for the picture twice, with nothing of the kind in between, is like asking
the second time only. -/
theorem Machine.shown_takeFrame_twice (m : Machine) (picture : Frame) {cs : List Command}
    (htake : .takeFrame ∉ cs) (hreset : .reset ∉ cs) :
    ((m.after .takeFrame).run cs).shown (m.shown picture [.takeFrame]) [.takeFrame] =
      (m.run cs).shown picture [.takeFrame] := by
  have htwice := m.shown_takeFrame_early picture hreset
  rw [List.cons_append, shown_cons, shown_append, shown_append,
    shown_of_takeFrame_notMem _ _ htake, shown_of_takeFrame_notMem _ _ htake] at htwice
  exact htwice

namespace Host

namespace Session

variable (s : Session) (random : Nat → Byte) (n : Nat)

/-- More steps in a frame come after those there were. -/
theorem stepped_add (a b : Nat) (events : List Event) :
    (s.stepped random (a + b) events).machine =
        (s.stepped random a events).machine.run ((s.stepped random a events).due random b) ∧
      (s.stepped random (a + b) events).suspended = (s.stepped random a events).suspended ∧
      (s.stepped random (a + b) events).cycles =
        ((s.stepped random a events).advance random b).cycles ∧
      (s.stepped random (a + b) events).canvas = (s.stepped random a events).canvas := by
  rw [stepped, stepped, advance_eq, advance_eq, advance_eq, due, due, due]
  generalize events.foldl hear s = heard
  refine ⟨?_, rfl, ?_, rfl⟩
  · cases heard.suspended with
    | true => rfl
    | false =>
        show heard.machine.run (Command.steps random heard.cycles (a + b)) = _
        rw [Command.steps_add, Machine.run_append]
        rfl
  · cases heard.suspended with
    | true => rfl
    | false => exact (Nat.add_assoc _ a b).symm

/-- If they are made in a round of their own, the picture was handed over before. -/
theorem stepped_round (a b : Nat) (events : List Event) :
    ((s.round random a events).1.stepped random b []).machine =
        ((s.stepped random a events).machine.after .takeFrame).run
          ((s.stepped random a events).due random b) ∧
      ((s.round random a events).1.stepped random b []).suspended =
        (s.stepped random a events).suspended ∧
      ((s.round random a events).1.stepped random b []).cycles =
        ((s.stepped random a events).advance random b).cycles ∧
      ((s.round random a events).1.stepped random b []).canvas =
        (s.stepped random a events).canvas := by
  rw [round_fst, stepped, List.foldl_nil, advance_eq, advance_eq]
  exact ⟨rfl, rfl, rfl, rfl⟩

/-- **Two rounds are one**, if no event comes up in the second. -/
theorem round_round (a b : Nat) (events : List Event) :
    ((s.round random a events).1.round random b []).1 = (s.round random (a + b) events).1 := by
  obtain ⟨hmachine, hsuspended, hcycles, hcanvas⟩ := s.stepped_add random a b events
  obtain ⟨hmachine', hsuspended', hcycles', hcanvas'⟩ := s.stepped_round random a b events
  have htaken : ((s.round random a events).1.stepped random b []).machine.after .takeFrame =
      (s.stepped random (a + b) events).machine.after .takeFrame := by
    rw [hmachine', Machine.run_takeFrame_early, hmachine]
  have hsounding := congrArg Machine.sounding htaken
  rw [sounding_takeFrame, sounding_takeFrame] at hsounding
  rw [round_fst _ random b, round_fst _ random (a + b), Session.mk.injEq]
  exact ⟨htaken, hsuspended'.trans hsuspended.symm, hsounding, hcycles'.trans hcycles.symm, rfl,
    hcanvas'.trans hcanvas.symm⟩

/-- Nor can the window tell them apart in the end. -/
theorem shownBy_round_round (picture : Frame) (a b : Nat) (events : List Event) :
    shownBy (shownBy (some picture) [(s.round random a events).2])
        [((s.round random a events).1.round random b []).2] =
      shownBy (some picture) [(s.round random (a + b) events).2] := by
  obtain ⟨hmachine, -, -⟩ := s.stepped_add random a b events
  obtain ⟨hmachine', -, -⟩ := s.stepped_round random a b events
  obtain ⟨htake, hreset⟩ := (s.stepped random a events).notMem_due random b
  rw [shownBy_round, shownBy_round, shownBy_round, hmachine, hmachine',
    Machine.shown_takeFrame_twice _ _ htake hreset]

/-! ## Any number of frames -/

/-- `k` frames after a first one, without an event in them, make it longer. -/
theorem frames_eq_frame {events : List Event} (hends : events.any (·.ends) = false)
    (picture : Frame) (k : Nat) :
    s.afterFrames random n (events :: List.replicate k []) =
        (s.frame random ((k + 1) * n) events).1 ∧
      shownBy (some picture)
          ((s.frames random n (events :: List.replicate k [])).map PlayedFrame.report) =
        shownBy (some picture) [(s.frame random ((k + 1) * n) events).2] := by
  induction k with
  | zero =>
      rw [Nat.zero_add, Nat.one_mul]
      exact ⟨rfl, rfl⟩
  | succ k ih =>
      obtain ⟨hafter, hshown⟩ := ih
      rw [frame_of_not_ends s random _ hends] at hafter hshown
      have hcount : (k + 1 + 1) * n = (k + 1) * n + n := Nat.succ_mul (k + 1) n
      rw [List.replicate_succ', ← List.cons_append, afterFrames_append, frames_append,
        List.map_append, shownBy_append, hafter, hshown, frame_of_not_ends s random _ hends, hcount,
        ← round_round, ← shownBy_round_round]
      exact ⟨rfl, rfl⟩

end Session

/-- **Frames of any size.**  A frame with `k * n` steps in which some events come up,
none of which ends the session, leaves the same session behind as `k` frames with `n`
steps each, if the events come up in the first and none in the others: the same
machine, suspended or not, with a tone sounding or not, and at the same place in the
supply of random bytes.  And whatever picture was in the window before, the window
shows the same picture in the end. -/
theorem batched_frames_agree (s : Session) (random : Nat → Byte) (n : Nat) {k : Nat}
    (hk : 1 ≤ k) {events : List Event} (hends : events.any (·.ends) = false)
    (picture : Frame) :
    let batch := events :: List.replicate (k - 1) []
    s.afterFrames random n batch = (s.frame random (k * n) events).1 ∧
      shownBy (some picture) ((s.frames random n batch).map PlayedFrame.report) =
        shownBy (some picture) [(s.frame random (k * n) events).2] := by
  intro batch
  have hcount : k - 1 + 1 = k := Nat.sub_add_cancel hk
  have hbatch := s.frames_eq_frame random n hends picture (k - 1)
  rwa [hcount] at hbatch

/-- A tone starts in the first of three frames and stops in the second, which draws.
A frame with all their steps draws, too, but has nothing to say about the tone. -/
theorem batched_frames_agree_past_tone :
    let canvas : Nat → Canvas := fun _ => .tight
    let program : List Byte := [0x60, 0x02, 0xF0, 0x18, 0xD0, 0x05, 0x12, 0x06]
    let random : Nat → Byte := fun i => .ofNat 8 i
    let events : List Event := [.keyDown (some ⟨"Q"⟩) false]
    1 ≤ 3 ∧ events.any (·.ends) = false ∧
      ∃ session, Session.start canvas program = .ok session ∧
        session.afterFrames random 2 [events, [], []] = (session.frame random 6 events).1 ∧
        shownBy (some .blank) ((session.frames random 2 [events, [], []]).map PlayedFrame.report) =
          shownBy (some .blank) [(session.frame random 6 events).2] ∧
        (session.frames random 2 [events, [], []]).map
            (·.report.log.filter Record.isTone) = [[.toneOn], [.toneOff], []] ∧
        (session.frame random 6 events).2.log.filter Record.isTone = [] := by
  intro canvas program random events
  have hends : events.any (·.ends) = false := by decide
  obtain ⟨session, hstart⟩ : ∃ session, Session.start canvas program = .ok session := ⟨_, rfl⟩
  obtain ⟨hafter, hshown⟩ :=
    batched_frames_agree session random 2 (k := 3) (by decide) hends .blank
  refine ⟨by decide, hends, session, hstart, hafter, hshown, ?_, ?_⟩
  · rw [Session.start_eq_ok hstart]
    decide +kernel
  · rw [Session.start_eq_ok hstart]
    decide +kernel

end Host

end Chip8
