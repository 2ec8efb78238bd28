import Chip8.Proofs.Frames
import Chip8.Proofs.Playing

/-!
# Picture and tone mirror the machine

A session tells the outside world only what changes: a picture when it is news, a
line when a tone starts or stops.  An onlooker who remembers the last picture and the
last line knows the picture of the machine and whether it sounds, at the end of every
frame that is played to its end (`outputs_mirror_machine`).

What carries the proof is that onlooker and machine agree when a frame begins
(`Mirrored`), and that a round keeps it so, whatever the round does
(`Mirrored.round`).
-/

namespace Chip8.Host

/-- The line for a change of the tone before which there were `i` others: it starts
and stops in turn. -/
def Record.ofToneChange (i : Nat) : Record := if i % 2 = 0 then .toneOn else .toneOff

/-- The lines of some reports that say that a tone starts or stops. -/
def toneLinesOf (rs : List Report) : List Record :=
  (rs.flatMap Report.log).filter Record.isTone

/-- Whether a tone sounds after some reports: whether the last line about the tone
says that it starts. -/
def soundsAfter (rs : List Report) : Bool := (toneLinesOf rs).getLast? = some .toneOn

theorem toneLinesOf_append (rs rs' : List Report) :
    toneLinesOf (rs ++ rs') = toneLinesOf rs ++ toneLinesOf rs' := by
  rw [toneLinesOf, List.flatMap_append, List.filter_append]
  rfl

/-- If the tone starts and stops in turn, then it sounds after an odd number of
changes. -/
theorem soundsAfter_eq {rs : List Report} {j : Nat}
    (hlines : toneLinesOf rs = (List.range j).map Record.ofToneChange) :
    soundsAfter rs = decide (j % 2 = 1) := by
  rw [soundsAfter, hlines]
  cases j with
  | zero => rfl
  | succ j =>
      rw [List.range_succ, List.map_append, List.map_singleton, List.getLast?_concat]
      rcases Nat.mod_two_eq_zero_or_one j with hj | hj
      · have hodd : (j + 1) % 2 = 1 := by omega
        simp [Record.ofToneChange, hj, hodd]
      · have heven : (j + 1) % 2 = 0 := by omega
        simp [Record.ofToneChange, hj, heven]

/-- The session when the events of a frame are heard. -/
def PlayedFrame.heard (f : PlayedFrame) : Session :=
  (f.events.takeWhile (!·.ends)).foldl Session.hear f.before

/-- Whether a word is executed in a frame that turns every pixel off, or that draws a
sprite with a bit set in it: the frame is played to its end, the machine is stepped in
it, and one of the steps draws. -/
def PlayedFrame.Draws (random : Nat → Byte) (n : Nat) (f : PlayedFrame) : Prop :=
  f.events.any (·.ends) = false ∧ f.heard.suspended = false ∧
    ∃ i < n, (f.heard.steps random i).machine.draws = true

instance (random : Nat → Byte) (n : Nat) (f : PlayedFrame) : Decidable (f.Draws random n) :=
  inferInstanceAs (Decidable (_ ∧ _))

namespace Session

variable {s : Session} (random : Nat → Byte) (n : Nat)

/-! ## What is new in a frame -/

/-- A frame uploads a picture exactly if a word is executed in it that draws. -/
theorem isSome_texture_iff_draws (htaken : s.machine.display.changed = false)
    (events : List Event) :
    (s.playFrame random n events).report.texture.isSome = true ↔
      (s.playFrame random n events).Draws random n := by
  show (s.frame random n events).2.texture.isSome = true ↔ events.any (·.ends) = false ∧
    ((events.takeWhile (!·.ends)).foldl hear s).suspended = false ∧
      ∃ i < n, (((events.takeWhile (!·.ends)).foldl hear s).steps random i).machine.draws = true
  cases hends : events.any (·.ends) with
  | true => simp [frame_of_ends s random n hends, report]
  | false =>
      rw [frame_of_not_ends s random n hends, isSome_texture_round, stepped, advance]
      have hheard := s.display_hears (events.takeWhile (!·.ends))
      generalize (events.takeWhile (!·.ends)).foldl hear s = heard at hheard ⊢
      rw [← hheard] at htaken
      cases heard.suspended with
      | true => simp [htaken]
      | false => simp [steps_eq, Machine.changed_run_steps, htaken]

/-- Neither events nor steps start or stop a tone. -/
theorem silent_stepped (hsilent : s.log.toList.filter Record.isTone = [])
    (events : List Event) :
    (s.stepped random n events).log.toList.filter Record.isTone = [] ∧
      (s.stepped random n events).beeping = s.beeping := by
  have hheard := tones_hears hsilent events
  obtain ⟨hbeeping, -⟩ := s.beeping_hears events
  rw [stepped, advance_eq]
  refine ⟨?_, hbeeping⟩
  simp [hheard, List.filter_map, Function.comp_def, Record.isTone]

/-- Whatever a machine is given in a frame keeps it in step with an onlooker. -/
theorem inStep_stepped {picture : Frame} (h : s.machine.InStep picture)
    (events : List Event) : (s.stepped random n events).machine.InStep picture := by
  have hheard : (events.foldl hear s).machine.InStep picture := by
    rw [Machine.InStep, display_hears]
    exact h
  obtain ⟨htake, hreset⟩ := (events.foldl hear s).notMem_due random n
  have hrun := hheard.run hreset
  rw [Machine.shown_of_takeFrame_notMem _ _ htake] at hrun
  rwa [stepped, advance_eq]

end Session

/-! ## The onlooker -/

/-- An onlooker who saw the reports `rs` knows the picture of the machine and whether
a tone sounds, and nothing is new. -/
structure Mirrored (rs : List Report) (s : Session) : Prop where
  picture : shownBy (some .blank) rs = some s.machine.display.frame
  settled : s.Settled
  changes : ∃ j, toneLinesOf rs = (List.range j).map Record.ofToneChange ∧
    s.beeping = decide (j % 2 = 1)
  silent : s.log.toList.filter Record.isTone = []

namespace Mirrored

variable {rs : List Report} {s : Session}

theorem soundsAfter_eq (h : Mirrored rs s) : soundsAfter rs = s.machine.sounding := by
  obtain ⟨j, hlines, hbeeping⟩ := h.changes
  rw [Host.soundsAfter_eq hlines, ← hbeeping, h.settled.tone]

/-- A round mentions the tone at most once: if it starts or stops. -/
theorem toneLinesOf_round (h : Mirrored rs s) (random : Nat → Byte) (n : Nat)
    (events : List Event) :
    toneLinesOf [(s.round random n events).2] =
      if (s.stepped random n events).machine.sounding = s.beeping then []
      else [if s.beeping then .toneOff else .toneOn] := by
  obtain ⟨hsilent, hbeeping⟩ := Session.silent_stepped random n h.silent events
  rw [toneLinesOf, List.flatMap_singleton, Session.round_snd, List.filter_append, hsilent,
    List.nil_append, Session.toneLines, hbeeping]
  split
  · rfl
  · cases s.beeping <;> rfl

/-- **A round** keeps onlooker and machine in agreement. -/
theorem round (h : Mirrored rs s) (random : Nat → Byte) (n : Nat) (events : List Event) :
    Mirrored (rs ++ [(s.round random n events).2]) (s.round random n events).1 := by
  have hlines := h.toneLinesOf_round random n events
  have hsettled := s.settled_round random n events
  obtain ⟨j, hchanges, hbeeping⟩ := h.changes
  rw [Session.round_fst] at hsettled ⊢
  refine ⟨?_, hsettled, ?_, rfl⟩
  · have hinStep : s.machine.InStep s.machine.display.frame := Or.inr rfl
    rw [shownBy_append, h.picture, shownBy_round]
    exact congrArg some
      ((Machine.shown_takeFrame_eq_iff _ _).2 (Session.inStep_stepped random n hinStep events))
  · rw [toneLinesOf_append, hlines, hchanges]
    split
    · rename_i hsame
      exact ⟨j, List.append_nil _, hsame.trans hbeeping⟩
    · rename_i hother
      refine ⟨j + 1, ?_, ?_⟩
      · rw [List.range_succ, List.map_append, List.map_singleton, hbeeping]
        rcases Nat.mod_two_eq_zero_or_one j with hj | hj <;> simp [Record.ofToneChange, hj]
      · -- One change more makes an odd number even, and an even one odd.
        have hflip := Bool.eq_not_of_ne hother
        rw [hbeeping, ← decide_not] at hflip
        exact hflip.trans (decide_eq_decide.2 (by omega))

/-- So does a frame in which nothing ends the session. -/
theorem playFrame (h : Mirrored rs s) (random : Nat → Byte) (n : Nat) {events : List Event}
    (hends : events.any (·.ends) = false) :
    Mirrored (rs ++ [(s.playFrame random n events).report])
      (s.playFrame random n events).after := by
  show Mirrored (rs ++ [(s.frame random n events).2]) (s.frame random n events).1
  rw [Session.frame_of_not_ends s random n hends]
  exact h.round random n _

theorem frames (h : Mirrored rs s) (random : Nat → Byte) (n : Nat) {front : List (List Event)}
    (hfront : ∀ events ∈ front, events.any (·.ends) = false) :
    Mirrored (rs ++ (s.frames random n front).map PlayedFrame.report)
      (s.afterFrames random n front) := by
  induction front generalizing rs s with
  | nil => simpa [Session.frames, Session.afterFrames] using h
  | cons events front ih =>
      obtain ⟨hends, hrest⟩ := List.forall_mem_cons.1 hfront
      have hafter := ih (h.playFrame random n hends) hrest
      rw [List.append_assoc] at hafter
      exact hafter

/-- The frame in which the session ends is silent. -/
theorem toneLinesOf_of_ends (h : Mirrored rs s) (random : Nat → Byte) (n : Nat)
    {events : List Event} (hends : events.any (·.ends) = true) :
    toneLinesOf [(s.playFrame random n events).report] = [] := by
  show toneLinesOf [(s.frame random n events).2] = []
  rw [Session.frame_of_ends s random n hends, toneLinesOf, List.flatMap_singleton]
  exact tones_hears h.silent _

theorem length_toneLinesOf_le (h : Mirrored rs s) (random : Nat → Byte) (n : Nat)
    (events : List Event) :
    (toneLinesOf [(s.playFrame random n events).report]).length ≤ 1 := by
  cases hends : events.any (·.ends) with
  | true =>
      rw [h.toneLinesOf_of_ends random n hends]
      exact Nat.zero_le 1
  | false =>
      show (toneLinesOf [(s.frame random n events).2]).length ≤ 1
      rw [Session.frame_of_not_ends s random n hends, h.toneLinesOf_round]
      split
      · exact Nat.zero_le 1
      · exact Nat.le_refl 1

/-- At the start the window is black and nothing sounds. -/
theorem start {canvas : Nat → Canvas} {program : List Byte} {session : Session}
    (hstart : Session.start canvas program = .ok session) : Mirrored [] session := by
  rw [Session.start_eq_ok hstart]
  exact ⟨rfl, ⟨rfl, rfl⟩, ⟨0, rfl, rfl⟩, by
    simp [List.filter_map, Function.comp_def, Record.isTone]⟩

/-- Onlooker and machine agree whenever a frame of a script begins. -/
theorem of_begun (h : Mirrored [] s) {random : Nat → Byte} {n : Nat}
    {script : List (List Event)} {earlier later : List PlayedFrame} {f : PlayedFrame}
    (hsplit : s.frames random n (Script.begun script) = earlier ++ f :: later) :
    Mirrored (earlier.map PlayedFrame.report) f.before ∧
      f = f.before.playFrame random n f.events := by
  obtain ⟨front, rest, hall, rfl, hf, -⟩ := Session.frames_eq_append_cons _ _ _ hsplit
  have hfront := h.frames random n (Script.not_ends_of_begun hall)
  have hbefore : f.before = s.afterFrames random n front := by
    rw [hf]
    rfl
  rw [hbefore]
  exact ⟨hfront, hf⟩

/-- Over a whole script the tone starts and stops in turn. -/
theorem toneLinesOf_begun (h : Mirrored [] s) (random : Nat → Byte) (n : Nat)
    (script : List (List Event)) :
    ∃ j, toneLinesOf ((s.frames random n (Script.begun script)).map PlayedFrame.report) =
      (List.range j).map Record.ofToneChange := by
  obtain ⟨front, last, hall, hfront⟩ := Script.begun_eq_concat script
  have hlast := h.frames random n hfront
  have hreports : (s.frames random n (Script.begun script)).map PlayedFrame.report =
      (s.frames random n front).map PlayedFrame.report ++
        [((s.afterFrames random n front).playFrame random n last).report] := by
    rw [hall, Session.frames_append, List.map_append]
    rfl
  cases hends : last.any (·.ends) with
  | true =>
      obtain ⟨j, hlines, -⟩ := hlast.changes
      refine ⟨j, ?_⟩
      rw [hreports, toneLinesOf_append, hlast.toneLinesOf_of_ends random n hends, List.append_nil]
      exact hlines
  | false =>
      obtain ⟨j, hlines, -⟩ := (hlast.playFrame random n hends).changes
      exact ⟨j, hreports ▸ hlines⟩

end Mirrored

open Script in
/-- **Picture and tone mirror the machine.**  A program that fits is played.  At the
end of every frame in which nothing ends the session, the texture uploaded last shows
the picture of the machine, and the last line about the tone says whether the machine
sounds.  A frame uploads a texture exactly if a word is executed in it that draws, and
has at most one line about the tone; and over the whole session the tone starts and
stops in turn. -/
theorem outputs_mirror_machine (canvas : Nat → Canvas) {program : List Byte}
    (hprogram : program.length ≤ Machine.maxProgramSize) (random : Nat → Byte) (n : Nat)
    (script : List (List Event)) :
    ∃ session, Session.start canvas program = .ok session ∧
      let frames := session.frames random n (begun script)
      session.play random n script =
        (session.afterFrames random n (begun script), frames.map PlayedFrame.report) ∧
      (∀ earlier f later, frames = earlier ++ f :: later → f.events.any (·.ends) = false →
        shownBy (some .blank) ((earlier ++ [f]).map PlayedFrame.report) =
            some f.after.machine.display.frame ∧
          soundsAfter ((earlier ++ [f]).map PlayedFrame.report) = f.after.machine.sounding) ∧
      (∀ f ∈ frames, (f.report.texture.isSome = true ↔ f.Draws random n) ∧
        (toneLinesOf [f.report]).length ≤ 1) ∧
      ∃ j, toneLinesOf (frames.map PlayedFrame.report) =
        (List.range j).map Record.ofToneChange := by
  obtain ⟨session, hstart, -⟩ := account_start canvas hprogram
  have hmirrored := Mirrored.start hstart
  refine ⟨session, hstart, session.play_eq_frames random n script, ?_, ?_,
    hmirrored.toneLinesOf_begun random n script⟩
  · intro earlier f later hsplit hends
    obtain ⟨h, hf⟩ := hmirrored.of_begun hsplit
    have hafter := h.playFrame random n hends
    rw [← hf] at hafter
    rw [List.map_append]
    exact ⟨hafter.picture, hafter.soundsAfter_eq⟩
  · intro f hmem
    obtain ⟨earlier, later, hsplit⟩ := List.append_of_mem hmem
    obtain ⟨h, hf⟩ := hmirrored.of_begun hsplit
    have hdraws := Session.isSome_texture_iff_draws random n h.settled.taken f.events
    have hlength := h.length_toneLinesOf_le random n f.events
    rw [← hf] at hdraws hlength
    exact ⟨hdraws, hlength⟩

open Script in
/-- A tone starts in the first frame and stops in the second, which shows a glyph; the
machine is suspended in the third, and an escape ends the fourth. -/
theorem outputs_mirror_machine_of_four_frames :
    let canvas : Nat → Canvas := fun _ => .tight
    let program : List Byte := [0x60, 0x02, 0xF0, 0x18, 0xD0, 0x05, 0x12, 0x06]
    let random : Nat → Byte := fun i => .ofNat 8 i
    let down (name : String) : Event := .keyDown (some ⟨name⟩) false
    let script : List (List Event) := [[], [], [down "Space"], [down "Escape"]]
    program.length ≤ Machine.maxProgramSize ∧
      ∃ session, Session.start canvas program = .ok session ∧
        let frames := session.frames random 2 (begun script)
        frames.map (·.report.texture.isSome) = [false, true, false, false] ∧
          toneLinesOf (frames.map PlayedFrame.report) = [.toneOn, .toneOff] := by
  intro canvas program random down script
  have hprogram : program.length ≤ Machine.maxProgramSize := by decide
  obtain ⟨session, hstart, -, -, hframes, -⟩ :=
    outputs_mirror_machine canvas hprogram random 2 script
  refine ⟨hprogram, session, hstart, ?_, ?_⟩
  · have hdraws : (session.frames random 2 (begun script)).map (·.report.texture.isSome) =
        (session.frames random 2 (begun script)).map fun f => decide (f.Draws random 2) := by
      apply List.map_congr_left
      intro f hf
      rw [Bool.eq_iff_iff, decide_eq_true_iff]
      exact (hframes f hf).1
    rw [hdraws, Session.start_eq_ok hstart]
    decide +kernel
  · rw [Session.start_eq_ok hstart]
    decide +kernel

end Chip8.Host
