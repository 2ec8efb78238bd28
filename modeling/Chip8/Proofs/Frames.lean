import Chip8.Proofs.News
import Chip8.Proofs.Rounds
import Chip8.Proofs.Upload

/-!
# Frame by frame

A script is played frame by frame, and what holds at the end of each frame can only
be said with the session at that moment at hand.  `Session.frames` keeps it beside
the report of each frame; played over the frames that a script begins
(`Script.begun`), the reports and the last session are those of the script
(`play_eq_frames`).

A frame in which nothing ends the session is a round.  One equation says what the
session is after a round (`round_fst`), and one what the round showed (`round_snd`);
both look only at the session when all events are heard and all steps are done
(`Session.stepped`).  When a frame begins, nothing is new about picture and tone
(`Session.Settled`).
-/

namespace Chip8

/-- The commands of `n` steps that draw the random bytes from the `c`-th on. -/
def Command.steps (random : Nat → Byte) (c n : Nat) : List Command :=
  (List.range' c n).map fun i => .step (random i)

namespace Command

theorem steps_succ (random : Nat → Byte) (c n : Nat) :
    steps random c (n + 1) = steps random c n ++ [.step (random (c + n))] := by
  rw [steps, List.range'_concat, Nat.one_mul, List.map_append]
  rfl

theorem steps_add (random : Nat → Byte) (c a b : Nat) :
    steps random c (a + b) = steps random c a ++ steps random (c + a) b := by
  rw [steps, ← List.range'_append_1, List.map_append]
  rfl

end Command

/-- Steps make the picture news exactly if one of them draws. -/
theorem Machine.changed_run_steps (m : Machine) (random : Nat → Byte) (c n : Nat) :
    (m.run (Command.steps random c n)).display.changed =
      (m.display.changed ||
        (List.range n).any fun i => (m.run (Command.steps random c i)).draws) := by
  induction n with
  | zero => exact (Bool.or_false _).symm
  | succ n ih =>
      rw [Command.steps_succ, run_append, run_cons, run_nil, changed_step, ih, List.range_succ,
        List.any_append, Bool.or_assoc]
      simp

namespace Host

/-- What an event tells the machine is about a key. -/
theorem Event.key_of_command? {e : Event} {c : Command} (hcommand : e.command? = some c) :
    (∃ b, c = .keyDown b) ∨ ∃ b, c = .keyUp b := by
  unfold command? at hcommand
  split at hcommand
  · obtain ⟨k, -, rfl⟩ := Option.map_eq_some_iff.1 hcommand
    exact Or.inl ⟨_, rfl⟩
  · obtain ⟨k, -, rfl⟩ := Option.map_eq_some_iff.1 hcommand
    exact Or.inr ⟨_, rfl⟩
  · simp at hcommand

/-- A frame that was played. -/
structure PlayedFrame where
  /-- The session when the frame began. -/
  before : Session
  /-- The events that came up in it. -/
  events : List Event
  /-- The session when the frame was over. -/
  after : Session
  /-- What the frame showed. -/
  report : Report

namespace Session

variable (s : Session) (random : Nat → Byte) (n : Nat)

/-! ## Frames -/

/-- Plays one frame. -/
def playFrame (random : Nat → Byte) (n : Nat) (events : List Event) (s : Session) :
    PlayedFrame where
  before := s
  events := events
  after := (s.frame random n events).1
  report := (s.frame random n events).2

/-- Plays frames one after the other. -/
def frames (random : Nat → Byte) (n : Nat) : List (List Event) → Session → List PlayedFrame
  | [], _ => []
  | events :: rest, s =>
    let f := s.playFrame random n events
    f :: f.after.frames random n rest

/-- The session after some frames. -/
def afterFrames (random : Nat → Byte) (n : Nat) (all : List (List Event)) (s : Session) :
    Session :=
  all.foldl (fun s events => (s.frame random n events).1) s

theorem frames_append (all more : List (List Event)) :
    s.frames random n (all ++ more) =
      s.frames random n all ++ (s.afterFrames random n all).frames random n more := by
  induction all generalizing s with
  | nil => rfl
  | cons events rest ih =>
      rw [List.cons_append, frames, ih]
      rfl

theorem afterFrames_append (all more : List (List Event)) :
    s.afterFrames random n (all ++ more) =
      (s.afterFrames random n all).afterFrames random n more :=
  List.foldl_append

theorem length_frames (all : List (List Event)) :
    (s.frames random n all).length = all.length := by
  induction all generalizing s with
  | nil => rfl
  | cons events rest ih => rw [frames, List.length_cons, ih, List.length_cons]

/-- Each frame goes on where those before it arrived. -/
theorem frames_eq_append_cons {all : List (List Event)} {earlier later : List PlayedFrame}
    {f : PlayedFrame} (hsplit : s.frames random n all = earlier ++ f :: later) :
    ∃ front rest, all = front ++ f.events :: rest ∧ earlier = s.frames random n front ∧
      f = (s.afterFrames random n front).playFrame random n f.events ∧
      later = f.after.frames random n rest := by
  induction earlier generalizing s all with
  | nil =>
      cases all with
      | nil => simp [frames] at hsplit
      | cons events rest =>
          obtain ⟨rfl, rfl⟩ := List.cons.inj hsplit
          exact ⟨[], rest, rfl, rfl, rfl, rfl⟩
  | cons g earlier ih =>
      cases all with
      | nil => simp [frames] at hsplit
      | cons events all =>
          obtain ⟨rfl, hrest⟩ := List.cons.inj hsplit
          obtain ⟨front, rest, rfl, rfl, hf, hlater⟩ := ih _ hrest
          exact ⟨events :: front, rest, rfl, rfl, hf, hlater⟩

end Session

namespace Script

/-- The frames that are begun when a script is played, each with its events: those up
to the last, which may be the one after the script. -/
def begun (script : List (List Event)) : List (List Event) :=
  (script ++ [[Event.quit]]).take (lastFrame script + 1)

theorem begun_cons_of_ends {events : List Event} (hends : events.any (·.ends) = true)
    (rest : List (List Event)) : begun (events :: rest) = [events] := by
  simp [begun, lastFrame, List.findIdx_cons, hends]

theorem begun_cons_of_not_ends {events : List Event} (hends : events.any (·.ends) = false)
    (rest : List (List Event)) : begun (events :: rest) = events :: begun rest := by
  simp [begun, lastFrame, List.findIdx_cons, hends]

/-- Some frame is begun, and all before it, but none after one that is ended. -/
theorem begun_append {front : List (List Event)}
    (hfront : ∀ events ∈ front, events.any (·.ends) = false) (rest : List (List Event)) :
    begun (front ++ rest) = front ++ begun rest := by
  induction front with
  | nil => rfl
  | cons events front ih =>
      rw [List.cons_append, begun_cons_of_not_ends (hfront events List.mem_cons_self),
        ih fun events hmem => hfront events (List.mem_cons_of_mem _ hmem)]
      rfl

/-- Nothing ends the session in a frame before another one that is begun. -/
theorem not_ends_of_begun {script front rest : List (List Event)} {events : List Event}
    (hsplit : begun script = front ++ events :: rest) :
    ∀ earlier ∈ front, earlier.any (·.ends) = false := by
  induction script generalizing front with
  | nil =>
      have hnil : front = [] := by
        cases front with
        | nil => rfl
        | cons first front => simp [begun, lastFrame] at hsplit
      simp [hnil]
  | cons first script ih =>
      cases front with
      | nil => simp
      | cons earlier front =>
          cases hends : first.any (·.ends) with
          | true =>
              rw [begun_cons_of_ends hends] at hsplit
              simp at hsplit
          | false =>
              rw [begun_cons_of_not_ends hends] at hsplit
              obtain ⟨rfl, hrest⟩ := List.cons.inj hsplit
              exact List.forall_mem_cons.2 ⟨hends, ih hrest⟩

/-- Some frame is the last that is begun, and nothing ends the session before it. -/
theorem begun_eq_concat (script : List (List Event)) :
    ∃ front last, begun script = front ++ [last] ∧
      ∀ events ∈ front, events.any (·.ends) = false := by
  obtain hnil | ⟨front, last, hconcat⟩ := List.eq_nil_or_concat (begun script)
  · cases script <;> simp [begun] at hnil
  · rw [List.concat_eq_append] at hconcat
    exact ⟨front, last, hconcat, not_ends_of_begun hconcat⟩

end Script

open Script in
/-- **A script is played** by playing the frames that it begins. -/
theorem Session.play_eq_frames (s : Session) (random : Nat → Byte) (n : Nat)
    (script : List (List Event)) :
    s.play random n script =
      (s.afterFrames random n (begun script),
        (s.frames random n (begun script)).map PlayedFrame.report) := by
  induction script generalizing s with
  | nil => rfl
  | cons events rest ih =>
      cases hends : events.any (·.ends) with
      | true =>
          simp only [play, hends, if_true, begun_cons_of_ends hends]
          rfl
      | false =>
          simp only [play, hends, Bool.false_eq_true, if_false, ih, begun_cons_of_not_ends hends]
          rfl

namespace Session

variable (s : Session) (random : Nat → Byte) (n : Nat)

/-- Every frame puts all its lines into its report. -/
theorem log_frame (events : List Event) : (s.frame random n events).1.log = #[] := by
  rw [frame]
  split <;> rfl

/-- A frame that is begun at some place of a script is begun by the session at which
the frames before it arrive, none of which ends it. -/
theorem begun_of_getElem? {session : Session} {before rest : List (List Event)}
    {events : List Event} {f : PlayedFrame}
    (hbegun : (session.frames random n
      (Script.begun (before ++ events :: rest)))[before.length]? = some f) :
    (∀ earlier ∈ before, earlier.any (·.ends) = false) ∧
      f = (session.afterFrames random n before).playFrame random n events := by
  induction before generalizing session with
  | nil =>
      refine ⟨by simp, ?_⟩
      rw [List.nil_append] at hbegun
      cases hends : events.any (·.ends) with
      | true =>
          rw [Script.begun_cons_of_ends hends] at hbegun
          exact (Option.some.inj hbegun).symm
      | false =>
          rw [Script.begun_cons_of_not_ends hends] at hbegun
          exact (Option.some.inj hbegun).symm
  | cons first before ih =>
      rw [List.cons_append] at hbegun
      cases hends : first.any (·.ends) with
      | true =>
          rw [Script.begun_cons_of_ends hends] at hbegun
          simp [frames] at hbegun
      | false =>
          rw [Script.begun_cons_of_not_ends hends] at hbegun
          obtain ⟨hbefore, hf⟩ := ih hbegun
          exact ⟨List.forall_mem_cons.2 ⟨hends, hbefore⟩, hf⟩

/-- Before the first frame the log holds the line about the program, and before any
other frame nothing. -/
theorem log_afterFrames (session : Session) (before : List (List Event)) :
    (session.afterFrames random n before).log.toList =
      if before = [] then session.log.toList else [] := by
  obtain rfl | ⟨front, last, hconcat⟩ := List.eq_nil_or_concat before
  · rfl
  · rw [hconcat, List.concat_eq_append, afterFrames_append, if_neg (by simp)]
    exact congrArg Array.toList (log_frame _ random n last)

/-- A session starts with a machine that was just switched on and holds the program,
and with a line about it. -/
theorem start_eq_ok {canvas : Nat → Canvas} {program : List Byte} {session : Session}
    (hstart : start canvas program = .ok session) :
    session =
      { machine :=
          { Machine.fresh with
            memory := Machine.fresh.memory.writeFrom Machine.programStart.address program }
        suspended := false
        beeping := false
        cycles := 0
        log := ((Machine.loadNotices program).map Record.machine).toArray
        canvas := canvas } := by
  rw [start, Machine.load] at hstart
  split at hstart
  · exact (Except.ok.inj hstart).symm
  · simp [Except.map] at hstart

/-! ## What is heard -/

/-- Of the machine, an event reaches registers and keypad only. -/
theorem display_hear (e : Event) : (s.hear e).machine.display = s.machine.display := by
  rw [hear_eq]
  split
  · rename_i c hcommand
    show (s.machine.after c).display = _
    obtain ⟨b, rfl⟩ | ⟨b, rfl⟩ := Event.key_of_command? hcommand
    · rw [Machine.after_keyDown]
    · rw [Machine.after_keyUp]
  · split <;> rfl

theorem display_hears (events : List Event) :
    (events.foldl hear s).machine.display = s.machine.display := by
  induction events generalizing s with
  | nil => rfl
  | cons e rest ih => rw [List.foldl_cons, ih, display_hear]

/-- No event starts or stops a tone, or makes a step. -/
theorem beeping_hears (events : List Event) :
    (events.foldl hear s).beeping = s.beeping ∧ (events.foldl hear s).cycles = s.cycles := by
  induction events generalizing s with
  | nil => exact ⟨rfl, rfl⟩
  | cons e rest ih =>
      have hfirst : (s.hear e).beeping = s.beeping ∧ (s.hear e).cycles = s.cycles := by
        rw [hear_eq]
        split
        · exact ⟨rfl, rfl⟩
        · split <;> exact ⟨rfl, rfl⟩
      obtain ⟨hbeeping, hcycles⟩ := ih (s.hear e)
      exact ⟨hbeeping.trans hfirst.1, hcycles.trans hfirst.2⟩

/-! ## Rounds -/

/-- Steps are commands like others; the session also counts them. -/
theorem steps_eq :
    s.steps random n =
      { s with
        machine := s.machine.run (Command.steps random s.cycles n)
        cycles := s.cycles + n
        log := s.log ++
          ((s.machine.log (Command.steps random s.cycles n)).map Record.machine).toArray } := by
  induction n generalizing s with
  | zero => simp [steps, Command.steps, Machine.log]
  | succ n ih =>
      rw [steps, ih, Nat.add_comm n 1, Command.steps_add]
      simp [command, Command.steps, Machine.log, Nat.add_assoc, List.range'_succ]

/-- The steps that a session takes in a frame. -/
def due (random : Nat → Byte) (n : Nat) (s : Session) : List Command :=
  if s.suspended then [] else Command.steps random s.cycles n

theorem advance_eq :
    s.advance random n =
      { s with
        machine := s.machine.run (s.due random n)
        cycles := if s.suspended then s.cycles else s.cycles + n
        log := s.log ++ ((s.machine.log (s.due random n)).map Record.machine).toArray } := by
  rw [advance, due]
  cases hsuspended : s.suspended with
  | true => simp [Machine.log, ← hsuspended]
  | false => simp [steps_eq, hsuspended]

/-- The steps of a frame ask for nothing and switch nothing off. -/
theorem notMem_due : .takeFrame ∉ s.due random n ∧ .reset ∉ s.due random n := by
  rw [due]
  split <;> simp [Command.steps]

/-- The session when the events of a frame are heard and its steps are done. -/
def stepped (random : Nat → Byte) (n : Nat) (events : List Event) (s : Session) : Session :=
  (events.foldl hear s).advance random n

/-- The line at the end of a frame if a tone starts or stops. -/
def toneLines (s : Session) : List Record :=
  if s.machine.sounding = s.beeping then [] else [if s.beeping then .toneOff else .toneOn]

theorem soundTone_eq :
    s.soundTone =
      { s with beeping := s.machine.sounding, log := s.log ++ s.toneLines.toArray } := by
  obtain ⟨machine, suspended, beeping, cycles, log⟩ := s
  cases hsounding : machine.sounding <;> cases beeping <;>
    simp [soundTone, toneLines, note, hsounding]

/-- The machine reports nothing when its picture is handed over. -/
theorem command_takeFrame :
    s.command .takeFrame = { s with machine := s.machine.after .takeFrame } := by
  simp [command, Machine.notices]

theorem sounding_takeFrame (m : Machine) : (m.after .takeFrame).sounding = m.sounding := by
  rw [Machine.after_takeFrame]
  rfl

/-- **The session after a round**: the picture was handed over, and a tone sounds if
the machine says so. -/
theorem round_fst (events : List Event) :
    (s.round random n events).1 =
      { s.stepped random n events with
        machine := (s.stepped random n events).machine.after .takeFrame
        beeping := (s.stepped random n events).machine.sounding
        log := #[] } := by
  have hround : (s.round random n events).1 =
      { ((s.stepped random n events).command .takeFrame).soundTone with log := #[] } := rfl
  rw [hround, command_takeFrame, soundTone_eq, sounding_takeFrame]

/-- **What a round shows**: the picture, if it is news, and a line if a tone starts
or stops. -/
theorem round_snd (events : List Event) :
    (s.round random n events).2 =
      { log := (s.stepped random n events).log.toList ++ (s.stepped random n events).toneLines
        texture := (s.stepped random n events).machine.takeFrame.2.bind
          ((s.stepped random n events).canvas (s.stepped random n events).cycles).upload? } := by
  have hround : (s.round random n events).2 =
      { log := ((s.stepped random n events).command .takeFrame).soundTone.log.toList
        texture := (s.stepped random n events).machine.takeFrame.2.bind
          ((s.stepped random n events).canvas (s.stepped random n events).cycles).upload? } := rfl
  rw [hround, command_takeFrame, soundTone_eq]
  simp [toneLines, sounding_takeFrame]

/-! ## Nothing is new -/

/-- The picture of the machine was handed over, and a tone sounds if the machine says
so. -/
structure Settled (s : Session) : Prop where
  taken : s.machine.display.changed = false
  tone : s.beeping = s.machine.sounding

theorem settled_round (events : List Event) : (s.round random n events).1.Settled := by
  rw [round_fst]
  exact ⟨by rw [Machine.after_takeFrame], (sounding_takeFrame _).symm⟩

theorem Settled.afterFrames {s : Session} (h : s.Settled) {front : List (List Event)}
    (hfront : ∀ events ∈ front, events.any (·.ends) = false) :
    (s.afterFrames random n front).Settled := by
  induction front generalizing s with
  | nil => exact h
  | cons events front ih =>
      obtain ⟨hends, hrest⟩ := List.forall_mem_cons.1 hfront
      have hafter : (s.frame random n events).1.Settled := by
        rw [frame_of_not_ends s random n hends]
        exact s.settled_round random n _
      exact ih hafter hrest

/-! ## Pictures -/

/-- A round shows the picture exactly if it is news. -/
theorem picture_round (events : List Event) :
    (s.round random n events).2.texture.map Texture.picture? =
      if (s.stepped random n events).machine.display.changed
      then some (some (s.stepped random n events).machine.display.frame) else none := by
  rw [round_snd]
  generalize s.stepped random n events = stepped
  show (stepped.machine.display.take.2.bind (stepped.canvas stepped.cycles).upload?).map
    Texture.picture? = _
  rw [Display.take]
  cases stepped.machine.display.changed with
  | false => rfl
  | true =>
      obtain ⟨texture, hupload, hpicture⟩ :=
        Texture.picture_upload (stepped.canvas stepped.cycles).fits stepped.machine.display.frame
      rw [if_pos rfl, if_pos rfl, Option.bind_some, hupload, Option.map_some, hpicture]

theorem isSome_texture_round (events : List Event) :
    (s.round random n events).2.texture.isSome =
      (s.stepped random n events).machine.display.changed := by
  rw [← Option.isSome_map, picture_round]
  cases (s.stepped random n events).machine.display.changed <;> rfl

end Session

/-- The picture in the window after some reports: that of the texture uploaded last, if it
shows one, or what there was if none was uploaded. -/
def shownBy (picture : Option Frame) (rs : List Report) : Option Frame :=
  ((rs.filterMap Report.texture).getLast?.map Texture.picture?).getD picture

theorem shownBy_append (picture : Option Frame) (rs rs' : List Report) :
    shownBy picture (rs ++ rs') = shownBy (shownBy picture rs) rs' := by
  rw [shownBy, List.filterMap_append, List.getLast?_append, shownBy, shownBy]
  cases (rs'.filterMap Report.texture).getLast? <;> rfl

/-- What a round shows is what a host shows that asks for the picture when all steps
are done. -/
theorem shownBy_round (picture : Frame) (s : Session) (random : Nat → Byte) (n : Nat)
    (events : List Event) :
    shownBy (some picture) [(s.round random n events).2] =
      some ((s.stepped random n events).machine.shown picture [.takeFrame]) := by
  have hround : shownBy (some picture) [(s.round random n events).2] =
      ((s.round random n events).2.texture.map Texture.picture?).getD (some picture) := by
    rw [shownBy]
    cases htexture : (s.round random n events).2.texture <;> simp [htexture]
  rw [hround, Session.picture_round, Machine.shown_takeFrame]
  split <;> rfl

end Host

end Chip8
