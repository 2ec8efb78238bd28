import Chip8.Proofs.Frames
import Chip8.Proofs.Playing

/-!
# Suspending is invisible to the machine

A session that is suspended when a frame would have begun, and resumed any number of
frames later, goes on as if nothing had happened: every frame that was there before
leaves the same machine behind and shows the same picture and tone, and in the frames
between nothing happens at all (`suspension_invisible`).

Two facts carry the proof.  When a frame begins, nothing is new (`Settled`), so a
frame without steps shows nothing (`Settled.frame_nil`).  And what a session has
logged before makes no difference to what it does (`frame_logging`), so the line about
the resumption is all that is left of the pause.
-/

namespace Chip8.Host

/-- The space bar goes down. -/
def Event.spaceDown : Event := .keyDown (some .space) false

/-- `m` frames for which a session is suspended: the space bar goes down in the first,
and no event comes up in the others. -/
def Script.pause (m : Nat) : List (List Event) := [.spaceDown] :: List.replicate (m - 1) []

theorem Script.not_ends_pause (m : Nat) : ∀ events ∈ pause m, events.any (·.ends) = false := by
  intro events hevents
  rw [pause, List.mem_cons, List.mem_replicate] at hevents
  obtain rfl | ⟨-, rfl⟩ := hevents <;> rfl

theorem Script.length_pause {m : Nat} (hm : 1 ≤ m) : (pause m).length = m := by
  rw [pause, List.length_cons, List.length_replicate]
  omega

/-- What can be seen of a frame from outside: the machine that it leaves behind, the
picture uploaded and the lines about the tone. -/
def PlayedFrame.seen (f : PlayedFrame) : Machine × Option Texture × List Record :=
  (f.after.machine, f.report.texture, f.report.log.filter Record.isTone)

namespace Session

variable (s : Session) (random : Nat → Byte) (n : Nat)

/-! ## What was logged before -/

/-- The session with some lines in front of its log. -/
def logging (lines : Array Record) (s : Session) : Session := { s with log := lines ++ s.log }

theorem hear_logging (lines : Array Record) (e : Event) :
    (s.logging lines).hear e = (s.hear e).logging lines := by
  rw [hear_eq, hear_eq]
  cases e.command? with
  | some c => simp [command, logging]
  | none =>
      cases e.toggles with
      | true =>
          simp only [if_true, toggle, note, logging, Array.append_push]
          rfl
      | false => rfl

theorem hears_logging (lines : Array Record) (events : List Event) :
    events.foldl hear (s.logging lines) = (events.foldl hear s).logging lines := by
  induction events generalizing s with
  | nil => rfl
  | cons e rest ih => rw [List.foldl_cons, hear_logging, ih, List.foldl_cons]

theorem stepped_logging (lines : Array Record) (events : List Event) :
    (s.logging lines).stepped random n events = (s.stepped random n events).logging lines := by
  rw [stepped, stepped, hears_logging, advance_eq, advance_eq]
  simp only [logging, Array.append_assoc]
  rfl

theorem round_logging (lines : Array Record) (events : List Event) :
    (s.logging lines).round random n events =
      ((s.round random n events).1,
        { (s.round random n events).2 with
          log := lines.toList ++ (s.round random n events).2.log }) := by
  apply Prod.ext
  · rw [round_fst, round_fst, stepped_logging]
    rfl
  · have hlines : ((s.stepped random n events).logging lines).toneLines =
        (s.stepped random n events).toneLines := rfl
    rw [round_snd, round_snd, stepped_logging, hlines]
    simp [logging]

/-- **What was logged before a frame** comes first in its report, and makes no
difference otherwise. -/
theorem frame_logging (lines : Array Record) (events : List Event) :
    (s.logging lines).frame random n events =
      ((s.frame random n events).1,
        { (s.frame random n events).2 with
          log := lines.toList ++ (s.frame random n events).2.log }) := by
  cases hends : events.any (·.ends) with
  | true =>
      rw [frame_of_ends _ random n hends, frame_of_ends _ random n hends, hears_logging]
      simp [report, logging]
  | false =>
      rw [frame_of_not_ends _ random n hends, frame_of_not_ends _ random n hends, round_logging]

/-- An event that does not end the frame can as well come up before it. -/
theorem frame_cons {e : Event} (hends : e.ends = false) (events : List Event) :
    s.frame random n (e :: events) = (s.hear e).frame random n events := by
  simp [frame, hends]

/-! ## Nothing happens -/

variable {s}

/-- While nothing is new, nothing happens in a frame without events and steps. -/
theorem Settled.frame_nil (h : s.Settled) (hsuspended : s.suspended = true) :
    s.frame random n [] = ({ s with log := #[] }, ⟨s.log.toList, none⟩) := by
  have hstepped : s.stepped random n [] = s := if_pos hsuspended
  have hmachine : s.machine.after .takeFrame = s.machine := by
    rw [Machine.after_takeFrame, ← h.taken]
  have hround : s.frame random n [] = s.round random n [] := rfl
  rw [hround]
  apply Prod.ext
  · rw [round_fst, hstepped, hmachine, ← h.tone]
  · rw [round_snd, hstepped, toneLines, if_pos h.tone.symm, List.append_nil]
    show Report.mk _ (s.machine.display.take.2.bind _) = _
    rw [Display.take, h.taken]
    rfl

/-! ## A pause -/

theorem hear_spaceDown (s : Session) : s.hear .spaceDown = s.toggle := by
  have hnone : HostKey.space.keypad? = none := by decide
  simp [hear, Event.spaceDown, hnone]

theorem Settled.frames_replicate_nil (h : s.Settled) (hsuspended : s.suspended = true)
    (hlog : s.log = #[]) (k : Nat) :
    s.frames random n (List.replicate k []) = List.replicate k ⟨s, [], s, ⟨[], none⟩⟩ ∧
      s.afterFrames random n (List.replicate k []) = s := by
  have hframe : s.frame random n [] = (s, ⟨[], none⟩) := by
    have hsame : { s with log := #[] } = s := by rw [← hlog]
    have hlines : s.log.toList = [] := by rw [hlog]
    rw [h.frame_nil random n hsuspended, hsame, hlines]
  have hplay : s.playFrame random n [] = ⟨s, [], s, ⟨[], none⟩⟩ := by
    rw [playFrame, hframe]
  induction k with
  | zero => exact ⟨rfl, rfl⟩
  | succ k ih =>
      rw [List.replicate_succ, List.replicate_succ, frames, hplay, ih.1, Session.afterFrames,
        List.foldl_cons, hframe]
      exact ⟨rfl, ih.2⟩

/-- The session in the middle of a pause. -/
def asleep (s : Session) : Session := { s with suspended := true, log := #[] }

/-- **Nothing happens in a pause** but that it is logged. -/
theorem Settled.frames_pause (h : s.Settled) (hrunning : s.suspended = false) (m : Nat) :
    s.frames random n (Script.pause m) =
        ⟨s, [.spaceDown], s.asleep, ⟨s.log.toList ++ [.suspended], none⟩⟩ ::
          List.replicate (m - 1) ⟨s.asleep, [], s.asleep, ⟨[], none⟩⟩ ∧
      s.afterFrames random n (Script.pause m) = s.asleep := by
  have htoggle : s.toggle = { s with suspended := true, log := s.log.push .suspended } := by
    simp [toggle, note, hrunning]
  have hasleep : s.asleep.Settled := ⟨h.taken, h.tone⟩
  have hfirst : s.frame random n [.spaceDown] =
      (s.asleep, ⟨s.log.toList ++ [.suspended], none⟩) := by
    have hsettled : s.toggle.Settled := by
      rw [htoggle]
      exact ⟨h.taken, h.tone⟩
    rw [frame_cons s random n (by decide), hear_spaceDown,
      hsettled.frame_nil random n (by rw [htoggle]), htoggle]
    simp [asleep]
  obtain ⟨hframes, hafter⟩ := hasleep.frames_replicate_nil random n rfl rfl (m - 1)
  rw [Script.pause, frames, playFrame, hfirst, hframes, Session.afterFrames, List.foldl_cons,
    hfirst]
  exact ⟨rfl, hafter⟩

/-- **When the pause is over**, the frame that was due is played; only the lines in
front of its report are others. -/
theorem frame_resumed (hrunning : s.suspended = false) (events : List Event) :
    ∃ after lines texture,
      s.frame random n events = (after, ⟨s.log.toList ++ lines, texture⟩) ∧
        s.asleep.frame random n (.spaceDown :: events) =
          (after, ⟨.resumed :: lines, texture⟩) := by
  let silent : Session := { s with log := #[] }
  refine ⟨(silent.frame random n events).1, (silent.frame random n events).2.log,
    (silent.frame random n events).2.texture, ?_, ?_⟩
  · have hsame : silent.logging s.log = s := by simp [silent, logging]
    have hframe := silent.frame_logging random n s.log events
    rwa [hsame] at hframe
  · have hsame : s.asleep.toggle = silent.logging #[.resumed] := by
      simp [silent, toggle, note, asleep, logging, hrunning]
    rw [frame_cons _ random n (by decide), hear_spaceDown, hsame, frame_logging]
    rfl

/-- From the frame on that was due, the same is seen. -/
theorem seen_frames_resumed (hrunning : s.suspended = false)
    (hsilent : s.log.toList.filter Record.isTone = []) (events : List Event)
    (rest : List (List Event)) :
    (s.asleep.frames random n (Script.begun ((.spaceDown :: events) :: rest))).map
        PlayedFrame.seen =
      (s.frames random n (Script.begun (events :: rest))).map PlayedFrame.seen := by
  obtain ⟨after, lines, texture, hframe, hresumed⟩ := frame_resumed random n hrunning events
  have hafter : (s.asleep.playFrame random n (.spaceDown :: events)).after =
      (s.playFrame random n events).after := by
    rw [playFrame, playFrame, hframe, hresumed]
  have hseen : (s.asleep.playFrame random n (.spaceDown :: events)).seen =
      (s.playFrame random n events).seen := by
    have hlines : (s.log.toList ++ lines).filter Record.isTone =
        (.resumed :: lines).filter Record.isTone := by
      rw [List.filter_append, hsilent]
      rfl
    rw [playFrame, playFrame, hframe, hresumed, PlayedFrame.seen, PlayedFrame.seen, hlines]
  have hspace : (Event.spaceDown :: events).any (·.ends) = events.any (·.ends) := rfl
  cases hends : events.any (·.ends) with
  | true =>
      rw [Script.begun_cons_of_ends (hspace.trans hends), Script.begun_cons_of_ends hends]
      exact congrArg (· :: []) hseen
  | false =>
      rw [Script.begun_cons_of_not_ends (hspace.trans hends),
        Script.begun_cons_of_not_ends hends, frames, List.map_cons, hseen, hafter]
      rfl

/-- A pause is played when a frame is due, and then that frame and the others. -/
theorem Settled.frames_paused (h : s.Settled) (hrunning : s.suspended = false)
    (hsilent : s.log.toList.filter Record.isTone = []) (m : Nat) (events : List Event)
    (rest : List (List Event)) :
    ∃ later,
      s.frames random n (Script.begun (Script.pause m ++ (.spaceDown :: events) :: rest)) =
          s.frames random n (Script.pause m) ++ later ∧
        later.map PlayedFrame.seen =
          (s.frames random n (Script.begun (events :: rest))).map PlayedFrame.seen := by
  obtain ⟨-, hasleep⟩ := h.frames_pause random n hrunning m
  refine ⟨_, ?_, seen_frames_resumed random n hrunning hsilent events rest⟩
  rw [Script.begun_append (Script.not_ends_pause m), frames_append, hasleep]

end Session

open Script in
/-- **Suspending is invisible to the machine.**  A script is played, and one of its
frames is begun while the session is not suspended.  Now `m` frames are put before it:
the space bar goes down in the first and in front of the events of the one that was
due.  Then every frame that was there before leaves the same machine behind, uploads
the same picture and has the same lines about the tone.  In each of the `m` frames no
step is taken, the machine stays as it is, no picture is uploaded and nothing is
logged, but for the line about the suspension in the first; if that is the first of
the session, the line about the program comes before it. -/
theorem suspension_invisible {canvas : Nat → Canvas} {program : List Byte} {session : Session}
    (hstart : Session.start canvas program = .ok session) (random : Nat → Byte) (n : Nat)
    {before rest : List (List Event)} {events : List Event} {m : Nat} (hm : 1 ≤ m)
    {f : PlayedFrame}
    (hbegun : (session.frames random n
      (begun (before ++ events :: rest)))[before.length]? = some f)
    (hrunning : f.before.suspended = false) :
    let script := before ++ events :: rest
    let paused := before ++ pause m ++ (.spaceDown :: events) :: rest
    let frames := session.frames random n (begun script)
    let frames' := session.frames random n (begun paused)
    let inserted := (frames'.drop before.length).take m
    frames.map PlayedFrame.report = (session.play random n script).2 ∧
      frames'.map PlayedFrame.report = (session.play random n paused).2 ∧
      (frames'.take before.length ++ frames'.drop (before.length + m)).map PlayedFrame.seen =
        frames.map PlayedFrame.seen ∧
      inserted.map (·.report.log) =
        ((if before = [] then (Machine.loadNotices program).map Record.machine else []) ++
          [.suspended]) :: List.replicate (m - 1) [] ∧
      ∀ g ∈ inserted, g.after.machine = f.before.machine ∧ g.after.cycles = f.before.cycles ∧
        g.report.texture = none := by
  intro script paused frames frames' inserted
  obtain ⟨hbefore, rfl⟩ := Session.begun_of_getElem? random n hbegun
  have hstarted : session.Settled := by
    rw [Session.start_eq_ok hstart]
    exact ⟨rfl, rfl⟩
  have hlog := session.log_afterFrames random n before
  have hload : session.log.toList = (Machine.loadNotices program).map Record.machine := by
    rw [Session.start_eq_ok hstart]
  have hsilent : (session.afterFrames random n before).log.toList.filter Record.isTone = [] := by
    rw [hlog, hload]
    split <;> simp [List.filter_map, Function.comp_def, Record.isTone]
  have hsettled := hstarted.afterFrames random n hbefore
  obtain ⟨later, hpaused, hseen⟩ :=
    hsettled.frames_paused random n hrunning hsilent m events rest
  have hframes : frames = session.frames random n before ++
      (session.afterFrames random n before).frames random n (begun (events :: rest)) := by
    show session.frames random n (begun (before ++ events :: rest)) = _
    rw [begun_append hbefore, Session.frames_append]
  have hframes' : frames' = session.frames random n before ++
      ((session.afterFrames random n before).frames random n (pause m) ++ later) := by
    show session.frames random n (begun (before ++ pause m ++ (.spaceDown :: events) :: rest)) = _
    rw [List.append_assoc, begun_append hbefore, Session.frames_append, hpaused]
  have hlength := session.length_frames random n before
  have hcount : ((session.afterFrames random n before).frames random n (pause m)).length = m := by
    rw [Session.length_frames, length_pause hm]
  have hinserted : inserted =
      (session.afterFrames random n before).frames random n (pause m) := by
    show (frames'.drop before.length).take m = _
    rw [hframes', List.drop_left' hlength, List.take_left' hcount]
  refine ⟨?_, ?_, ?_, ?_, ?_⟩
  · rw [Session.play_eq_frames]
  · rw [Session.play_eq_frames]
  · rw [← List.drop_drop, hframes', List.take_left' hlength, List.drop_left' hlength,
      List.drop_left' hcount, hframes, List.map_append, List.map_append, hseen]
  · rw [hinserted, (hsettled.frames_pause random n hrunning m).1, List.map_cons,
      List.map_replicate, hlog, hload]
  · intro g hg
    rw [hinserted, (hsettled.frames_pause random n hrunning m).1, List.mem_cons,
      List.mem_replicate] at hg
    obtain rfl | ⟨-, rfl⟩ := hg <;> exact ⟨rfl, rfl, rfl⟩

open Script in
/-- A machine that waits for a key is suspended for three frames just before the key
comes. -/
theorem suspension_invisible_before_key :
    let canvas : Nat → Canvas := fun _ => .tight
    let program : List Byte := [0xF0, 0x0A]
    let random : Nat → Byte := fun i => .ofNat 8 i
    let press : Event := .keyDown (some ⟨"X"⟩) false
    let script : List (List Event) := [[]] ++ [press] :: [[]]
    let paused : List (List Event) := [[]] ++ pause 3 ++ (.spaceDown :: [press]) :: [[]]
    ∃ session f, Session.start canvas program = .ok session ∧
      (session.frames random 2 (begun script))[1]? = some f ∧
      f.before.suspended = false ∧ f.before.machine.paused = true ∧
      let frames' := session.frames random 2 (begun paused)
      (frames'.take 1 ++ frames'.drop 4).map PlayedFrame.seen =
          (session.frames random 2 (begun script)).map PlayedFrame.seen ∧
        ((frames'.drop 1).take 3).map (·.report.log) = [[.suspended], [], []] := by
  intro canvas program random press script paused
  have hprogram : program.length ≤ Machine.maxProgramSize := by decide
  obtain ⟨session, hstart, -⟩ := account_start canvas hprogram
  have hbegun : (session.frames random 2 (begun script))[1]? =
      some ((session.afterFrames random 2 [[]]).playFrame random 2 [press]) := by
    have hscript : begun script = [[], [press], [], [.quit]] := by decide +kernel
    rw [hscript]
    rfl
  have hrunning : (session.afterFrames random 2 [[]]).suspended = false := by
    rw [Session.start_eq_ok hstart]
    decide +kernel
  have hwaiting : (session.afterFrames random 2 [[]]).machine.paused = true := by
    rw [Session.start_eq_ok hstart]
    decide +kernel
  obtain ⟨-, -, hseen, hlogs, -⟩ :=
    suspension_invisible hstart random 2 (m := 3) (by decide) hbegun hrunning
  exact ⟨session, _, hstart, hbegun, hrunning, hwaiting, hseen, hlogs⟩

end Chip8.Host
