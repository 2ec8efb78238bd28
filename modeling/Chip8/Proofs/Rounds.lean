import Chip8.Host.Session
import Chip8.Proofs.Runs

/-!
# Rounds

A frame in which nothing ends the session is a round: its events are heard, the
machine is stepped unless it is suspended, the picture is taken.  A script is
played by a number of rounds, and then the events before the one that ends the
session are heard (`play_eq`).  The last frame (`lastFrame`) and what is heard in
each (`heard`) are all that matters about a script.

Of what an event does there are only three kinds: it gives the machine a command,
it suspends or resumes the machine, or it does nothing (`hear_eq`).
-/

namespace Chip8.Host

namespace Event

/-- What an event tells the machine: that a key of the keypad goes down or up.  A
key that is only held on tells it nothing. -/
def command? : Event → Option Command
  | .keyDown (some key) false => key.keypad?.map fun k => .keyDown k.toByte
  | .keyUp (some key) => key.keypad?.map fun k => .keyUp k.toByte
  | _ => none

/-- Whether an event suspends the machine or resumes it. -/
def toggles (e : Event) : Bool := e = .keyDown (some .space) false

/-- The space bar is no key of the keypad. -/
theorem toggles_eq_false_of_command? {e : Event} {c : Command}
    (hcommand : e.command? = some c) :
    e.toggles = false := by
  apply decide_eq_false
  rintro rfl
  have hnone : HostKey.space.keypad? = none := by decide
  simp [command?, hnone] at hcommand

end Event

namespace Session

variable (s : Session) (random : Nat → Byte) (n : Nat)

/-! ## Events -/

/-- **All that an event does**: it gives the machine a command, or suspends or
resumes it, or nothing. -/
theorem hear_eq (e : Event) :
    s.hear e =
      match e.command? with
      | some c => s.command c
      | none => if e.toggles then s.toggle else s := by
  fun_cases Session.hear s e with
  | case1 key k hkey => simp [Event.command?, hkey]
  | case2 hkey => simp [Event.command?, Event.toggles, hkey]
  | case3 key hkey hother => simp [Event.command?, Event.toggles, hkey, hother]
  | case4 key k hkey => simp [Event.command?, hkey]
  | case5 key hkey => simp [Event.command?, Event.toggles, hkey]
  | case6 e hdown hup =>
      -- Neither a press nor a release of a key that has a name.
      have htoggles : e.toggles = false := decide_eq_false fun h => hdown _ h
      have hcommand : e.command? = none := by
        unfold Event.command?
        split
        · exact absurd rfl (hdown _)
        · exact absurd rfl (hup _)
        · rfl
      rw [hcommand, htoggles]
      rfl

/-! ## Rounds -/

/-- A frame in which nothing ends the session. -/
def round (events : List Event) : Session × Report :=
  let (shown, texture) := ((events.foldl hear s).advance random n).render
  shown.soundTone.report texture

/-- Frames in which nothing ends the session, one after the other. -/
def rounds (random : Nat → Byte) (n : Nat) :
    List (List Event) → Session → Session × List Report
  | [], s => (s, [])
  | events :: rest, s =>
    let (s, r) := s.round random n events
    let (s, rs) := s.rounds random n rest
    (s, r :: rs)

theorem rounds_append (before after : List (List Event)) :
    s.rounds random n (before ++ after) =
      let (s, rs) := s.rounds random n before
      let (s, rs') := s.rounds random n after
      (s, rs ++ rs') := by
  induction before generalizing s with
  | nil => rfl
  | cons events rest ih => simp only [List.cons_append, rounds, ih]

theorem rounds_concat (before : List (List Event)) (events : List Event) :
    s.rounds random n (before ++ [events]) =
      (((s.rounds random n before).1.round random n events).1,
        (s.rounds random n before).2 ++
          [((s.rounds random n before).1.round random n events).2]) :=
  s.rounds_append random n before [events]

/-- Frames in which nothing ends the session, and then the events that come up
before the one that ends it. -/
def playOut (frames : List (List Event)) (last : List Event) : Session × List Report :=
  let (s, rs) := s.rounds random n frames
  let (s, r) := (last.foldl hear s).report none
  (s, rs ++ [r])

theorem playOut_cons (events : List Event) (frames : List (List Event))
    (last : List Event) :
    s.playOut random n (events :: frames) last =
      let (s, r) := s.round random n events
      let (s, rs) := s.playOut random n frames last
      (s, r :: rs) := rfl

/-! ## Scripts -/

/-- A frame with an event that ends the session is not played to its end. -/
theorem frame_of_ends {events : List Event} (hends : events.any (·.ends) = true) :
    s.frame random n events =
      ((events.takeWhile (!·.ends)).foldl hear s).report none := by
  rw [frame, if_pos hends]

/-- Any other frame is a round. -/
theorem frame_of_not_ends {events : List Event} (hends : events.any (·.ends) = false) :
    s.frame random n events = s.round random n (events.takeWhile (!·.ends)) := by
  rw [frame, if_neg (Bool.eq_false_iff.1 hends)]
  rfl

/-- What comes after the event that ends the session makes no difference. -/
theorem play_cons_of_ends {events : List Event} (hends : events.any (·.ends) = true)
    (rest : List (List Event)) :
    s.play random n (events :: rest) =
      s.playOut random n [] (events.takeWhile (!·.ends)) := by
  simp only [play, frame_of_ends s random n hends, hends, if_true]
  rfl

theorem play_cons_of_not_ends {events : List Event} (hends : events.any (·.ends) = false)
    (rest : List (List Event)) :
    s.play random n (events :: rest) =
      let (s, r) := s.round random n (events.takeWhile (!·.ends))
      let (s, rs) := s.play random n rest
      (s, r :: rs) := by
  simp only [play, frame_of_not_ends s random n hends, hends, Bool.false_eq_true, if_false]

end Session

namespace Script

/-- The frame in which a session ends: the first in which an event ends it, or the
one after the script, in which the window is closed. -/
def lastFrame (script : List (List Event)) : Nat :=
  script.findIdx (·.any (·.ends))

/-- What is heard in a frame: the events before the first that ends the session. -/
def heard (script : List (List Event)) (k : Nat) : List Event :=
  (script.getD k []).takeWhile (!·.ends)

/-- What is heard in the frames before the `k`-th, frame by frame. -/
def heardBefore (script : List (List Event)) (k : Nat) : List (List Event) :=
  (List.range k).map (heard script)

theorem heardBefore_succ (script : List (List Event)) (k : Nat) :
    heardBefore script (k + 1) = heardBefore script k ++ [heard script k] := by
  rw [heardBefore, List.range_succ, List.map_append]
  rfl

theorem heardBefore_cons_succ (events : List Event) (rest : List (List Event)) (k : Nat) :
    heardBefore (events :: rest) (k + 1) =
      events.takeWhile (!·.ends) :: heardBefore rest k := by
  rw [heardBefore, List.range_succ_eq_map, List.map_cons, List.map_map]
  rfl

end Script

open Script in
/-- **How a script is played**: the frames before the last are rounds, and of the
last only what comes up before the event that ends the session is heard. -/
theorem Session.play_eq (s : Session) (random : Nat → Byte) (n : Nat)
    (script : List (List Event)) :
    s.play random n script =
      s.playOut random n (heardBefore script (lastFrame script))
        (heard script (lastFrame script)) := by
  induction script generalizing s with
  | nil => rfl
  | cons events rest ih =>
      cases hends : events.any (·.ends) with
      | true =>
          have hlast : lastFrame (events :: rest) = 0 := by
            simp [lastFrame, List.findIdx_cons, hends]
          rw [play_cons_of_ends s random n hends, hlast]
          rfl
      | false =>
          have hlast : lastFrame (events :: rest) = lastFrame rest + 1 := by
            simp [lastFrame, List.findIdx_cons, hends]
          simp only [play_cons_of_not_ends s random n hends, ih, hlast,
            heardBefore_cons_succ, playOut_cons]
          rfl

end Chip8.Host
