import Mathlib.Data.List.Forall2
import Chip8.Host.Program
import Chip8.Proofs.Frames

/-!
# Events without effect

Most of what a window tells has no effect: presses that the host repeats while a key
is held, keys that it has no name for or that stand for nothing, releases of the
space bar.  Which events have one is said here without regard to how a session hears
them (`Event.effective`), and then seen to be those that end it, suspend or resume it,
or tell the machine something (`effective_eq`).

Leaving out events without effect (`Thinned`), as many as one likes and in any of the
frames, changes nothing in what a session shows or arrives at (`idle_events_invisible`).
-/

namespace Chip8.Host

/-! ## Events -/

theorem HostKey.isSome_keypad? (key : HostKey) :
    key.keypad?.isSome = decide (key ∈ layout.map Prod.fst) := by
  rw [keypad?, Bool.eq_iff_iff, decide_eq_true_iff, List.lookup_isSome_iff, List.mem_map]
  constructor
  · rintro ⟨p, hp, hkey⟩
    exact ⟨p, hp, (beq_iff_eq.1 hkey).symm⟩
  · rintro ⟨p, hp, rfl⟩
    exact ⟨p, hp, beq_self_eq_true _⟩

namespace Event

/-- The events that have an effect: the window is closed, a key of the layout, the
space bar or the escape key goes down and not by repetition, or a key of the layout
goes up. -/
def effective : Event → Bool
  | .quit => true
  | .keyDown (some key) false =>
    key ∈ HostKey.layout.map Prod.fst ∨ key = .space ∨ key = .escape
  | .keyUp (some key) => key ∈ HostKey.layout.map Prod.fst
  | _ => false

/-- They are those that end a session, suspend or resume it, or tell the machine
something. -/
theorem effective_eq (e : Event) :
    e.effective = (e.ends || e.toggles || e.command?.isSome) := by
  cases e with
  | quit => rfl
  | other => rfl
  | keyUp key =>
      cases key with
      | none => rfl
      | some key =>
          rw [command?, Option.isSome_map, HostKey.isSome_keypad?]
          rfl
  | keyDown key repeated =>
      cases key with
      | none => cases repeated <;> rfl
      | some key =>
          cases repeated with
          | true => simp [effective, ends, toggles, command?]
          | false =>
              have htoggles : (keyDown (some key) false).toggles = decide (key = .space) := by
                simp [toggles]
              rw [command?, Option.isSome_map, HostKey.isSome_keypad?, htoggles, ends, effective,
                Bool.decide_or, Bool.decide_or, Bool.or_comm, Bool.or_comm (decide (key = .space))]

theorem ends_of_idle {e : Event} (hidle : e.effective = false) : e.ends = false := by
  rw [effective_eq, Bool.or_eq_false_iff, Bool.or_eq_false_iff] at hidle
  exact hidle.1.1

end Event

/-- An event without effect is not heard. -/
theorem Session.hear_of_idle (s : Session) {e : Event} (hidle : e.effective = false) :
    s.hear e = s := by
  rw [Event.effective_eq, Bool.or_eq_false_iff, Bool.or_eq_false_iff] at hidle
  obtain ⟨⟨-, htoggles⟩, hcommand⟩ := hidle
  rw [Option.isSome_eq_false_iff, Option.isNone_iff_eq_none] at hcommand
  rw [hear_eq, hcommand, htoggles]
  rfl

/-! ## Leaving events out -/

/-- Some events of a frame, and those that are left when some without effect are left
out. -/
inductive Thinned : List Event → List Event → Prop where
  | nil : Thinned [] []
  | keep (e : Event) {es es' : List Event} : Thinned es es' → Thinned (e :: es) (e :: es')
  | drop {e : Event} {es es' : List Event} :
      e.effective = false → Thinned es es' → Thinned (e :: es) es'

namespace Thinned

variable {es es' : List Event}

theorem any_ends (h : Thinned es es') : es'.any (·.ends) = es.any (·.ends) := by
  induction h with
  | nil => rfl
  | keep e _ ih => rw [List.any_cons, List.any_cons, ih]
  | drop hidle _ ih => rw [List.any_cons, Event.ends_of_idle hidle, Bool.false_or, ih]

/-- What comes up before the event that ends the session is thinned, too. -/
theorem takeWhile (h : Thinned es es') :
    Thinned (es.takeWhile (!·.ends)) (es'.takeWhile (!·.ends)) := by
  induction h with
  | nil => exact .nil
  | keep e _ ih =>
      rw [List.takeWhile_cons, List.takeWhile_cons]
      split
      · exact .keep e ih
      · exact .nil
  | drop hidle _ ih =>
      rw [List.takeWhile_cons_of_pos (by rw [Event.ends_of_idle hidle]; rfl)]
      exact .drop hidle ih

theorem hears (h : Thinned es es') (s : Session) :
    es'.foldl Session.hear s = es.foldl Session.hear s := by
  induction h generalizing s with
  | nil => rfl
  | keep e _ ih => exact ih (s.hear e)
  | drop hidle _ ih => rw [List.foldl_cons, s.hear_of_idle hidle, ih]

theorem frame (h : Thinned es es') (s : Session) (random : Nat → Byte) (n : Nat) :
    s.frame random n es' = s.frame random n es := by
  rw [Session.frame, Session.frame, h.takeWhile.hears, h.any_ends]

end Thinned

/-- A session cannot tell a thinned script from the whole one. -/
theorem Session.play_thinned (s : Session) (random : Nat → Byte) (n : Nat)
    {script script' : List (List Event)} (hthinned : List.Forall₂ Thinned script script') :
    s.play random n script' = s.play random n script := by
  induction hthinned generalizing s with
  | nil => rfl
  | cons hevents _ ih =>
      rw [play, play, hevents.frame, hevents.any_ends]
      simp only [ih]

/-- **Events without effect are invisible.**  Leave some of them out of a script, in
whichever frames.  Whatever session plays the script then ends up the same, with the
same machine, and reports as many frames, each with the same texture and lines; and
whatever the settings and the program, the same is shown, or the program is refused for
the same reason.  In particular a press that is repeated leaves every session as it is,
also while the machine waits for a key or is suspended, and does not end it. -/
theorem idle_events_invisible {script script' : List (List Event)}
    (hthinned : List.Forall₂ Thinned script script') (random : Nat → Byte) :
    (∀ (s : Session) (n : Nat), s.play random n script' = s.play random n script) ∧
      (∀ (settings : Settings) (graphics : Graphics) (program : List Byte),
        settings.play graphics program random script' =
          settings.play graphics program random script) ∧
      ∀ (s : Session) (key : Option HostKey),
        s.hear (.keyDown key true) = s ∧ (Event.keyDown key true).ends = false := by
  refine ⟨fun s n => s.play_thinned random n hthinned, ?_, ?_⟩
  · intro settings graphics program
    simp only [Settings.play, Session.play_thinned _ random _ hthinned]
  · intro s key
    have hidle : (Event.keyDown key true).effective = false := by
      cases key <;> rfl
    exact ⟨s.hear_of_idle hidle, Event.ends_of_idle hidle⟩

/-- A machine waits for a key, and a press ends the wait, whether repeated ones come up
around it or not; without it, the repeated ones are of no help. -/
theorem idle_events_invisible_during_wait :
    let canvas : Nat → Canvas := fun _ => .tight
    let program : List Byte := [0xF0, 0x0A]
    let random : Nat → Byte := fun _ => 0
    let down (name : String) (repeated : Bool) : Event := .keyDown (some ⟨name⟩) repeated
    let quits : List Event := [.keyUp (some .space), down "Escape" true, .quit]
    let script := [[down "Q" true], [down "Q" true, down "Q" false, down "Space" true], quits]
    let script' := [[], [down "Q" false], [.quit]]
    List.Forall₂ Thinned script script' ∧
      ∃ session, Session.start canvas program = .ok session ∧
        session.play random 1 script' = session.play random 1 script ∧
        (session.play random 1 script).1.machine.paused = false ∧
        (session.play random 1 [[down "Q" true], [down "Q" true], quits]).1.machine.paused =
          true := by
  intro canvas program random down quits script script'
  have hthinned : List.Forall₂ Thinned script script' :=
    .cons (.drop rfl .nil) <|
      .cons (.drop rfl (.keep _ (.drop rfl .nil))) <|
        .cons (.drop (by decide) (.drop rfl (.keep _ .nil))) .nil
  obtain ⟨session, hstart⟩ : ∃ session, Session.start canvas program = .ok session := ⟨_, rfl⟩
  obtain ⟨hplay, -, -⟩ := idle_events_invisible hthinned random
  refine ⟨hthinned, session, hstart, hplay session 1, ?_, ?_⟩
  · rw [Session.start_eq_ok hstart]
    decide +kernel
  · rw [Session.start_eq_ok hstart]
    decide +kernel

end Chip8.Host
