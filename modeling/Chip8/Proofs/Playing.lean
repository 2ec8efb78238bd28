import Chip8.Proofs.Rounds
import Chip8.Proofs.Upload

/-!
# Playing a script, in closed form

Which commands a machine is given when a script is played can be read off the
script, without playing it: in each frame the keys of the keypad, then the steps
if the space bar was pressed an even number of times so far, then the asking for
the picture; in the last frame only the keys that come up before the event that
ends the session (`Script.commands`).  `play_eq_run` says that this is what
happens, which lines about suspending and resuming are logged, and that what comes
after the event that ends the session makes no difference.

The proof keeps an account of what a session did (`Account`): the commands given,
the presses of the space bar and the steps.  There is one lemma for each part of a
frame that says what it adds to the account, from which it follows what a frame
adds (`Account.round`) and what any number of frames do (`account_rounds`).
-/

namespace Chip8.Host

namespace Record

/-- Whether a line says that the machine was suspended or resumed. -/
def isSwitch : Record → Bool
  | .suspended | .resumed => true
  | _ => false

/-- The line for a press of the space bar before which there were `i` others: they
suspend and resume in turn. -/
def ofPress (i : Nat) : Record := if i % 2 = 0 then .suspended else .resumed

theorem isSwitch_ofPress (i : Nat) : (ofPress i).isSwitch = true := by
  unfold ofPress
  split <;> rfl

/-- Whether a line says that a tone starts or stops. -/
def isTone : Record → Bool
  | .toneOn | .toneOff => true
  | _ => false

end Record

/-- An account of a session that began with the machine `loaded` and gave the
reports `rs`: the machine was given the commands `cs`, the space bar was pressed
`p` times, and `c` steps were taken. -/
structure Account (loaded : Machine) (rs : List Report) (cs : List Command) (p c : Nat)
    (s : Session) : Prop where
  machine : s.machine = loaded.run cs
  suspended : s.suspended = decide (p % 2 = 1)
  cycles : s.cycles = c
  switches : (rs.flatMap Report.log ++ s.log.toList).filter Record.isSwitch =
    (List.range p).map Record.ofPress

namespace Account

variable {loaded : Machine} {rs : List Report} {cs : List Command} {p c : Nat} {s : Session}

/-! ## What each part of a frame adds -/

/-- More lines in the log are counted with those that were there. -/
theorem switches_concat (h : Account loaded rs cs p c s) (added : List Record) :
    (rs.flatMap Report.log ++ (s.log.toList ++ added)).filter Record.isSwitch =
      (List.range p).map Record.ofPress ++ added.filter Record.isSwitch := by
  rw [← List.append_assoc, List.filter_append, h.switches]

theorem command (h : Account loaded rs cs p c s) (d : Command) :
    Account loaded rs (cs ++ [d]) p c (s.command d) := by
  have hnone : ((s.machine.notices d).map Record.machine).filter Record.isSwitch = [] := by
    simp [List.filter_map, Function.comp_def, Record.isSwitch]
  refine ⟨?_, h.suspended, h.cycles, ?_⟩
  · rw [Machine.run_append, ← h.machine]
    rfl
  · have hlog : (s.command d).log.toList =
        s.log.toList ++ (s.machine.notices d).map Record.machine := by
      simp [Session.command]
    rw [hlog, h.switches_concat, hnone, List.append_nil]

theorem note (h : Account loaded rs cs p c s) {r : Record} (hother : r.isSwitch = false) :
    Account loaded rs cs p c (s.note r) := by
  refine ⟨h.machine, h.suspended, h.cycles, ?_⟩
  have hlog : (s.note r).log.toList = s.log.toList ++ [r] := by simp [Session.note]
  rw [hlog, h.switches_concat]
  simp [hother]

/-- The presses suspend and resume in turn, and each is logged. -/
theorem toggle (h : Account loaded rs cs p c s) :
    Account loaded rs cs (p + 1) c s.toggle := by
  have hline : (if s.suspended then Record.resumed else .suspended) = .ofPress p := by
    rcases Nat.mod_two_eq_zero_or_one p with hp | hp <;>
      simp [Record.ofPress, h.suspended, hp]
  refine ⟨h.machine, ?_, h.cycles, ?_⟩
  · -- One press more makes an odd number even, and an even one odd.
    show (!s.suspended) = _
    rw [h.suspended, ← decide_not]
    exact decide_eq_decide.2 (by omega)
  · have hlog : s.toggle.log.toList = s.log.toList ++ [.ofPress p] := by
      simp [Session.toggle, Session.note, hline]
    rw [hlog, h.switches_concat, List.range_succ, List.map_append]
    simp [Record.isSwitch_ofPress]

theorem hear (h : Account loaded rs cs p c s) (e : Event) :
    Account loaded rs (cs ++ e.command?.toList) (p + [e].countP Event.toggles) c
      (s.hear e) := by
  rw [Session.hear_eq, List.countP_singleton]
  cases hcommand : e.command? with
  | some d =>
      rw [Event.toggles_eq_false_of_command? hcommand]
      exact h.command d
  | none =>
      rw [Option.toList_none, List.append_nil]
      cases e.toggles with
      | true => exact h.toggle
      | false => exact h

theorem hears (h : Account loaded rs cs p c s) (events : List Event) :
    Account loaded rs (cs ++ events.filterMap Event.command?)
      (p + events.countP Event.toggles) c (events.foldl Session.hear s) := by
  induction events generalizing s cs p with
  | nil =>
      rw [List.filterMap_nil, List.append_nil]
      exact h
  | cons e rest ih =>
      have hrest := ih (h.hear e)
      rw [Nat.add_assoc, ← List.countP_append, List.append_assoc] at hrest
      have hcommands : (e :: rest).filterMap Event.command? =
          e.command?.toList ++ rest.filterMap Event.command? := by
        cases hcommand : e.command? <;> simp [hcommand]
      rw [hcommands]
      exact hrest

/-- Each step draws the next random byte of the supply. -/
theorem steps (h : Account loaded rs cs p c s) (random : Nat → Byte) (n : Nat) :
    Account loaded rs (cs ++ (List.range' c n).map fun i => .step (random i)) p (c + n)
      (s.steps random n) := by
  induction n generalizing s cs c with
  | zero =>
      rw [List.range'_zero, List.map_nil, List.append_nil]
      exact h
  | succ n ih =>
      -- The steps taken so far are the place of the next byte in the supply.
      have hfirst := h.command (.step (random s.cycles))
      have hstep : Account loaded rs (cs ++ [.step (random c)]) p (c + 1)
          { s.command (.step (random s.cycles)) with cycles := s.cycles + 1 } := by
        obtain rfl := h.cycles
        exact ⟨hfirst.machine, hfirst.suspended, rfl, hfirst.switches⟩
      have hrest := ih hstep
      rw [List.append_assoc, Nat.add_assoc, Nat.add_comm 1] at hrest
      exact hrest

theorem advance (h : Account loaded rs cs p c s) (random : Nat → Byte) (n : Nat) :
    Account loaded rs
      (cs ++ if p % 2 = 0 then (List.range' c n).map fun i => .step (random i) else []) p
      (if p % 2 = 0 then c + n else c) (s.advance random n) := by
  unfold Session.advance
  rcases Nat.mod_two_eq_zero_or_one p with heven | hodd
  · rw [if_pos heven, if_pos heven, if_neg (by simp [h.suspended, heven])]
    exact h.steps random n
  · rw [if_neg (by omega), if_neg (by omega), if_pos (by simp [h.suspended, hodd]),
      List.append_nil]
    exact h

theorem soundTone (h : Account loaded rs cs p c s) :
    Account loaded rs cs p c s.soundTone := by
  unfold Session.soundTone
  split
  · exact h
  · -- Whether a tone sounds is no part of the account, and neither is the line about it.
    have hbeeping : Account loaded rs cs p c { s with beeping := !s.beeping } :=
      ⟨h.machine, h.suspended, h.cycles, h.switches⟩
    exact hbeeping.note (by cases s.beeping <;> rfl)

theorem report (h : Account loaded rs cs p c s) (texture : Option Texture) :
    Account loaded (rs ++ [(s.report texture).2]) cs p c (s.report texture).1 := by
  refine ⟨h.machine, h.suspended, h.cycles, ?_⟩
  rw [← h.switches, List.flatMap_append]
  simp [Session.report]

end Account

/-! ## The account of a script -/

namespace Script

variable (random : Nat → Byte) (n : Nat) (script : List (List Event)) (k : Nat)

/-- How often the space bar is pressed in the frames before the `k`-th. -/
def presses : Nat := (heardBefore script k).flatten.countP Event.toggles

/-- Whether the machine is stepped in a frame: whether the space bar was pressed an
even number of times, the frame's own events included. -/
def running : Bool := presses script (k + 1) % 2 = 0

/-- In how many frames before the `k`-th the machine is stepped. -/
def runningBefore : Nat := (List.range k).countP (running script)

/-- What the machine is told by the events of a frame. -/
def keypadCommands : List Command := (heard script k).filterMap Event.command?

/-- The steps of a frame, if the machine is stepped in it. -/
def stepCommands : List Command :=
  if running script k then
    (List.range' (n * runningBefore script k) n).map fun i => .step (random i)
  else []

/-- All that a machine is given in a frame that is played to its end. -/
def frameCommands : List Command :=
  keypadCommands script k ++ stepCommands random n script k ++ [.takeFrame]

/-- All that a machine is given in the frames before the `k`-th. -/
def commandsBefore : List Command :=
  (List.range k).flatMap (frameCommands random n script)

/-- All that a machine is given when a script is played. -/
def commands : List Command :=
  commandsBefore random n script (lastFrame script) ++
    keypadCommands script (lastFrame script)

theorem presses_succ :
    presses script (k + 1) =
      presses script k + (heard script k).countP Event.toggles := by
  rw [presses, heardBefore_succ, List.flatten_append, List.countP_append,
    List.flatten_singleton]
  rfl

theorem runningBefore_succ :
    runningBefore script (k + 1) =
      runningBefore script k + if running script k then 1 else 0 := by
  rw [runningBefore, List.range_succ, List.countP_append, List.countP_singleton]
  rfl

theorem commandsBefore_succ :
    commandsBefore random n script (k + 1) =
      commandsBefore random n script k ++ frameCommands random n script k := by
  rw [commandsBefore, List.range_succ, List.flatMap_append, List.flatMap_singleton]
  rfl

end Script

open Script

section

variable {loaded : Machine} {rs : List Report} {s : Session}
variable (random : Nat → Byte) (n : Nat) (script : List (List Event)) (k : Nat)

/-- What one frame more adds to the account. -/
theorem Account.round
    (h : Account loaded rs (commandsBefore random n script k) (presses script k)
      (n * runningBefore script k) s) :
    Account loaded (rs ++ [(s.round random n (heard script k)).2])
      (commandsBefore random n script (k + 1)) (presses script (k + 1))
      (n * runningBefore script (k + 1)) (s.round random n (heard script k)).1 := by
  have hheard := h.hears (heard script k)
  rw [← presses_succ] at hheard
  have hshown := ((hheard.advance random n).command .takeFrame).soundTone
  have hcycles : n * runningBefore script (k + 1) =
      if presses script (k + 1) % 2 = 0 then n * runningBefore script k + n
      else n * runningBefore script k := by
    rw [runningBefore_succ, Nat.mul_add]
    by_cases heven : presses script (k + 1) % 2 = 0 <;> simp [running, heven]
  have hcommands : commandsBefore random n script (k + 1) =
      commandsBefore random n script k ++ keypadCommands script k ++
        (if presses script (k + 1) % 2 = 0 then
          (List.range' (n * runningBefore script k) n).map fun i => .step (random i)
        else []) ++ [.takeFrame] := by
    rw [commandsBefore_succ, frameCommands, stepCommands, running]
    simp
  rw [hcycles, hcommands]
  exact hshown.report _

theorem account_rounds (hstart : Account loaded [] [] 0 0 s) :
    Account loaded (s.rounds random n (heardBefore script k)).2
      (commandsBefore random n script k) (presses script k) (n * runningBefore script k)
      (s.rounds random n (heardBefore script k)).1 := by
  induction k with
  | zero => exact hstart
  | succ k ih =>
      rw [heardBefore_succ, Session.rounds_concat]
      exact ih.round random n script k

theorem account_play (hstart : Account loaded [] [] 0 0 s) :
    Account loaded (s.play random n script).2 (commands random n script)
      (presses script (lastFrame script + 1))
      (n * runningBefore script (lastFrame script)) (s.play random n script).1 := by
  rw [Session.play_eq, presses_succ]
  exact ((account_rounds random n script (lastFrame script) hstart).hears
    (heard script (lastFrame script))).report none

end

/-! ## Sessions from the start -/

/-- A program that fits is loaded into a machine that was just switched on, and
nothing was done with it yet. -/
theorem account_start (canvas : Nat → Canvas) {program : List Byte}
    (hprogram : program.length ≤ Machine.maxProgramSize) :
    ∃ session, Session.start canvas program = .ok session ∧
      Machine.fresh.load program = .ok session.machine ∧
      session.log.toList.filter Record.isTone = [] ∧
      Account session.machine [] [] 0 0 session := by
  have hload : ∃ loaded, Machine.fresh.load program = .ok loaded := by
    rw [Machine.load, if_pos hprogram]
    exact ⟨_, rfl⟩
  obtain ⟨loaded, hloaded⟩ := hload
  rw [Session.start, hloaded]
  refine ⟨_, rfl, rfl, ?_, rfl, rfl, rfl, ?_⟩
  · simp [List.filter_map, Function.comp_def, Record.isTone]
  · simp [List.filter_map, Function.comp_def, Record.isSwitch]

theorem log_play (s : Session) (random : Nat → Byte) (n : Nat) (script : List (List Event)) :
    (s.play random n script).1.log = #[] := by
  rw [Session.play_eq]
  rfl

theorem length_rounds (s : Session) (random : Nat → Byte) (n : Nat)
    (frames : List (List Event)) : (s.rounds random n frames).2.length = frames.length := by
  induction frames generalizing s with
  | nil => rfl
  | cons events rest ih =>
      rw [List.length_cons, ← ih]
      rfl

/-- No event starts or stops a tone. -/
theorem tones_hears {s : Session} (hsilent : s.log.toList.filter Record.isTone = [])
    (events : List Event) :
    (events.foldl Session.hear s).log.toList.filter Record.isTone = [] := by
  induction events generalizing s with
  | nil => exact hsilent
  | cons e rest ih =>
      apply ih
      rw [Session.hear_eq]
      split
      · simp [Session.command, hsilent, List.filter_map, Function.comp_def, Record.isTone]
      · split
        · cases hsuspended : s.suspended <;>
            simp [Session.toggle, Session.note, hsuspended, hsilent, Record.isTone]
        · exact hsilent

theorem tones_rounds {s : Session} (hsilent : s.log.toList.filter Record.isTone = [])
    (random : Nat → Byte) (n : Nat) (frames : List (List Event)) :
    (s.rounds random n frames).1.log.toList.filter Record.isTone = [] := by
  induction frames generalizing s with
  | nil => exact hsilent
  | cons events rest ih =>
      -- A round has put all its lines into its report.
      exact ih (s := (s.round random n events).1) rfl

/-- Each frame up to the last has its report.  The last shows no picture and starts
and stops no tone. -/
theorem reports_play {s : Session} (hsilent : s.log.toList.filter Record.isTone = [])
    (random : Nat → Byte) (n : Nat) (script : List (List Event)) :
    ∃ rs r, (s.play random n script).2 = rs ++ [r] ∧ rs.length = lastFrame script ∧
      r.texture = none ∧ r.log.filter Record.isTone = [] := by
  rw [Session.play_eq]
  refine ⟨_, _, rfl, ?_, rfl, tones_hears (tones_rounds hsilent random n _) _⟩
  rw [length_rounds, heardBefore, List.length_map, List.length_range]

/-- Only what is heard up to the last frame matters. -/
theorem play_congr (s : Session) (random : Nat → Byte) (n : Nat)
    {script script' : List (List Event)} (hlast : lastFrame script' = lastFrame script)
    (hheard : ∀ k ≤ lastFrame script, heard script' k = heard script k) :
    s.play random n script' = s.play random n script := by
  have hbefore : heardBefore script' (lastFrame script) =
      heardBefore script (lastFrame script) := by
    apply List.map_congr_left
    intro k hk
    exact hheard k (Nat.le_of_lt (List.mem_range.1 hk))
  rw [Session.play_eq, Session.play_eq, hlast, hbefore, hheard _ (Nat.le_refl _)]

/-- **A script in closed form.**  A program that fits is loaded into a machine that
was just switched on, and a script is played.  Then the frames up to the last are
begun, and no other, and the last shows no picture and starts and stops no tone; the
machine at the end is the one that was given the commands of the script; each press
of the space bar is logged, and they suspend and resume in turn; and any other
script in which the same is heard up to the same last frame is played with the same
result. -/
theorem play_eq_run (canvas : Nat → Canvas) {program : List Byte}
    (hprogram : program.length ≤ Machine.maxProgramSize) (random : Nat → Byte) (n : Nat)
    (script : List (List Event)) :
    ∃ session, Session.start canvas program = .ok session ∧
      Machine.fresh.load program = .ok session.machine ∧
      (∃ rs r, (session.play random n script).2 = rs ++ [r] ∧
        rs.length = lastFrame script ∧ r.texture = none ∧
        r.log.filter Record.isTone = []) ∧
      (session.play random n script).1.machine =
        session.machine.run (commands random n script) ∧
      ((session.play random n script).2.flatMap Report.log).filter Record.isSwitch =
        (List.range (presses script (lastFrame script + 1))).map Record.ofPress ∧
      ∀ script', lastFrame script' = lastFrame script →
        (∀ k ≤ lastFrame script, heard script' k = heard script k) →
        session.play random n script' = session.play random n script := by
  obtain ⟨session, hstart, hload, hsilent, haccount⟩ := account_start canvas hprogram
  have hplayed := account_play random n script haccount
  refine ⟨session, hstart, hload, reports_play hsilent random n script, hplayed.machine,
    ?_, fun script' => play_congr session random n⟩
  have hswitches := hplayed.switches
  rw [log_play, List.append_nil] at hswitches
  exact hswitches

/-- A key that goes down and up while the machine is suspended, held presses, and an
escape in the middle of a frame. -/
theorem play_eq_run_of_three_frames :
    let canvas : Nat → Canvas := fun _ => .tight
    let program : List Byte := [0xF0, 0x0A]
    let random : Nat → Byte := fun i => .ofNat 8 (i + 7)
    let down (name : String) : Event := .keyDown (some ⟨name⟩) false
    let script : List (List Event) :=
      [[down "X", down "Space", .keyDown (some .space) true],
        [.keyUp (some ⟨"X"⟩), .keyDown (some .escape) true, down "Space"],
        [down "Q", down "Escape", down "W", down "Space"], [down "E"]]
    program.length ≤ Machine.maxProgramSize ∧
      ∃ session, Session.start canvas program = .ok session ∧
        Machine.fresh.load program = .ok session.machine ∧
        (session.play random 2 script).2.length = 3 ∧
        (session.play random 2 script).1.machine =
          session.machine.run
            [.keyDown 0, .takeFrame, .keyUp 0, .step 7, .step 8, .takeFrame, .keyDown 4] ∧
        ((session.play random 2 script).2.flatMap Report.log).filter Record.isSwitch =
          [.suspended, .resumed] ∧
        session.play random 2 (script.take 2 ++ [[down "Q", .quit]]) =
          session.play random 2 script := by
  intro canvas program random down script
  have hprogram : program.length ≤ Machine.maxProgramSize := by decide
  obtain ⟨session, hstart, hload, ⟨rs, r, hreports, hlength, -⟩, hmachine, hswitches,
    hrest⟩ := play_eq_run canvas hprogram random 2 script
  have hlast : lastFrame script = 2 := by decide +kernel
  have hcommands : commands random 2 script =
      [.keyDown 0, .takeFrame, .keyUp 0, .step 7, .step 8, .takeFrame, .keyDown 4] := by
    decide +kernel
  have hpresses : (List.range (presses script 3)).map Record.ofPress =
      [.suspended, .resumed] := by
    decide +kernel
  rw [hcommands] at hmachine
  rw [hlast] at hlength hswitches
  refine ⟨hprogram, session, hstart, hload, ?_, hmachine, hswitches.trans hpresses,
    hrest _ ?_ ?_⟩
  · rw [hreports, List.length_append, hlength]
    rfl
  · decide +kernel
  · rw [hlast]
    decide +kernel

end Chip8.Host
