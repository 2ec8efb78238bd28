import Chip8.Host.Program
import Chip8.Proofs.Layout
import Chip8.Proofs.Loading
import Chip8.Proofs.PlainReader
import Chip8.Proofs.Upload

/-!
# Numbers at start-up

Whatever the arguments on a command line, the numbers that come of it were checked against
the least ones that the program declares, or are its standards.  So a frame rate and a scale
of zero are out of the question, and the length of a frame is a quotient by a number that
is not zero (`Settings.ofArguments_least`).

The measures of the window are products of 32-bit words, and no scale is refused for being
too large.  A product that fits in a word is exact, and one that does not ends the program
on the spot (`Window.measure_eq_ok_iff`).  So for scales below 67108864 exactly the window
that is due is asked for, and for no scale another one, but from there on there is none at
all (`window_exact_iff`), although the command line is accepted
(`window_overflows_at_large_scale`).
-/

namespace Chip8.Host

/-! ## Numbers of a command line -/

section

variable {reader : CommandReader} {arguments : List String} {a : Arguments}

/-- No number of an accepted command line is below the least one of its option. -/
theorem CommandReader.ChecksValues.least_le_count (h : reader.ChecksValues)
    {declared : List NumberOption} (haccepted : reader.parse declared arguments = .ok a)
    {o : NumberOption} (ho : o ∈ declared) (hstandard : o.least ≤ o.standard.toNat) :
    o.least ≤ (a.count o).toNat := by
  obtain hcount | ⟨text, htext⟩ := h.count_checked haccepted o ho
  · rw [hcount]
    exact hstandard
  · exact h.least_le htext

/-- **Neither the frame rate nor the scale of an accepted command line is zero.** -/
theorem Settings.ofArguments_least (h : reader.ChecksValues)
    (haccepted : reader.parse declared arguments = .ok a) :
    1 ≤ (ofArguments a).frameRate.toNat ∧ 1 ≤ (ofArguments a).scale.toNat :=
  ⟨h.least_le_count haccepted (o := frameRateOption) (by decide) (by decide),
    h.least_le_count haccepted (o := scaleOption) (by decide) (by decide)⟩

end

/-! ## Windows -/

namespace Window

variable {pixels : Nat} {scale k : Count} {w : Window}

theorem measure_of_lt (hfits : pixels * scale.toNat < 2 ^ (32 : Nat)) :
    measure pixels scale = .ok (.ofNat 32 (pixels * scale.toNat)) := by
  rw [measure, Guarded.mul_ok hfits]
  rfl

theorem measure_of_le (hlarge : 2 ^ (32 : Nat) ≤ pixels * scale.toNat) :
    measure pixels scale = .error (.overflow 32) := by
  rw [measure, Guarded.mul, if_neg (Nat.not_lt.2 hlarge)]
  rfl

/-- **A measure is exact**, if there is one. -/
theorem measure_eq_ok_iff : measure pixels scale = .ok k ↔ k.toNat = pixels * scale.toNat := by
  obtain hfits | hlarge := Nat.lt_or_ge (pixels * scale.toNat) (2 ^ (32 : Nat))
  · have hproduct : (BitVec.ofNat 32 (pixels * scale.toNat)).toNat = pixels * scale.toNat := by
      rw [BitVec.toNat_ofNat, Nat.mod_eq_of_lt hfits]
    rw [measure_of_lt hfits, Except.ok.injEq, ← BitVec.toNat_inj, hproduct, eq_comm]
  · rw [measure_of_le hlarge]
    refine iff_of_false (by simp) ?_
    have hword := k.isLt
    omega

/-- The window for a scale has the title of the program and exactly its measures. -/
theorem ofScale_eq_ok_iff :
    ofScale scale = .ok w ↔ w.title = "vm8" ∧
      w.width.toNat = Frame.width * scale.toNat ∧ w.height.toNat = Frame.height * scale.toNat := by
  rw [← measure_eq_ok_iff, ← measure_eq_ok_iff]
  unfold ofScale
  constructor
  · intro h
    cases hwidth : measure Frame.width scale with
    | error fault =>
        rw [hwidth] at h
        cases h
    | ok width =>
        cases hheight : measure Frame.height scale with
        | error fault =>
            rw [hwidth, hheight] at h
            cases h
        | ok height =>
            rw [hwidth, hheight] at h
            cases h
            exact ⟨rfl, rfl, rfl⟩
  · obtain ⟨title, width, height⟩ := w
    rintro ⟨rfl, hwidth, hheight⟩
    rw [hwidth, hheight]
    rfl

/-- There is a window exactly if the larger measure fits in a word. -/
theorem exists_ofScale_iff :
    (∃ w, ofScale scale = .ok w) ↔ Frame.width * scale.toNat < 2 ^ (32 : Nat) := by
  simp only [ofScale_eq_ok_iff]
  constructor
  · rintro ⟨w, -, hwidth, -⟩
    rw [← hwidth]
    exact w.width.isLt
  · intro hfits
    have hheight : Frame.height * scale.toNat < 2 ^ (32 : Nat) := by
      unfold Frame.width at hfits
      unfold Frame.height
      omega
    refine ⟨⟨"vm8", .ofNat 32 (Frame.width * scale.toNat),
      .ofNat 32 (Frame.height * scale.toNat)⟩, rfl, ?_, ?_⟩
    · rw [BitVec.toNat_ofNat, Nat.mod_eq_of_lt hfits]
    · rw [BitVec.toNat_ofNat, Nat.mod_eq_of_lt hheight]

theorem ofScale_of_le (hlarge : 2 ^ (32 : Nat) ≤ Frame.width * scale.toNat) :
    ofScale scale = .error (.overflow 32) := by
  rw [ofScale, measure_of_le hlarge]
  rfl

end Window

/-! ## Start-up -/

namespace Settings

variable {s : Settings} {graphics : Graphics} {storage : Storage} {random : Nat → Byte}
  {script : List (List Event)} {program : List Byte} {w : Window} {showing : Showing}

/-- No window is opened but the one for the scale. -/
theorem ofScale_of_openWindow (hopened : s.openWindow graphics = .ok w) :
    Window.ofScale s.scale = .ok w := by
  unfold openWindow at hopened
  split at hopened
  case h_1 => cases hopened
  case h_2 =>
      split at hopened
      case h_1 => cases hopened
      case h_2 window hwindow =>
          split at hopened
          case h_1 => cases hopened
          case h_2 =>
              cases hopened
              exact hwindow

/-- A fault in the measures ends the program before the window is asked for. -/
theorem openWindow_of_fault {fault : Guarded.Fault} (havailable : graphics.unavailable = none)
    (hfault : Window.ofScale s.scale = .error fault) :
    s.openWindow graphics = .error (.crashed fault) := by
  unfold openWindow
  simp only [havailable, hfault]

/-- Whatever is shown is shown in the window for the scale. -/
theorem ofScale_of_playFile
    (hplayed : s.playFile graphics storage random script = .ok showing) :
    Window.ofScale s.scale = .ok showing.window := by
  cases hread : storage.read s.rom with
  | error cause =>
      rw [playFile, hread] at hplayed
      cases hplayed
  | ok program =>
      by_cases hfits : program.length ≤ Machine.maxProgramSize
      · obtain ⟨session, -, -, hplay⟩ := (takesFile hread).fitting hfits graphics
        rw [hplay] at hplayed
        cases hopened : s.openWindow graphics with
        | error e =>
            rw [hopened] at hplayed
            cases hplayed
        | ok window =>
            rw [hopened] at hplayed
            cases hplayed
            exact ofScale_of_openWindow hopened
      · rw [(takesFile hread).large (Nat.lt_of_not_le hfits)] at hplayed
        cases hplayed

/-- A program that could be played is of no use without the measures of a window. -/
theorem playFile_of_fault {fault : Guarded.Fault} (hread : storage.read s.rom = .ok program)
    (hfits : program.length ≤ Machine.maxProgramSize) (havailable : graphics.unavailable = none)
    (hfault : Window.ofScale s.scale = .error fault) :
    s.playFile graphics storage random script = .error (.crashed fault) := by
  obtain ⟨session, -, -, hplay⟩ := (takesFile hread).fitting hfits graphics
  rw [hplay, openWindow_of_fault havailable hfault]
  rfl

end Settings

section

variable {reader : CommandReader} {arguments : List String} {a : Arguments}
  {graphics : Graphics} {storage : Storage} {random : Nat → Byte} {script : List (List Event)}

/-- A session that is played to its end was played with the settings of the command line. -/
theorem exists_of_launch_eq_finished (haccepted : reader.parse Settings.declared arguments = .ok a)
    {showing : Showing}
    (hfinished : launch reader graphics storage random script arguments = .finished showing) :
    ∃ played, (Settings.ofArguments a).playFile graphics storage random script = .ok played ∧
      showing.window = played.window := by
  simp only [launch, haccepted] at hfinished
  split at hfinished
  case h_1 => cases hfinished
  case h_2 played hplayed =>
      cases hfinished
      exact ⟨played, hplayed, rfl⟩

theorem launch_of_playFile_eq_error (haccepted : reader.parse Settings.declared arguments = .ok a)
    {e : StartError}
    (hfailed : (Settings.ofArguments a).playFile graphics storage random script = .error e) :
    launch reader graphics storage random script arguments = .failed e := by
  simp only [launch, haccepted, hfailed]

end

/-- **When start-up arithmetic is exact.**  Whatever the command line, if it is accepted
then the length of a frame is a quotient by a number that is not zero, rounded down.  The
window that is asked for is as wide and as high as the picture times the scale, without
any wrapping, and no session is played in another one.  There is such a window exactly for
scales below 67108864.  For all others the program crashes when everything else is in order:
the width needs more bits than a word has. -/
theorem window_exact_iff {reader : CommandReader} (hchecks : reader.ChecksValues)
    {arguments : List String} {a : Arguments}
    (haccepted : reader.parse Settings.declared arguments = .ok a) :
    let s := Settings.ofArguments a
    (0 < s.frameRate.toNat ∧ s.framePeriod * s.frameRate.toNat ≤ 1000000000 ∧
        1000000000 < (s.framePeriod + 1) * s.frameRate.toNat) ∧
      0 < s.scale.toNat ∧
      (∀ w, Window.ofScale s.scale = .ok w ↔
        w.title = "vm8" ∧ w.width.toNat = 64 * s.scale.toNat ∧
          w.height.toNat = 32 * s.scale.toNat) ∧
      ((∃ w, Window.ofScale s.scale = .ok w) ↔ s.scale.toNat < 67108864) ∧
      ∀ graphics storage random script,
        (∀ showing, launch reader graphics storage random script arguments = .finished showing →
          Window.ofScale s.scale = .ok showing.window) ∧
        ∀ program, 67108864 ≤ s.scale.toNat → storage.read s.rom = .ok program →
          program.length ≤ Machine.maxProgramSize → graphics.unavailable = none →
            launch reader graphics storage random script arguments =
              .failed (.crashed (.overflow 32)) := by
  intro s
  obtain ⟨hrate, hscale⟩ := Settings.ofArguments_least hchecks haccepted
  have hperiod : 1000000000 < (s.framePeriod + 1) * s.frameRate.toNat :=
    Nat.lt_mul_of_div_lt (Nat.lt_succ_self _) hrate
  have hbound : Frame.width * s.scale.toNat < 2 ^ (32 : Nat) ↔ s.scale.toNat < 67108864 := by
    unfold Frame.width
    omega
  refine ⟨⟨hrate, Nat.div_mul_le_self _ _, hperiod⟩, hscale, fun w => Window.ofScale_eq_ok_iff,
    Window.exists_ofScale_iff.trans hbound, ?_⟩
  intro graphics storage random script
  constructor
  · intro showing hfinished
    obtain ⟨played, hplayed, hwindow⟩ := exists_of_launch_eq_finished haccepted hfinished
    rw [hwindow]
    exact Settings.ofScale_of_playFile hplayed
  · intro program hlarge hread hfits havailable
    have hfault : Window.ofScale s.scale = .error (.overflow 32) :=
      Window.ofScale_of_le (Nat.le_of_not_lt fun h => Nat.not_lt.2 hlarge (hbound.1 h))
    exact launch_of_playFile_eq_error haccepted
      (Settings.playFile_of_fault hread hfits havailable hfault)

/-- The largest scale for which there is a window, with the highest frame rate. -/
theorem window_exact_iff_at_largest_scale :
    ∃ a, plainReader.parse Settings.declared
        ["-f4294967295", "--scale=67108863", "game", "-n", "0"] = .ok a ∧
      Settings.ofArguments a = ⟨"game", 4294967295, 0, 67108863⟩ ∧
      0 < (Settings.ofArguments a).frameRate.toNat ∧
      Window.ofScale (Settings.ofArguments a).scale = .ok ⟨"vm8", 4294967232, 2147483616⟩ := by
  obtain ⟨a, haccepted, hsettings⟩ : ∃ a, plainReader.parse Settings.declared
      ["-f4294967295", "--scale=67108863", "game", "-n", "0"] = .ok a ∧
        Settings.ofArguments a = ⟨"game", 4294967295, 0, 67108863⟩ := ⟨_, rfl, rfl⟩
  obtain ⟨⟨hrate, -⟩, -, hwindow, -⟩ := window_exact_iff plainReader_checksValues haccepted
  refine ⟨a, haccepted, hsettings, hrate, (hwindow _).2 ?_⟩
  rw [hsettings]
  decide

/-- A scale that is accepted, but for which the program crashes whenever it has loaded the
file and is about to open a window. -/
theorem window_overflows_at_large_scale :
    let graphics : Graphics := ⟨none, fun _ => none, fun _ => .tight⟩
    let arguments := ["game", "-s", "134217738"]
    ∃ a, plainReader.parse Settings.declared arguments = .ok a ∧
      Settings.ofArguments a = ⟨"game", 60, 1, 134217738⟩ ∧
      Window.ofScale (Settings.ofArguments a).scale = .error (.overflow 32) ∧
      ∀ (storage : Storage) (program : List Byte), storage.read "game" = .ok program →
        program.length ≤ Machine.maxProgramSize →
          launch plainReader graphics storage (fun _ => 0) [[]] arguments =
            .failed (.crashed (.overflow 32)) := by
  intro graphics arguments
  obtain ⟨a, haccepted, hsettings⟩ : ∃ a, plainReader.parse Settings.declared arguments = .ok a ∧
      Settings.ofArguments a = ⟨"game", 60, 1, 134217738⟩ := ⟨_, rfl, rfl⟩
  have hfault : Window.ofScale (Settings.ofArguments a).scale = .error (.overflow 32) := by
    rw [hsettings]
    exact Window.ofScale_of_le (by decide)
  refine ⟨a, haccepted, hsettings, hfault, ?_⟩
  intro storage program hread hfits
  have hnamed : storage.read (Settings.ofArguments a).rom = .ok program := by rwa [hsettings]
  exact launch_of_playFile_eq_error haccepted
    (Settings.playFile_of_fault hnamed hfits rfl hfault)

end Chip8.Host
