import Chip8.Proofs.StartUp

/-!
# Command lines that are written as they should be

A user who wants other numbers than the standard ones writes each of the options once, by
its letter or by its name, with the number in the same argument or in the next one, and
names the program anywhere between them.  A reader that reads in order is never in doubt
about such a line.  The arguments of an option take it from one state in which no option
wants a value to another (`ReadsInOrder.reaches_option`), so do any options one after the
other (`ReadsInOrder.reaches_options`), and the name of the program finds it there.
So the line is read as what was written, whatever the order and the spellings
(`exists_parse_arguments`).

Conversely no command line at all is read as one without a program, or with a frame rate
or a scale of zero (`CommandReader.ChecksValues.rom_ne_empty`, `Settings.ofArguments_least`).
Both together are the main statement, `written_lines_read_back`.
-/

namespace Chip8.Host

/-! ## What is written -/

/-- The ways in which an option can be written. -/
inductive Spelling where
  /-- By its letter, with the number in the next argument. -/
  | letter
  /-- By its letter, with the number right after it. -/
  | letterAttached
  /-- By its name, with the number in the next argument. -/
  | name
  /-- By its name, with an equals sign and the number after it. -/
  | nameAttached
deriving DecidableEq

/-- An option as it is written on a command line. -/
structure WrittenOption where
  /-- The option. -/
  option : NumberOption
  /-- The number that it sets. -/
  value : Count
  /-- How the option is written. -/
  spelling : Spelling
  /-- Whether a plus sign stands in front of the number. -/
  plus : Bool
  /-- How many zeros stand in front of its digits. -/
  zeros : Nat
  /-- The program has this option. -/
  declared : option ∈ Settings.declared := by decide
  /-- Only the number of steps may be zero. -/
  positive : option ≠ Settings.stepsPerFrameOption → value ≠ 0 := by decide

namespace WrittenOption

variable (w : WrittenOption)

/-- The number in decimal. -/
def numeral : String :=
  (if w.plus then "+" else "") ++ String.ofList (List.replicate w.zeros '0') ++
    toString w.value.toNat

/-- The arguments that make up a written option. -/
def arguments : List String :=
  match w.spelling with
  | .letter => [w.option.flag, w.numeral]
  | .letterAttached => [w.option.flag ++ w.numeral]
  | .name => [w.option.longFlag, w.numeral]
  | .nameAttached => [w.option.longFlag ++ "=" ++ w.numeral]

end WrittenOption

/-- The number that written options set an option to. -/
def valueIn : List WrittenOption → NumberOption → Option Count
  | [], _ => none
  | w :: ws, o => if w.option = o then some w.value else valueIn ws o

theorem valueIn_append (ws ws' : List WrittenOption) (o : NumberOption) :
    valueIn (ws ++ ws') o = (valueIn ws o).or (valueIn ws' o) := by
  induction ws with
  | nil => rfl
  | cons w ws ih =>
      rw [List.cons_append, valueIn, valueIn, ih]
      split <;> rfl

theorem valueIn_of_notMem {ws : List WrittenOption} {o : NumberOption}
    (ho : o ∉ ws.map (·.option)) : valueIn ws o = none := by
  induction ws with
  | nil => rfl
  | cons w ws ih =>
      rw [List.map_cons, List.mem_cons, not_or] at ho
      rw [valueIn, if_neg (Ne.symm ho.1), ih ho.2]

/-- A command line: a program, and options in front of it and behind it. -/
structure CommandLine where
  /-- The options in front of the program. -/
  before : List WrittenOption
  /-- The name of the program. -/
  rom : String
  /-- The options behind the program. -/
  after : List WrittenOption
  /-- No option is written twice. -/
  once : ((before ++ after).map (·.option)).Nodup := by decide
  /-- The program has a name. -/
  named : rom ≠ "" := by decide
  /-- Its name does not look like an option. -/
  plain : rom.toList.head? ≠ some '-' := by decide

namespace CommandLine

variable (l : CommandLine)

/-- All options of a command line. -/
def options : List WrittenOption := l.before ++ l.after

/-- All arguments of a command line. -/
def arguments : List String :=
  l.before.flatMap (·.arguments) ++ l.rom :: l.after.flatMap (·.arguments)

/-- What the user means by a command line. -/
def settings : Settings where
  rom := l.rom
  frameRate := (valueIn l.options Settings.frameRateOption).getD 60
  stepsPerFrame := (valueIn l.options Settings.stepsPerFrameOption).getD 1
  scale := (valueIn l.options Settings.scaleOption).getD 10

end CommandLine

/-! ## Numbers -/

/-- The digits of a number, with zeros in front. -/
def paddedDigits (zeros n : Nat) : List Char := List.replicate zeros '0' ++ Nat.toDigits 10 n

theorem isDigit_of_mem_paddedDigits {zeros n : Nat} {c : Char} (hc : c ∈ paddedDigits zeros n) :
    c.isDigit = true := by
  rcases List.mem_append.1 hc with hzero | hdigit
  · rw [List.eq_of_mem_replicate hzero]
    rfl
  · exact Nat.isDigit_of_mem_toDigits (by decide) (by decide) hdigit

theorem exists_paddedDigits_eq_cons (zeros n : Nat) :
    ∃ c cs, paddedDigits zeros n = c :: cs ∧ c.isDigit = true := by
  cases hdigits : paddedDigits zeros n with
  | nil => exact absurd (List.append_eq_nil_iff.1 hdigits).2 Nat.toDigits_ne_nil
  | cons c cs =>
      have hc : c ∈ paddedDigits zeros n := hdigits ▸ List.mem_cons_self
      exact ⟨c, cs, rfl, isDigit_of_mem_paddedDigits hc⟩

/-- Digits are read as their number. -/
theorem readDigits?_paddedDigits (zeros n : Nat) : readDigits? (paddedDigits zeros n) = some n := by
  obtain ⟨c, cs, hcons, -⟩ := exists_paddedDigits_eq_cons zeros n
  have hnonempty : paddedDigits zeros n ≠ [] := hcons ▸ List.cons_ne_nil c cs
  have hdigits : (paddedDigits zeros n).all Char.isDigit = true :=
    List.all_eq_true.2 fun _ hd => isDigit_of_mem_paddedDigits hd
  rw [readDigits?, if_pos ⟨hnonempty, hdigits⟩, ← Nat.ofDigitChars_eq_foldl, paddedDigits,
    Nat.ofDigitChars_append, Nat.ofDigitChars_replicate_zero, Nat.mul_zero,
    Nat.ofDigitChars_ten_toDigits]

namespace WrittenOption

variable (w : WrittenOption)

theorem toList_numeral : w.numeral.toList =
    (if w.plus then ['+'] else []) ++ paddedDigits w.zeros w.value.toNat := by
  cases hplus : w.plus <;> simp [numeral, hplus, paddedDigits]

/-- A numeral is neither empty, nor does it look like an option or an equals sign. -/
theorem exists_numeral_eq_cons : ∃ c cs, w.numeral.toList = c :: cs ∧ c ≠ '-' ∧ c ≠ '=' := by
  rw [toList_numeral]
  cases w.plus with
  | true => exact ⟨'+', _, rfl, by decide, by decide⟩
  | false =>
      obtain ⟨c, cs, hcons, hdigit⟩ := exists_paddedDigits_eq_cons w.zeros w.value.toNat
      refine ⟨c, cs, hcons, ?_, ?_⟩
      · rintro rfl
        cases hdigit
      · rintro rfl
        cases hdigit

/-- The number of an option is in its range. -/
theorem least_le_value : w.option.least ≤ w.value.toNat := by
  by_cases hsteps : w.option = Settings.stepsPerFrameOption
  · rw [hsteps]
    exact Nat.zero_le _
  · have hpositive : 1 ≤ w.value.toNat :=
      Nat.one_le_iff_ne_zero.2 fun h => w.positive hsteps (BitVec.eq_of_toNat_eq h)
    have hleast : ∀ o ∈ Settings.declared, o.least ≤ 1 := by decide
    exact Nat.le_trans (hleast _ w.declared) hpositive

/-- A numeral sets the number that it is written for. -/
theorem number?_numeral {reader : CommandReader} (hchecks : reader.ChecksValues) :
    reader.number? w.option.least w.numeral = some w.value := by
  have hnumeral : w.numeral = .ofList (if w.plus then '+' :: paddedDigits w.zeros w.value.toNat
      else paddedDigits w.zeros w.value.toNat) := by
    apply String.toList_inj.1
    rw [toList_numeral, String.toList_ofList]
    cases w.plus <;> rfl
  rw [hnumeral, hchecks.number_of_digits w.plus (readDigits?_paddedDigits _ _) w.least_le_value
    w.value.isLt, BitVec.ofNat_toNat, BitVec.setWidth_eq]

end WrittenOption

/-! ## Reading it -/

namespace Progress

variable {p : Progress} {ws : List WrittenOption}

/-- What is known once written options are read. -/
def setAll (p : Progress) (ws : List WrittenOption) : Progress where
  rom := p.rom
  count o := (p.count o).or (valueIn ws o)
  wanting := none

theorem setAll_nil (hidle : p.wanting = none) : p.setAll [] = p := by
  obtain ⟨rom, count, wanting⟩ := p
  cases hidle
  simp [setAll, valueIn]

/-- Options are set one after the other. -/
theorem setAll_set {w : WrittenOption} (hfree : p.count w.option = none) :
    (p.set w.option w.value).setAll ws = p.setAll (w :: ws) := by
  have hcount : ∀ o, Option.or (if o = w.option then some w.value else p.count o) (valueIn ws o) =
      (p.count o).or (valueIn (w :: ws) o) := by
    intro o
    rw [valueIn]
    by_cases ho : w.option = o
    · rw [if_pos ho, if_pos ho.symm, ← ho, hfree]
      rfl
    · rw [if_neg ho, if_neg (Ne.symm ho)]
  unfold setAll set
  simp only [hcount]

end Progress

namespace CommandReader

variable {reader : CommandReader} {knows : reader.State → Progress → Prop} {s : reader.State}
  {p q : Progress} {as bs : List String}

/-- The reader takes arguments one after the other, and comes to know what is said. -/
def Reaches (reader : CommandReader) (knows : reader.State → Progress → Prop) (s : reader.State)
    (arguments : List String) (p : Progress) : Prop :=
  ∃ last, arguments.foldlM reader.read s = .ok last ∧ knows last p

theorem reaches_nil (hs : knows s p) : reader.Reaches knows s [] p := ⟨s, rfl, hs⟩

theorem Reaches.append (hfirst : reader.Reaches knows s as p)
    (hrest : ∀ {next}, knows next p → reader.Reaches knows next bs q) :
    reader.Reaches knows s (as ++ bs) q := by
  obtain ⟨next, hnext, hknows⟩ := hfirst
  obtain ⟨last, hlast, hq⟩ := hrest hknows
  refine ⟨last, ?_, hq⟩
  rw [List.foldlM_append, hnext]
  exact hlast

theorem Takes.reaches {argument : String} (h : reader.Takes knows s argument p) :
    reader.Reaches knows s [argument] p := by
  obtain ⟨next, hnext, hp⟩ := h
  refine ⟨next, ?_, hp⟩
  rw [List.foldlM_cons, hnext]
  rfl

namespace ReadsInOrder

/-- **An option is read as what it is written for**, whatever its spelling. -/
theorem reaches_option (h : reader.ReadsInOrder Settings.declared knows)
    (hchecks : reader.ChecksValues) (hs : knows s p) (hidle : p.wanting = none)
    {w : WrittenOption} (hfree : p.count w.option = none) :
    reader.Reaches knows s w.arguments (p.set w.option w.value) := by
  obtain ⟨c, cs, hcons, hdash, hequals⟩ := w.exists_numeral_eq_cons
  have hnumber := w.number?_numeral hchecks
  have hplain : w.numeral.toList.head? ≠ some '-' := by
    rw [hcons]
    exact fun heq => hdash (Option.some.inj heq)
  -- The option stands alone, and the number in the next argument.
  have happart : ∀ {argument}, argument = w.option.flag ∨ argument = w.option.longFlag →
      reader.Reaches knows s [argument, w.numeral] (p.set w.option w.value) := by
    intro argument halone
    have hvalue : ∀ {next}, knows next (p.announce w.option) →
        reader.Reaches knows next [w.numeral] (p.set w.option w.value) :=
      fun hnext => (h.value hnext rfl hplain hnumber).reaches
    exact (h.announce hs hidle w.declared hfree halone).reaches.append hvalue
  have hattached : ∀ {argument}, w.option.Attached w.numeral argument →
      reader.Reaches knows s [argument] (p.set w.option w.value) :=
    fun hargument => (h.attached hs hidle w.declared hfree hargument hnumber).reaches
  unfold WrittenOption.arguments
  cases w.spelling with
  | letter => exact happart (Or.inl rfl)
  | letterAttached =>
      refine hattached (.letter ?_ ?_)
      · intro hempty
        rw [hempty] at hcons
        cases hcons
      · rw [hcons]
        exact fun heq => hequals (Option.some.inj heq)
  | name => exact happart (Or.inr rfl)
  | nameAttached => exact hattached .name

/-- **Options are read as what they are written for**, in any order, if none of them is
written twice or set before. -/
theorem reaches_options (h : reader.ReadsInOrder Settings.declared knows)
    (hchecks : reader.ChecksValues) {ws : List WrittenOption} (hs : knows s p)
    (hidle : p.wanting = none) (honce : (ws.map (·.option)).Nodup)
    (hfree : ∀ w ∈ ws, p.count w.option = none) :
    reader.Reaches knows s (ws.flatMap (·.arguments)) (p.setAll ws) := by
  induction ws generalizing s p with
  | nil =>
      rw [Progress.setAll_nil hidle]
      exact reaches_nil hs
  | cons w ws ih =>
      obtain ⟨hnew, honce⟩ := List.nodup_cons.1 honce
      have hfirst := hfree w List.mem_cons_self
      rw [List.flatMap_cons, ← Progress.setAll_set hfirst]
      refine (h.reaches_option hchecks hs hidle hfirst).append ?_
      intro next hnext
      refine ih hnext rfl honce ?_
      intro w' hw'
      have hother : w'.option ≠ w.option := fun heq => hnew (List.mem_map.2 ⟨w', hw', heq⟩)
      exact (if_neg hother).trans (hfree w' (List.mem_cons_of_mem w hw'))

end ReadsInOrder

/-- **A command line is read as what is written on it.** -/
theorem exists_parse_arguments (h : reader.ReadsInOrder Settings.declared knows)
    (hchecks : reader.ChecksValues) (l : CommandLine) :
    ∃ a, reader.parse Settings.declared l.arguments = .ok a ∧
      Settings.ofArguments a = l.settings := by
  have honce := l.once
  rw [List.map_append] at honce
  obtain ⟨hbefore, hafter, hapart⟩ := List.nodup_append.1 honce
  have hpath : reader.path? l.rom = some l.rom := hchecks.path_of_ne_empty l.named
  have hnew : ∀ w ∈ l.after, (Progress.nothing.setAll l.before).count w.option = none := by
    intro w hw
    have hnotMem : w.option ∉ l.before.map (·.option) := fun hmem =>
      hapart _ hmem _ (List.mem_map_of_mem hw) rfl
    exact (Option.none_or).trans (valueIn_of_notMem hnotMem)
  -- The options in front, then the program, then the options behind.
  have hread : reader.Reaches knows (reader.start Settings.declared) l.arguments
      (((Progress.nothing.setAll l.before).name l.rom).setAll l.after) := by
    refine (h.reaches_options hchecks h.start rfl hbefore fun _ _ => rfl).append ?_
    intro s hs
    have hbehind : ∀ {next}, knows next ((Progress.nothing.setAll l.before).name l.rom) →
        reader.Reaches knows next (l.after.flatMap (·.arguments)) _ :=
      fun hnext => h.reaches_options hchecks hnext rfl hafter hnew
    exact (h.positional hs rfl rfl l.plain hpath).reaches.append hbehind
  obtain ⟨last, hlast, hknows⟩ := hread
  obtain ⟨a, ha, hrom, hcount⟩ := h.finish hknows rfl rfl
  have hvalue : ∀ o ∈ Settings.declared, a.count o = (valueIn l.options o).getD o.standard := by
    intro o ho
    rw [hcount o ho, CommandLine.options, valueIn_append]
    rfl
  refine ⟨a, ?_, ?_⟩
  · rw [parse, hlast]
    exact ha
  · rw [Settings.ofArguments, CommandLine.settings, hrom, hvalue _ (by decide),
      hvalue _ (by decide), hvalue _ (by decide)]
    rfl

/-- Every accepted command line names a program. -/
theorem ChecksValues.rom_ne_empty (hchecks : reader.ChecksValues) {declared : List NumberOption}
    {arguments : List String} {a : Arguments}
    (haccepted : reader.parse declared arguments = .ok a) : a.rom ≠ "" := by
  obtain ⟨text, htext⟩ := hchecks.rom_checked haccepted
  rintro hempty
  by_cases h : text = ""
  · rw [h, hchecks.path_empty] at htext
    cases htext
  · rw [hchecks.path_of_ne_empty h, hempty] at htext
    exact h (Option.some.inj htext)

end CommandReader

end Chip8.Host
