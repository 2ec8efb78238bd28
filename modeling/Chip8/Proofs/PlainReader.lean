import Chip8.Proofs.CommandReading

/-!
# A plain reader

What is asked of a reader of command lines can be had: there is a reader that checks
values and reads in order (`plainReader_checksValues`, `plainReader_readsInOrder`).  It knows
nothing but what it is asked to know.  There are no texts to ask for, nothing ends the
options, and whatever is not in order is refused at once.
-/

namespace Chip8.Host

/-- What the plain reader remembers. -/
structure PlainState where
  /-- The declared options. -/
  declared : List NumberOption
  /-- What is known. -/
  known : Progress

/-- Every refusal is like any other. -/
def PlainState.refusal : Stop := ⟨"", 2⟩

/-- The number that a text stands for, if it is in the range. -/
def plainNumber? (least : Nat) (text : String) : Option Count :=
  let digits := match text.toList with
    | '+' :: cs => cs
    | cs => cs
  (readDigits? digits).bind fun n =>
    if least ≤ n ∧ n < 2 ^ (32 : Nat) then some (.ofNat 32 n) else none

/-- The name that a text spells. -/
def plainPath? (text : String) : Option String := if text = "" then none else some text

/-- What stands after a start of a text. -/
def after? (start text : List Char) : Option (List Char) :=
  if start <+: text then some (text.drop start.length) else none

@[simp] theorem NumberOption.toList_flag (o : NumberOption) : o.flag.toList = ['-', o.letter] :=
  String.toList_ofList

@[simp] theorem NumberOption.toList_longFlag (o : NumberOption) :
    o.longFlag.toList = '-' :: '-' :: o.name.toList :=
  String.toList_append

/-- Whether an argument is about an option, and what value it gives to it. -/
def NumberOption.mention? (text : List Char) (o : NumberOption) :
    Option (NumberOption × Option (List Char)) :=
  if text = o.flag.toList ∨ text = o.longFlag.toList then some (o, none)
  else
    ((after? (o.longFlag.toList ++ ['=']) text).or (after? o.flag.toList text)).map
      fun value => (o, some value)

namespace PlainState

/-- Sets an option to the number that a text stands for. -/
def set (s : PlainState) (o : NumberOption) (text : String) : Except Stop PlainState :=
  match plainNumber? o.least text with
  | some k => .ok { s with known := s.known.set o k }
  | none => .error refusal

/-- Looks at an option that is not set yet. -/
def mention (s : PlainState) (o : NumberOption) : Option (List Char) → Except Stop PlainState
  | some value => s.set o (.ofList value)
  | none => .ok { s with known := s.known.announce o }

/-- Names the program. -/
def name (s : PlainState) (text : String) : Except Stop PlainState :=
  match s.known.rom, plainPath? text with
  | none, some rom => if text.toList.head? = some '-' then .error refusal
    else .ok { s with known := s.known.name rom }
  | _, _ => .error refusal

/-- Looks at the next argument. -/
def read (s : PlainState) (text : String) : Except Stop PlainState :=
  match s.known.wanting with
  | some o => s.set o text
  | none =>
    match s.declared.findSome? (·.mention? text.toList) with
    | some (o, value?) =>
      if (s.known.count o).isSome then .error refusal else s.mention o value?
    | none => s.name text

/-- Ends after the last argument. -/
def finish (s : PlainState) : Except Stop Arguments :=
  match s.known.wanting, s.known.rom with
  | none, some rom => .ok ⟨rom, fun o => (s.known.count o).getD o.standard⟩
  | _, _ => .error refusal

end PlainState

/-- The plain reader. -/
def plainReader : CommandReader where
  State := PlainState
  start declared := ⟨declared, .nothing⟩
  read := PlainState.read
  finish := PlainState.finish
  number? := plainNumber?
  path? := plainPath?

/-! ## It checks values -/

theorem least_le_of_plainNumber? {least : Nat} {text : String} {k : Count}
    (hk : plainNumber? least text = some k) : least ≤ k.toNat := by
  obtain ⟨n, -, hn⟩ := Option.bind_eq_some_iff.1 hk
  split at hn
  case isTrue hrange =>
      rw [← Option.some.inj hn, BitVec.toNat_ofNat, Nat.mod_eq_of_lt hrange.2]
      exact hrange.1
  case isFalse => cases hn

theorem plainNumber?_of_digits {least n : Nat} {digits : List Char} (plus : Bool)
    (hdigits : readDigits? digits = some n) (hleast : least ≤ n) (hword : n < 2 ^ (32 : Nat)) :
    plainNumber? least (.ofList (if plus then '+' :: digits else digits)) =
      some (.ofNat 32 n) := by
  have hdropped : (match (if plus then '+' :: digits else digits : List Char) with
      | '+' :: cs => cs
      | cs => cs) = digits := by
    cases plus with
    | true => rfl
    | false =>
        rw [if_neg Bool.false_ne_true]
        split
        case h_1 cs =>
            -- A plus sign is no digit.
            simp [readDigits?] at hdigits
        case h_2 => rfl
  rw [plainNumber?, String.toList_ofList, hdropped, hdigits, Option.bind_some,
    if_pos ⟨hleast, hword⟩]

namespace PlainState

/-- All that is known was checked. -/
structure Checked (s : PlainState) : Prop where
  count : ∀ {o k}, s.known.count o = some k → ∃ text, plainNumber? o.least text = some k
  rom : ∀ {rom}, s.known.rom = some rom → ∃ text, plainPath? text = some rom

variable {s next : PlainState}

theorem checked_start (declared : List NumberOption) : Checked ⟨declared, .nothing⟩ where
  count h := by cases h
  rom h := by cases h

theorem Checked.set (h : s.Checked) {o : NumberOption} {text : String}
    (hnext : s.set o text = .ok next) : next.Checked := by
  unfold PlainState.set at hnext
  split at hnext
  case h_1 k hk =>
      cases hnext
      refine ⟨?_, h.rom⟩
      intro o' k' hcount
      by_cases ho : o' = o
      · have hsame : some k = some k' := by simpa [Progress.set, ho] using hcount
        exact ⟨text, by rw [ho, hk, hsame]⟩
      · exact h.count (by simpa [Progress.set, ho] using hcount)
  case h_2 => cases hnext

theorem Checked.mention (h : s.Checked) {o : NumberOption} {value? : Option (List Char)}
    (hnext : s.mention o value? = .ok next) : next.Checked := by
  cases value? with
  | some value => exact h.set hnext
  | none =>
      cases hnext
      exact ⟨h.count, h.rom⟩

theorem Checked.name (h : s.Checked) {text : String} (hnext : s.name text = .ok next) :
    next.Checked := by
  unfold PlainState.name at hnext
  split at hnext
  case h_1 rom _ hrom =>
      split at hnext
      case isTrue => cases hnext
      case isFalse =>
          cases hnext
          exact ⟨h.count, fun hname => ⟨text, hrom.trans hname⟩⟩
  case h_2 => cases hnext

theorem Checked.read (h : s.Checked) {text : String} (hnext : s.read text = .ok next) :
    next.Checked := by
  unfold PlainState.read at hnext
  split at hnext
  case h_1 => exact h.set hnext
  case h_2 =>
      split at hnext
      case h_1 =>
          split at hnext
          case isTrue => cases hnext
          case isFalse => exact h.mention hnext
      case h_2 => exact h.name hnext

/-- What is known at the end of a line was checked when it was read. -/
theorem Checked.foldlM (h : s.Checked) {arguments : List String}
    (hnext : arguments.foldlM PlainState.read s = .ok next) : next.Checked := by
  induction arguments generalizing s with
  | nil =>
      cases hnext
      exact h
  | cons text rest ih =>
      rw [List.foldlM_cons] at hnext
      cases hread : s.read text with
      | error stop =>
          rw [hread] at hnext
          cases hnext
      | ok s' =>
          rw [hread] at hnext
          exact ih (h.read hread) hnext

end PlainState

/-- What the plain reader hands over is what it knew at the end of the line. -/
theorem exists_of_parse_plainReader {declared : List NumberOption} {arguments : List String}
    {a : Arguments} (hparse : plainReader.parse declared arguments = .ok a) :
    ∃ s : PlainState, s.Checked ∧ s.known.rom = some a.rom ∧
      ∀ o, a.count o = (s.known.count o).getD o.standard := by
  unfold CommandReader.parse at hparse
  cases hread : arguments.foldlM plainReader.read (plainReader.start declared) with
  | error stop =>
      rw [hread] at hparse
      cases hparse
  | ok s =>
      rw [hread] at hparse
      have hchecked : PlainState.Checked s := (PlainState.checked_start declared).foldlM hread
      have hfinish : PlainState.finish s = .ok a := hparse
      unfold PlainState.finish at hfinish
      split at hfinish
      case h_1 rom _ hrom =>
          cases hfinish
          exact ⟨s, hchecked, hrom, fun _ => rfl⟩
      case h_2 => cases hfinish

/-- **The plain reader checks values.** -/
theorem plainReader_checksValues : plainReader.ChecksValues where
  least_le := least_le_of_plainNumber?
  number_of_digits := plainNumber?_of_digits
  path_empty := rfl
  path_of_ne_empty hne := if_neg hne
  count_checked := by
    intro declared arguments a hparse o _
    obtain ⟨s, hchecked, -, hcount⟩ := exists_of_parse_plainReader hparse
    rw [hcount o]
    cases hset : s.known.count o with
    | none => exact Or.inl rfl
    | some k => exact Or.inr (hchecked.count hset)
  rom_checked := by
    intro declared arguments a hparse
    obtain ⟨s, hchecked, hrom, -⟩ := exists_of_parse_plainReader hparse
    exact hchecked.rom hrom

/-! ## It reads in order -/

variable {o : NumberOption} {argument : String}

/-- An argument that has an option's letter or name alone is about that option. -/
theorem mention?_alone (ho : o ∈ Settings.declared)
    (halone : argument = o.flag ∨ argument = o.longFlag) :
    Settings.declared.findSome? (·.mention? argument.toList) = some (o, none) := by
  simp only [Settings.declared, List.mem_cons, List.not_mem_nil, or_false] at ho
  rcases ho with rfl | rfl | rfl <;> rcases halone with rfl | rfl <;> decide +kernel

/-- The letters of an argument with an option and its value in it. -/
theorem NumberOption.Attached.toList_eq {value : String} (h : o.Attached value argument) :
    (∃ c cs, value.toList = c :: cs ∧ argument.toList = '-' :: o.letter :: c :: cs) ∨
      argument.toList = '-' :: '-' :: (o.name.toList ++ '=' :: value.toList) := by
  cases h with
  | letter hnonempty =>
      obtain ⟨c, cs, hvalue⟩ : ∃ c cs, value.toList = c :: cs :=
        List.exists_cons_of_ne_nil fun h => hnonempty (String.toList_eq_nil_iff.1 h)
      refine Or.inl ⟨c, cs, hvalue, ?_⟩
      rw [String.toList_append, toList_flag, hvalue]
      rfl
  | name =>
      refine Or.inr ?_
      rw [String.toList_append, String.toList_append, toList_longFlag]
      simp

/-- What stands after the letter or the equals sign is the value. -/
theorem mention?_attached (ho : o ∈ Settings.declared) {value : String}
    (hattached : o.Attached value argument) :
    Settings.declared.findSome? (·.mention? argument.toList) = some (o, some value.toList) := by
  simp only [Settings.declared, List.mem_cons, List.not_mem_nil, or_false] at ho
  rcases hattached.toList_eq with ⟨c, cs, hvalue, hargument⟩ | hargument <;>
    rcases ho with rfl | rfl | rfl <;>
    simp [*, Settings.declared, NumberOption.mention?, Settings.frameRateOption,
      Settings.stepsPerFrameOption, Settings.scaleOption, after?]

/-- Without a dash in front no argument is about an option. -/
theorem mention?_plain (hplain : argument.toList.head? ≠ some '-') :
    Settings.declared.findSome? (·.mention? argument.toList) = none := by
  cases hargument : argument.toList with
  | nil => decide +kernel
  | cons c cs =>
      have hdash : ¬ c = '-' := fun h => hplain (by rw [hargument, h]; rfl)
      simp [Settings.declared, NumberOption.mention?, after?, hdash, Ne.symm hdash]

/-- The plain reader knows what its state says. -/
def PlainState.Knows (s : PlainState) (p : Progress) : Prop := s = ⟨Settings.declared, p⟩

/-- **The plain reader reads in order.** -/
theorem plainReader_readsInOrder :
    plainReader.ReadsInOrder Settings.declared PlainState.Knows where
  start := rfl
  announce := by
    rintro s p o argument rfl hwanting ho hfree halone
    have hread : PlainState.read ⟨Settings.declared, p⟩ argument =
        .ok ⟨Settings.declared, p.announce o⟩ := by
      simp [PlainState.read, hwanting, mention?_alone ho halone, hfree, PlainState.mention]
    exact ⟨_, hread, rfl⟩
  value := by
    rintro s p o argument k rfl hwanting - (hk : plainNumber? o.least argument = some k)
    have hread : PlainState.read ⟨Settings.declared, p⟩ argument =
        .ok ⟨Settings.declared, p.set o k⟩ := by
      simp [PlainState.read, hwanting, PlainState.set, hk]
    exact ⟨_, hread, rfl⟩
  attached := by
    rintro s p o argument value k rfl hwanting ho hfree hattached
      (hk : plainNumber? o.least value = some k)
    have hread : PlainState.read ⟨Settings.declared, p⟩ argument =
        .ok ⟨Settings.declared, p.set o k⟩ := by
      simp [PlainState.read, hwanting, mention?_attached ho hattached, hfree, PlainState.mention,
        PlainState.set, hk]
    exact ⟨_, hread, rfl⟩
  positional := by
    rintro s p argument rom rfl hwanting hunnamed hplain
      (hrom : plainPath? argument = some rom)
    have hread : PlainState.read ⟨Settings.declared, p⟩ argument =
        .ok ⟨Settings.declared, p.name rom⟩ := by
      simp [PlainState.read, hwanting, mention?_plain hplain, PlainState.name, hunnamed, hrom,
        if_neg hplain]
    exact ⟨_, hread, rfl⟩
  finish := by
    rintro s p rom rfl hwanting hnamed
    refine ⟨⟨rom, fun o => (p.count o).getD o.standard⟩, ?_, rfl, fun _ _ => rfl⟩
    show PlainState.finish ⟨Settings.declared, p⟩ = _
    simp [PlainState.finish, hwanting, hnamed]

end Chip8.Host
