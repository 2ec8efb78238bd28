import Chip8.Host.CommandLine

/-!
# What a reader of command lines is asked for

The program declares its options and leaves the texts to a reader.  Two things are asked of
the reader, and each part of them is a sentence of what such readers document.

It checks values (`ChecksValues`): a number comes from a text that stands for it or is the
declared standard, and a text stands for a number only if the option takes that number.

It reads in order (`ReadsInOrder`): from left to right, where each argument does one thing
to what is known so far (`Progress`).  This is a premise about single arguments, and only
about those that are in order.  Nothing is said about a line as a whole, nor about
arguments that are out of order, which a reader may refuse or take as it likes.
-/

namespace Chip8.Host

/-- The value of decimal digits; nothing if there is none or some character is no digit. -/
def readDigits? (cs : List Char) : Option Nat :=
  if cs ≠ [] ∧ cs.all Char.isDigit then
    some (cs.foldl (fun value c => 10 * value + (c.toNat - '0'.toNat)) 0)
  else none

/-- What is known of a command line while it is read. -/
structure Progress where
  /-- The program, once it is named. -/
  rom : Option String
  /-- The numbers set so far. -/
  count : NumberOption → Option Count
  /-- The option that wants the next argument for its value. -/
  wanting : Option NumberOption

namespace Progress

/-- Nothing is known. -/
def nothing : Progress := ⟨none, fun _ => none, none⟩

/-- An option wants a value. -/
def announce (p : Progress) (o : NumberOption) : Progress := { p with wanting := some o }

/-- An option has its value. -/
def set (p : Progress) (o : NumberOption) (k : Count) : Progress :=
  { p with count := fun q => if q = o then some k else p.count q, wanting := none }

/-- The program is named. -/
def name (p : Progress) (rom : String) : Progress := { p with rom := some rom }

end Progress

/-- Arguments that have an option and its value in them. -/
inductive NumberOption.Attached (o : NumberOption) (value : String) : String → Prop where
  /-- The value stands right after the letter.  An equals sign there would not be part
  of the value. -/
  | letter : value ≠ "" → value.toList.head? ≠ some '=' → Attached o value (o.flag ++ value)
  /-- An equals sign stands between the name and the value. -/
  | name : Attached o value (o.longFlag ++ "=" ++ value)

namespace CommandReader

/-- A reader that checks values. -/
structure ChecksValues (reader : CommandReader) : Prop where
  /-- A range is declared by its least number, and no number below it is taken. -/
  least_le : ∀ {least text k}, reader.number? least text = some k → least ≤ k.toNat
  /-- Numbers are written in decimal, with a plus sign in front or none, and all are taken
  that are in the range and fit in a word. -/
  number_of_digits : ∀ {least n : Nat} {digits : List Char} (plus : Bool),
    readDigits? digits = some n → least ≤ n → n < 2 ^ (32 : Nat) →
      reader.number? least (.ofList (if plus then '+' :: digits else digits)) = some (.ofNat 32 n)
  /-- An empty text is no name of a file. -/
  path_empty : reader.path? "" = none
  /-- Any other text is the name that it spells. -/
  path_of_ne_empty : ∀ {text}, text ≠ "" → reader.path? text = some text
  /-- A number that is handed over was checked, or is the declared standard. -/
  count_checked : ∀ {declared arguments a}, reader.parse declared arguments = .ok a →
    ∀ o ∈ declared, a.count o = o.standard ∨ ∃ text, reader.number? o.least text = some (a.count o)
  /-- A name that is handed over was checked. -/
  rom_checked : ∀ {declared arguments a}, reader.parse declared arguments = .ok a →
    ∃ text, reader.path? text = some a.rom

/-- The reader takes an argument, and comes to know what is said. -/
def Takes (reader : CommandReader) (knows : reader.State → Progress → Prop) (s : reader.State)
    (argument : String) (p : Progress) : Prop :=
  ∃ next, reader.read s argument = .ok next ∧ knows next p

/-- A reader that reads in order.  What it knows in which state is its own affair. -/
structure ReadsInOrder (reader : CommandReader) (declared : List NumberOption)
    (knows : reader.State → Progress → Prop) : Prop where
  /-- At first it knows nothing. -/
  start : knows (reader.start declared) .nothing
  /-- An option may stand alone, by its letter or by its name. -/
  announce : ∀ {s p o argument}, knows s p → p.wanting = none → o ∈ declared →
    p.count o = none → argument = o.flag ∨ argument = o.longFlag →
      reader.Takes knows s argument (p.announce o)
  /-- Then the next argument is its value, unless a dash stands in front. -/
  value : ∀ {s p o argument k}, knows s p → p.wanting = some o →
    argument.toList.head? ≠ some '-' → reader.number? o.least argument = some k →
      reader.Takes knows s argument (p.set o k)
  /-- An option and its value may also be one argument. -/
  attached : ∀ {s p o argument value k}, knows s p → p.wanting = none → o ∈ declared →
    p.count o = none → o.Attached value argument → reader.number? o.least value = some k →
      reader.Takes knows s argument (p.set o k)
  /-- An argument without a dash in front that no option wants names the program. -/
  positional : ∀ {s p argument rom}, knows s p → p.wanting = none → p.rom = none →
    argument.toList.head? ≠ some '-' → reader.path? argument = some rom →
      reader.Takes knows s argument (p.name rom)
  /-- At the end the numbers are those that were set, and the standard ones where none was. -/
  finish : ∀ {s p rom}, knows s p → p.wanting = none → p.rom = some rom →
    ∃ a, reader.finish s = .ok a ∧ a.rom = rom ∧
      ∀ o ∈ declared, a.count o = (p.count o).getD o.standard

end CommandReader

end Chip8.Host
