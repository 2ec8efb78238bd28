import Chip8.Proofs.Effect
import Chip8.Proofs.Runs

/-!
# Waiting for keys

An instruction can make the machine wait for a key.  The machine then stands
still until a key goes down, and the key lands in the register that waits.

All of it rests on one lemma, `waiting_after`, which says what each command does
to the register that waits.  From it follows what a run keeps: the registers
that were asked for so far are those that got their keys, in the same order, and
then the one that still waits (`asked_eq`).  So no key is lost, none comes twice
and none lands in another register.  `key_wait_protocol` puts this together with
what the single commands do.
-/

namespace Chip8

/-! ## The words that ask for a key -/

/-- The register that a word asks a key for: the x of a word Fx0A. -/
def Opcode.awaited? (op : Opcode) : Option Register :=
  if op.family = 0xF ∧ op.kk = 0x0A then some op.x else none

/-- A word asks for a key exactly if its digits say so. -/
theorem Opcode.awaited?_eq_some_iff {op : Opcode} {x : Register} :
    op.awaited? = some x ↔ op.family = 0xF ∧ op.kk = 0x0A ∧ x = op.x := by
  simp only [awaited?, Option.ite_none_right_eq_some, Option.some.injEq, and_assoc,
    eq_comm (a := op.x)]

/-- The instruction of a word that asks for a key is to wait for one. -/
theorem Opcode.awaited?_eq_some_iff_decode {op : Opcode} {x : Register} :
    op.awaited? = some x ↔ op.decode = .awaitKey x := by
  rw [awaited?_eq_some_iff, decode_eq_iff (fun _ => Instruction.noConfusion)]
  rfl

/-- A word puts the machine in wait exactly if it asks for a key; any other
leaves it as it was. -/
theorem Opcode.waiting_execute (op : Opcode) (random : Byte) (m : Machine) :
    (op.decode.execute random m).waiting = op.awaited?.or m.waiting := by
  rw [Machine.waiting, Instruction.execute_keyboard]
  split
  case h_1 x hdecode =>
      rw [awaited?_eq_some_iff_decode.2 hdecode]
      rfl
  case h_2 hother =>
      have hnone : op.awaited? = none := by
        apply Option.eq_none_iff_forall_ne_some.2
        intro x hx
        exact hother x (awaited?_eq_some_iff_decode.1 hx)
      rw [hnone]
      rfl

/-- What brings no key to a machine that waits: a step, a key that goes up, or a
byte that is no key. -/
def Command.BringsNoKey : Command → Prop
  | .step _ | .keyUp _ => True
  | .keyDown b => 16 ≤ b
  | _ => False

/-! ## The keypad -/

namespace Keyboard

variable {ρ : Type} (k : Keyboard ρ) {b : Byte}

/-- A byte below 16 is the key with this number. -/
theorem keyDown_of_lt (hkey : b < 16) :
    k.keyDown b = (⟨k.held.set (b.setWidth 4) true, none⟩, k.request) := by
  rw [keyDown, Key.ofByte?_of_lt hkey]

/-- A byte from 16 on is no key, and the keypad ignores it. -/
theorem keyDown_of_le (hbyte : 16 ≤ b) : k.keyDown b = (k, none) := by
  rw [keyDown, Key.ofByte?_of_le hbyte]

/-- A key release fulfils no request. -/
theorem request_keyUp (b : Byte) : (k.keyUp b).request = k.request := by
  rw [keyUp]
  split <;> rfl

/-- The key that went down is held, and of the others those that were. -/
theorem isHeld_keyDown (hkey : b < 16) (other : Byte) :
    (k.keyDown b).1.isHeld other = (decide (other = b) || k.isHeld other) := by
  rw [keyDown_of_lt k hkey, isHeld, isHeld]
  by_cases hother : other < 16
  · have hsame : b.setWidth 4 = other.setWidth 4 ↔ other = b := by bv_omega
    simp only [Key.ofByte?_of_lt hother, Bank.getElem_set, hsame]
    by_cases heq : other = b <;> simp [heq]
  · have hne : other ≠ b := fun heq => hother (heq ▸ hkey)
    simp only [Key.ofByte?_of_le (BitVec.not_lt.1 hother), hne, decide_false, Bool.false_or]

end Keyboard

namespace Machine

variable (m : Machine)

theorem paused_eq_false_iff {m : Machine} : m.paused = false ↔ m.waiting = none := by
  simp [paused]

theorem paused_of_waiting {m : Machine} {x : Register} (hwaiting : m.waiting = some x) :
    m.paused = true := by
  simp [paused, hwaiting]

/-! ## The register that waits -/

/-- The register that a command asks a key for, if it executes a word that does. -/
def asks (m : Machine) (c : Command) : Option Register :=
  (m.executes c).bind Opcode.awaited?

/-- The register that gets a key by a command, and the key. -/
def delivers (m : Machine) : Command → Option (Register × Byte)
  | .keyDown b => (m.keyboard.keyDown b).2.map (·, b)
  | _ => none

/-- **What a command does to the register that waits.**  One that asks for a key
waits; a key that goes down ends any wait; nothing else makes a difference. -/
theorem waiting_after (c : Command) :
    c ≠ .reset → (m.after c).waiting =
      match c with
      | .keyDown b => if b < 16 then none else m.waiting
      | c => (m.asks c).or m.waiting := by
  intro hreset
  cases c with
  | step random =>
      by_cases hpaused : m.paused = true
      · simp [after_step_of_paused hpaused, asks, executes, hpaused]
      · have hrunning : m.paused = false := by simpa using hpaused
        rw [after_step_of_running hrunning, Opcode.waiting_execute]
        simp [asks, executes, hrunning, advance, waiting]
  | keyDown b =>
      rw [after_keyDown]
      by_cases hkey : b < 16
      · simp only [waiting, Keyboard.keyDown_of_lt _ hkey, if_pos hkey]
      · simp only [waiting, Keyboard.keyDown_of_le _ (BitVec.not_lt.1 hkey), if_neg hkey]
  | keyUp b => exact m.keyboard.request_keyUp b
  | takeFrame => rw [after_takeFrame]; rfl
  | load program => rw [after_load]; rfl
  | loadFrom readings => rw [after_loadFrom_eq]; rfl
  | reset => exact absurd rfl hreset

/-- A command that executes no word asks for no key. -/
theorem asks_of_paused {m : Machine} (hpaused : m.paused = true) (c : Command) :
    m.asks c = none := by
  cases c <;> simp [asks, executes, hpaused]

/-- Only a key that goes down ends a wait. -/
theorem waiting_after_of_waiting {m : Machine} {c : Command} {x : Register}
    (hreset : c ≠ .reset) (hwaiting : m.waiting = some x)
    (hkeys : ∀ b, c = .keyDown b → 16 ≤ b) :
    (m.after c).waiting = some x := by
  rw [m.waiting_after c hreset]
  split
  case h_1 b =>
      have hbyte : ¬ b < 16 := BitVec.not_lt.2 (hkeys b rfl)
      rw [if_neg hbyte, hwaiting]
  case h_2 =>
      rw [asks_of_paused (paused_of_waiting hwaiting), hwaiting]
      rfl

/-- **The step of the count.**  Whoever waits before a command or asks for a key
by it either gets the key by it or waits after it. -/
theorem waiting_asks_eq {c : Command} (hreset : c ≠ .reset) :
    m.waiting.toList ++ (m.asks c).toList =
      (m.delivers c).toList.map Prod.fst ++ (m.after c).waiting.toList := by
  rw [m.waiting_after c hreset]
  split
  case h_1 b =>
      have hasks : m.asks (.keyDown b) = none := rfl
      by_cases hkey : b < 16
      · simp only [delivers, hasks, Keyboard.keyDown_of_lt _ hkey, if_pos hkey]
        rw [show m.keyboard.request = m.waiting from rfl]
        cases m.waiting <;> rfl
      · simp only [delivers, hasks, Keyboard.keyDown_of_le _ (BitVec.not_lt.1 hkey), if_neg hkey]
        cases m.waiting <;> rfl
  case h_2 hother =>
      have hdelivers : m.delivers c = none := by
        cases c with
        | keyDown b => exact absurd rfl (hother b)
        | _ => rfl
      rw [hdelivers]
      cases hwaiting : m.waiting with
      | none => cases m.asks c <;> rfl
      | some x =>
          rw [asks_of_paused (paused_of_waiting hwaiting)]
          rfl

/-! ## Runs -/

/-- The registers that a key was asked for in a run, in order. -/
def asked (m : Machine) (cs : List Command) : List Register :=
  m.observed (fun m c => (m.asks c).toList) cs

/-- The registers that got a key in a run, in order, each with its key. -/
def delivered (m : Machine) (cs : List Command) : List (Register × Byte) :=
  m.observed (fun m c => (m.delivers c).toList) cs

/-- What was asked for is what the words that were executed asked for. -/
theorem asked_eq_filterMap_executed (cs : List Command) :
    m.asked cs = (m.executed cs).filterMap Opcode.awaited? := by
  induction cs generalizing m with
  | nil => rfl
  | cons c cs ih =>
      have htail := ih (m.after c)
      rw [asked, executed] at htail ⊢
      rw [observed_cons, observed_cons, List.filterMap_append, htail]
      congr 1
      rw [asks]
      cases m.executes c <;> rfl

/-- **No key is lost, and none goes astray.**  Who waits at the start, and then
all who ask in a run, are those who get a key in it, in this order, and then who
waits at its end. -/
theorem waiting_asked_eq {cs : List Command} (hreset : .reset ∉ cs) :
    m.waiting.toList ++ m.asked cs =
      (m.delivered cs).map Prod.fst ++ (m.run cs).waiting.toList := by
  induction cs generalizing m with
  | nil => simp [asked, delivered]
  | cons c cs ih =>
      rw [List.mem_cons, not_or] at hreset
      have hstep := m.waiting_asks_eq (Ne.symm hreset.1)
      have htail := ih (m.after c) hreset.2
      rw [asked, delivered] at htail ⊢
      rw [observed_cons, observed_cons, run_cons, ← List.append_assoc, hstep,
        List.append_assoc, htail, List.map_append, List.append_assoc]

/-- If nobody waits at the start, then all who get a key asked for it in the run. -/
theorem asked_eq_delivered {m : Machine} {cs : List Command}
    (hrunning : m.paused = false) (hreset : .reset ∉ cs) :
    (m.executed cs).filterMap Opcode.awaited? =
      (m.delivered cs).map Prod.fst ++ (m.run cs).waiting.toList := by
  have hcount := m.waiting_asked_eq hreset
  rw [paused_eq_false_iff.1 hrunning] at hcount
  rw [← asked_eq_filterMap_executed]
  exact hcount

/-- A wait lasts until a key goes down. -/
theorem waiting_run {m : Machine} {cs : List Command} {x : Register}
    (hreset : .reset ∉ cs) (hwaiting : m.waiting = some x)
    (hkeys : ∀ b, .keyDown b ∈ cs → 16 ≤ b) :
    (m.run cs).waiting = some x := by
  induction cs generalizing m with
  | nil => exact hwaiting
  | cons c cs ih =>
      rw [List.mem_cons, not_or] at hreset
      have hnext : (m.after c).waiting = some x :=
        waiting_after_of_waiting (Ne.symm hreset.1) hwaiting
          fun b hb => hkeys b (hb ▸ List.mem_cons_self)
      exact ih hreset.2 hnext fun b hb => hkeys b (List.mem_cons_of_mem c hb)

/-! ## The protocol -/

/-- A machine is another one, but for which keys are held. -/
def SameButHeld (m n : Machine) : Prop :=
  n = { m with keyboard := { m.keyboard with held := n.keyboard.held } }

/-- A machine is another one after the key `k` went down and landed in the
register `x`. -/
structure Resumed (m : Machine) (x : Register) (k : Byte) (n : Machine) : Prop where
  /-- The register holds the key, and the other registers what they held. -/
  v : ∀ y, n.v[y] = if y = x then k else m.v[y]
  /-- The key is held, and of the others those that were. -/
  held : ∀ b, n.keyboard.isHeld b = (decide (b = k) || m.keyboard.isHeld b)
  /-- The machine no longer waits. -/
  running : n.paused = false
  /-- Nothing else is different. -/
  rest : n = { m with v := n.v, keyboard := n.keyboard }

/-- Another keypad with the same request makes no other difference. -/
theorem sameButHeld_of_request {k : Keyboard Register}
    (hrequest : k.request = m.keyboard.request) :
    m.SameButHeld { m with keyboard := k } := by
  obtain ⟨held, request⟩ := k
  subst hrequest
  rfl

/-- What brings no key leaves a machine that waits standing still. -/
theorem sameButHeld_of_bringsNoKey {m : Machine} {c : Command}
    (hpaused : m.paused = true) (hkey : c.BringsNoKey) : m.SameButHeld (m.after c) := by
  cases c with
  | step random =>
      rw [after_step_of_paused hpaused]
      exact m.sameButHeld_of_request rfl
  | keyDown b =>
      rw [after_keyDown, Keyboard.keyDown_of_le _ hkey]
      exact m.sameButHeld_of_request rfl
  | keyUp b => exact m.sameButHeld_of_request (m.keyboard.request_keyUp b)
  | _ => exact absurd hkey id

/-- A key that goes down while no register waits changes which keys are held. -/
theorem sameButHeld_keyDown {m : Machine} (hrunning : m.paused = false) (b : Byte) :
    m.SameButHeld (m.after (.keyDown b)) := by
  have hrequest : m.keyboard.request = none := paused_eq_false_iff.1 hrunning
  rw [after_keyDown]
  by_cases hkey : b < 16
  · rw [Keyboard.keyDown_of_lt _ hkey, hrequest]
    exact m.sameButHeld_of_request hrequest.symm
  · rw [Keyboard.keyDown_of_le _ (BitVec.not_lt.1 hkey)]
    exact m.sameButHeld_of_request rfl

/-- A key that goes down while a register waits lands in it. -/
theorem resumed_keyDown {m : Machine} {x : Register} {k : Byte}
    (hwaiting : m.waiting = some x) (hkey : k < 16) :
    m.Resumed x k (m.after (.keyDown k)) := by
  have hanswer : (m.keyboard.keyDown k).2 = some x := by
    rw [Keyboard.keyDown_of_lt _ hkey]
    exact hwaiting
  have hafter : m.after (.keyDown k) =
      { m with keyboard := (m.keyboard.keyDown k).1, v := m.v.set x k } := by
    rw [after_keyDown, hanswer]
  rw [hafter]
  constructor
  · intro y
    rw [Bank.getElem_set]
    simp only [eq_comm]
  · exact m.keyboard.isHeld_keyDown hkey
  · rw [paused_eq_false_iff, waiting, Keyboard.keyDown_of_lt _ hkey]
  · rfl

/-- A machine that did not wait before a command executed a word that asks for a
key, if it waits after it. -/
theorem step_of_begins {m : Machine} {c : Command} (hreset : c ≠ .reset)
    (hrunning : m.paused = false) (hwaits : (m.after c).paused = true) :
    ∃ random, c = .step random ∧ m.fetch.family = 0xF ∧ m.fetch.kk = 0x0A ∧
      (m.after c).waiting = some m.fetch.x := by
  have hnone : m.waiting = none := paused_eq_false_iff.1 hrunning
  obtain ⟨x, hx⟩ : ∃ x, (m.after c).waiting = some x := Option.isSome_iff_exists.1 hwaits
  have hafter := m.waiting_after c hreset
  rw [hx, hnone] at hafter
  cases c with
  | step random =>
      have hasks : m.fetch.awaited? = some x := by
        simpa [asks, executes, hrunning] using hafter.symm
      obtain ⟨hfamily, hkk, rfl⟩ := Opcode.awaited?_eq_some_iff.1 hasks
      exact ⟨random, rfl, hfamily, hkk, hx⟩
  | keyDown b => simp at hafter
  | _ => simp [asks, executes] at hafter

/-- A run keeps to the protocol of waiting for keys. -/
structure KeyWait (start : Machine) (cs : List Command) : Prop where
  /-- A machine begins to wait only at a step that executes a word Fx0A, and it
  waits for this x. -/
  begins : ∀ pre c, pre ++ [c] <+: cs →
    let m := start.run pre
    m.paused = false → (m.after c).paused = true →
      ∃ random, c = .step random ∧ m.fetch.family = 0xF ∧ m.fetch.kk = 0x0A ∧
        (m.after c).waiting = some m.fetch.x
  /-- While it waits it stands still: only which keys are held may change. -/
  stands : ∀ pre c, pre ++ [c] <+: cs →
    let m := start.run pre
    m.paused = true → c.BringsNoKey → m.SameButHeld (m.after c)
  /-- The first key that goes down while it waits lands in the register that
  waits, whatever came before it. -/
  ends : ∀ pre mid k x, pre ++ mid ++ [.keyDown k] <+: cs →
    (start.run pre).waiting = some x → (∀ b, .keyDown b ∈ mid → 16 ≤ b) → k < 16 →
      let m := start.run (pre ++ mid)
      m.waiting = some x ∧ m.Resumed x k (m.after (.keyDown k))
  /-- A key that goes down while it does not wait lands nowhere. -/
  ignores : ∀ pre b, pre ++ [.keyDown b] <+: cs →
    let m := start.run pre
    m.paused = false → m.SameButHeld (m.after (.keyDown b))
  /-- At every point the registers that a word asked a key for are those that got
  one, in this order, and then the one that still waits. -/
  matched : ∀ pre, pre <+: cs →
    (start.executed pre).filterMap Opcode.awaited? =
      (start.delivered pre).map Prod.fst ++ (start.run pre).waiting.toList
  /-- So the keys that landed are as many as the words that asked for one, less
  one exactly while the machine waits. -/
  counted : ∀ pre, pre <+: cs →
    (start.delivered pre).length + (start.run pre).paused.toNat =
      start.count (·.awaited?.isSome) pre

/-- **Every run of a machine that does not wait at the start** keeps to the
protocol. -/
theorem keyWait_of_running {start : Machine} (hrunning : start.paused = false)
    {cs : List Command} (hreset : .reset ∉ cs) : start.KeyWait cs where
  begins := by
    intro pre c hpre m hpaused hafter
    have hc : c ≠ .reset := by
      rintro rfl
      exact hreset (hpre.subset (by simp))
    exact step_of_begins hc hpaused hafter
  stands := fun _ _ _ hpaused hkey => sameButHeld_of_bringsNoKey hpaused hkey
  ends := by
    intro pre mid k x hpre hwaiting hkeys hk m
    have hmid : .reset ∉ mid := fun hmem => hreset (hpre.subset (by simp [hmem]))
    have hstill : m.waiting = some x := by
      rw [show m = (start.run pre).run mid from run_append ..]
      exact waiting_run hmid hwaiting hkeys
    exact ⟨hstill, resumed_keyDown hstill hk⟩
  ignores := fun _ _ _ hpaused => sameButHeld_keyDown hpaused _
  matched := fun pre hpre =>
    asked_eq_delivered hrunning fun hmem => hreset (hpre.subset hmem)
  counted := by
    intro pre hpre
    have hmatched := asked_eq_delivered hrunning fun hmem => hreset (hpre.subset hmem)
    have hlength := congrArg List.length hmatched
    rw [List.length_append, List.length_map, List.length_filterMap_eq_countP] at hlength
    rw [count, hlength, paused]
    cases (start.run pre).waiting <;> rfl

end Machine

/-- **The protocol of waiting for keys.**  Whatever display and keypad a new
machine takes possession of, with keys held and a request open, every run of it
without a reset keeps to the protocol: it waits only for registers that a word
Fx0A named, each wait ends with the first key that goes down, that key lands in
the register that waits and nowhere else, and no key is lost or counted twice. -/
theorem key_wait_protocol {ρ : Type} (display : Display) (keyboard : Keyboard ρ)
    {cs : List Command} (hreset : .reset ∉ cs) :
    (Machine.withPeripherals display keyboard).KeyWait cs :=
  Machine.keyWait_of_running rfl hreset

/-- A program that waits twice, given to a machine whose keypad has a request open,
with bytes that are no keys and a key that is held already. -/
theorem key_wait_protocol_of_two_waits :
    let keyboard : Keyboard Nat := (Keyboard.idle.keyDown 7).1.ask 77
    let cs : List Command := [.load [0xF3, 0x0A, 0xF5, 0x0A], .keyDown 1, .step 0, .step 0,
      .keyDown 0x10, .keyUp 2, .keyDown 7, .takeFrame, .step 0, .keyDown 0xFF, .keyDown 7]
    .reset ∉ cs ∧ (Machine.withPeripherals .blank keyboard).KeyWait cs := by
  intro keyboard cs
  have hreset : .reset ∉ cs := by simp [cs]
  exact ⟨hreset, key_wait_protocol .blank keyboard hreset⟩

end Chip8
