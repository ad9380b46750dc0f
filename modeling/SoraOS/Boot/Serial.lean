import SoraOS.Console.Terminal
import SoraOS.Shared.Conservation
import SoraOS.Shared.Uart

set_option autoImplicit false

/-! `serial.c`, while the UART sends at its own pace. -/

namespace SoraOS

namespace Boot

open Conservation

-- Offsets from `COM1_BASE`.
def serialInit : List (Uart.Port × U8) := [
  (1, 0x00#8), -- no interrupts
  (3, 0x80#8), -- the divisor is accessible
  (0, 0x0C#8),
  (1, 0x00#8),
  (3, 0x03#8), -- 8 bits, no parity, 1 stop bit
  (2, 0xC7#8),
  (4, 0x0B#8)]

def serialWrites (u : Uart) (writes : List (Uart.Port × U8)) : Uart :=
  writes.foldl (fun u write => u.outb write.1 write.2) u

inductive SerialPc where
  | poll
  | write

structure Serial where
  uart : Uart
  rest : List U8
  pc : SerialPc

namespace Serial

-- `while ((inb(COM1_BASE + 5) & 0x20) == 0);` and `outb(COM1_BASE, c);`
def statement (s : Serial) : Serial :=
  match s.rest, s.pc with
  | [], _ => s
  | _ :: _, .poll => if s.uart.lineStatus &&& 0x20#8 = 0#8 then s else { s with pc := .write }
  | c :: rest, .write => { uart := s.uart.outb 0 c, rest := rest, pc := .poll }

inductive Event where
  | statement
  | transmit
  deriving DecidableEq

def step (s : Serial) : Event → Serial
  | .statement => s.statement
  | .transmit => { s with uart := s.uart.transmit }

def run (s : Serial) (events : List Event) : Serial := events.foldl step s

-- `*s` up to its NUL.
def print (u : Uart) (s : List U8) : Serial := { uart := u, rest := Vga.cString s, pc := .poll }

structure Sends (s : Serial) (text : List U8) : Prop where
  open_ : s.uart.dlab = false
  order : s.uart.sent ++ s.uart.waiting ++ s.rest = text
  single : s.uart.waiting.length ≤ 1
  ready : s.pc = .write → s.uart.waiting = []

theorem lineStatus_ready (u : Uart) : u.lineStatus &&& 0x20#8 = 0#8 ↔ u.waiting ≠ [] := by
  unfold Uart.lineStatus
  by_cases empty : u.waiting = []
  next => simp [empty]
  next => simp [empty]

theorem Sends.statement {s : Serial} {text : List U8} (h : s.Sends text) : s.statement.Sends text := by
  unfold Serial.statement
  split
  next => exact h
  next c rest more polling =>
    split
    next => exact h
    next ready =>
      have empty := not_not.mp (mt (lineStatus_ready s.uart).mpr ready)
      exact ⟨h.open_, by simpa [more] using h.order, h.single, fun _ => empty⟩
  next c rest more writing =>
    have empty := h.ready writing
    have open_ := h.open_
    have written : s.uart.outb 0 c = { s.uart with waiting := [c] } := by
      simp only [Uart.outb, open_, Bool.false_eq_true, if_false]
      exact Uart.put_empty empty c
    have order := h.order
    rw [written]
    constructor
    next => exact open_
    next => simpa [more, empty] using order
    next => simp
    next => simp

theorem Sends.transmit {s : Serial} {text : List U8} (h : s.Sends text) :
    ({ s with uart := s.uart.transmit } : Serial).Sends text := by
  have single := h.single
  constructor
  next =>
    have open_ := h.open_
    simpa [Uart.dlab] using open_
  next =>
    rw [Uart.transmit_order]
    exact h.order
  next =>
    rw [Uart.transmit_waiting, List.length_tail]
    omega
  next =>
    intro writing
    rw [Uart.transmit_waiting, h.ready writing]
    rfl

theorem Sends.run {s : Serial} {text : List U8} (h : s.Sends text) (events : List Event) :
    (s.run events).Sends text := by
  induction events generalizing s with
  | nil => exact h
  | cons e rest ih =>
      cases e with
      | statement => exact ih h.statement
      | transmit => exact ih h.transmit

-- How far the current byte has come: it waits for the line, for its turn, or is being written.
def level (s : Serial) : Nat :=
  match s.pc with
  | .write => 2
  | .poll => if s.uart.waiting = [] then 1 else 0

-- Three stages for each byte.
def remaining (s : Serial) : Nat := if s.rest = [] then 0 else 3 * s.rest.length - s.level

theorem level_le (s : Serial) : s.level ≤ 2 := by
  unfold level
  split
  next => exact le_rfl
  next => split <;> decide

theorem Sends.remaining_transmit {s : Serial} {text : List U8} (h : s.Sends text) :
    (s.step .transmit).remaining ≤ s.remaining ∧
      (s.rest ≠ [] → (s.step .transmit).remaining % 3 ≠ 0) := by
  have single := h.single
  have empty : s.uart.transmit.waiting = [] := by
    rw [Uart.transmit_waiting, ← List.length_eq_zero_iff, List.length_tail]
    omega
  have further : s.level ≤ (s.step .transmit).level ∧ 1 ≤ (s.step .transmit).level := by
    unfold level step
    cases s.pc with
    | write => exact ⟨le_rfl, Nat.le_succ 1⟩
    | poll =>
        simp only [empty, if_true]
        split <;> decide
  have bound := level_le (s.step .transmit)
  have same : (s.step .transmit).rest = s.rest := rfl
  unfold remaining
  rw [same]
  by_cases done : s.rest = []
  next => simp [done]
  next =>
    have positive := List.length_pos_iff.mpr done
    rw [if_neg done, if_neg done]
    constructor
    next => omega
    next =>
      intro _
      omega

theorem remaining_statement (s : Serial) :
    (s.step .statement).remaining ≤ s.remaining ∧
      (s.remaining % 3 ≠ 0 → (s.step .statement).remaining < s.remaining) := by
  simp only [step, Serial.statement]
  split
  next done => simp [remaining, done]
  next c rest more polling =>
    split
    next busy =>
      have waits := (lineStatus_ready s.uart).mp busy
      have start : s.remaining = 3 * (rest.length + 1) := by
        simp [remaining, more, level, polling, waits]
      omega
    next ready =>
      have empty := not_not.mp (mt (lineStatus_ready s.uart).mpr ready)
      have before : s.remaining = 3 * (rest.length + 1) - 1 := by
        simp [remaining, more, level, polling, empty]
      have after : ({ s with pc := .write } : Serial).remaining = 3 * (rest.length + 1) - 2 := by
        simp [remaining, more, level]
      omega
  next c rest more writing =>
    have before : s.remaining = 3 * (rest.length + 1) - 2 := by
      simp [remaining, more, level, writing]
    have after : ({ uart := s.uart.outb 0 c, rest := rest, pc := .poll } : Serial).remaining ≤
        3 * rest.length := by
      unfold remaining
      split
      next => exact Nat.zero_le _
      next => exact Nat.sub_le _ _
    omega

theorem Sends.remaining_run {s : Serial} {text : List U8} (h : s.Sends text)
    (events : List Event) : (s.run events).remaining ≤ s.remaining := by
  induction events generalizing s with
  | nil => exact le_rfl
  | cons e rest ih =>
      cases e with
      | statement => exact (ih h.statement).trans s.remaining_statement.1
      | transmit => exact (ih h.transmit).trans h.remaining_transmit.1

def Fair (block : List Event) : Prop := [Event.transmit, .statement].Sublist block

theorem run_append (s : Serial) (first later : List Event) :
    s.run (first ++ later) = (s.run first).run later := List.foldl_append

theorem Sends.remaining_fair {s : Serial} {text : List U8} (h : s.Sends text)
    {block : List Event} (fair : Fair block) (more : 0 < s.remaining) :
    (s.run block).remaining < s.remaining := by
  obtain ⟨before, after, rfl, sends, goesOn⟩ := List.cons_sublist_iff.mp fair
  obtain ⟨front, middle, rfl⟩ := List.append_of_mem sends
  obtain ⟨middle', last, rfl⟩ := List.append_of_mem (List.singleton_sublist.mp goesOn)
  have shape : s.run (front ++ .transmit :: middle ++ (middle' ++ .statement :: last)) =
      ((((s.run front).step .transmit).run (middle ++ middle')).step .statement).run last := by
    rw [run_append, run_append, run_append, run_append]
    rfl
  rw [shape]
  have first := h.run front
  have second : ((s.run front).step .transmit).Sends text := first.transmit
  have third := second.run (middle ++ middle')
  have fourth : ((((s.run front).step .transmit).run (middle ++ middle')).step .statement).Sends
    text := third.statement
  have untilFront := h.remaining_run front
  have sent := first.remaining_transmit
  have untilStatement := second.remaining_run (middle ++ middle')
  have stepped := remaining_statement (((s.run front).step .transmit).run (middle ++ middle'))
  have untilEnd := fourth.remaining_run last
  by_cases done : (s.run front).rest = []
  next =>
    have nothing : (s.run front).remaining = 0 := by rw [remaining, if_pos done]
    omega
  next =>
    have turn := sent.2 done
    by_cases still : (((s.run front).step .transmit).run (middle ++ middle')).remaining =
        ((s.run front).step .transmit).remaining
    next =>
      rw [still] at stepped
      have less := stepped.2 turn
      omega
    next => omega

theorem Sends.finishes {s : Serial} {text : List U8} (h : s.Sends text)
    (blocks : List (List Event)) (fair : ∀ block ∈ blocks, Fair block)
    (enough : s.remaining ≤ blocks.length) : (s.run blocks.flatten).rest = [] := by
  induction blocks generalizing s with
  | nil =>
      by_contra more
      have positive := List.length_pos_iff.mpr more
      have bound := level_le s
      have nothing : s.remaining = 0 := Nat.le_zero.mp enough
      have same : s.rest ≠ [] := more
      rw [remaining, if_neg same] at nothing
      have length : (s.run [].flatten).rest = s.rest := rfl
      rw [length] at positive
      omega
  | cons block rest ih =>
      rw [List.flatten_cons, run_append]
      apply ih (h.run block) fun later member => fair later (List.mem_cons_of_mem _ member)
      rw [List.length_cons] at enough
      by_cases more : 0 < s.remaining
      next =>
        have less := h.remaining_fair (fair block (by simp)) more
        omega
      next =>
        have least := h.remaining_run block
        omega

/-- The calls of `serial_print` one after the other; each takes its events, and has to return. -/
def prints (u : Uart) : List (List U8 × List Event) → Option Uart
  | [] => some u
  | (s, events) :: more =>
      let last := (print u s).run events
      if last.rest = [] then prints last.uart more else none

structure Ready (u : Uart) : Prop where
  open_ : u.dlab = false
  single : u.waiting.length ≤ 1

theorem Ready.sends {u : Uart} (h : Ready u) (s : List U8) :
    (print u s).Sends (u.sent ++ u.waiting ++ Vga.cString s) :=
  ⟨h.open_, rfl, h.single, fun writing => nomatch writing⟩

theorem Ready.prints {u v : Uart} (h : Ready u) {calls : List (List U8 × List Event)}
    (returned : Serial.prints u calls = some v) :
    Ready v ∧ v.sent ++ v.waiting =
      u.sent ++ u.waiting ++ calls.flatMap fun call => Vga.cString call.1 := by
  induction calls generalizing u with
  | nil =>
      obtain rfl := Option.some.inj returned
      exact ⟨h, by simp⟩
  | cons call more ih =>
      obtain ⟨s, events⟩ := call
      have sends := (h.sends s).run events
      rw [Serial.prints] at returned
      split at returned
      next done =>
        obtain ⟨ready, order⟩ := ih ⟨sends.open_, sends.single⟩ returned
        refine ⟨ready, ?_⟩
        have said := sends.order
        rw [done, List.append_nil] at said
        rw [order, said, List.flatMap_cons, List.append_assoc]
      next => cases returned

theorem Ready.returns {u : Uart} (h : Ready u) (calls : List (List U8 × List (List Event)))
    (fair : ∀ call ∈ calls, ∀ block ∈ call.2, Fair block)
    (enough : ∀ call ∈ calls, 3 * call.1.length ≤ call.2.length) :
    Serial.prints u (calls.map fun call => (call.1, call.2.flatten)) ≠ none := by
  induction calls generalizing u with
  | nil => simp [Serial.prints]
  | cons call more ih =>
      have sends := h.sends call.1
      have length : (Vga.cString call.1).length ≤ call.1.length :=
        (List.takeWhile_sublist _).length_le
      have bound : (print u call.1).remaining ≤ call.2.length := by
        have room := enough call (by simp)
        unfold remaining
        split
        next => exact Nat.zero_le _
        next =>
          simp only [print]
          omega
      have done := sends.finishes call.2 (fair call (by simp)) bound
      have last := sends.run call.2.flatten
      rw [List.map_cons, Serial.prints, if_pos done]
      exact ih ⟨last.open_, last.single⟩
        (fun later member => fair later (List.mem_cons_of_mem _ member))
        (fun later member => enough later (List.mem_cons_of_mem _ member))

-- Whatever the registers held; what was waiting is dropped.
theorem serialInit_eq (u : Uart) : ∃ interruptEnable,
    serialWrites u serialInit =
      { interruptEnable := interruptEnable
        fifoControl := 0xC7#8
        lineControl := 0x03#8
        modemControl := 0x0B#8
        divisorLow := 0x0C#8
        divisorHigh := 0x00#8
        waiting := []
        sent := u.sent } := by
  -- the first write goes to the divisor where the latch happens to be open
  by_cases access : u.lineControl[7] = true
  next =>
    refine ⟨u.interruptEnable, ?_⟩
    simp [serialWrites, serialInit, Uart.outb, Uart.dlab, access]
  next =>
    refine ⟨0x00#8, ?_⟩
    simp [serialWrites, serialInit, Uart.outb, Uart.dlab, access]

theorem ready_serialInit (u : Uart) : Ready (serialWrites u serialInit) := by
  obtain ⟨interruptEnable, shape⟩ := serialInit_eq u
  rw [shape]
  exact ⟨(by decide : (0x03#8).getLsbD 7 = false), Nat.zero_le _⟩

/--
After `serial_init`, from whatever state of the UART, strings that are printed go out as they are,
at 9600 baud: between the calls and within one, the line has carried in order what is printed so
far, but for at most one byte that waits. Where the line keeps taking bytes every call returns.
-/
theorem serial_in_order (u : Uart) :
    (serialWrites u serialInit).baud = 9600 ∧
      (∀ calls v, prints (serialWrites u serialInit) calls = some v →
        (v.waiting.length ≤ 1 ∧
          v.sent ++ v.waiting = u.sent ++ calls.flatMap fun call => Vga.cString call.1) ∧
        ∀ text events,
          let s := (print v text).run events
          s.uart.waiting.length ≤ 1 ∧ s.uart.sent ++ s.uart.waiting ++ s.rest =
            u.sent ++ (calls.flatMap fun call => Vga.cString call.1) ++ Vga.cString text) ∧
      ∀ calls : List (List U8 × List (List Event)),
        (∀ call ∈ calls, ∀ block ∈ call.2, Fair block) →
        (∀ call ∈ calls, 3 * call.1.length ≤ call.2.length) →
        prints (serialWrites u serialInit) (calls.map fun call => (call.1, call.2.flatten)) ≠
          none := by
  have ready := ready_serialInit u
  obtain ⟨interruptEnable, shape⟩ := serialInit_eq u
  refine ⟨?_, ?_, ready.returns⟩
  · rw [shape]
    exact (by decide : 115200 / (0x00#8 ++ 0x0C#8 : BitVec 16).toNat = 9600)
  · intro calls v returned
    obtain ⟨after, order⟩ := ready.prints returned
    rw [shape, List.append_nil] at order
    refine ⟨⟨after.single, order⟩, fun text events => ?_⟩
    have within := (after.sends text).run events
    exact ⟨within.single, by rw [within.order, order]⟩

-- With the latch of the divisor open, and a byte that still waits.
def leftOpen : Uart where
  interruptEnable := 0x0F#8
  fifoControl := 0x00#8
  lineControl := 0x80#8
  modemControl := 0x00#8
  divisorLow := 0x01#8
  divisorHigh := 0x00#8
  waiting := [0x3E#8]
  sent := []

theorem serial_in_order_letters :
    prints (serialWrites leftOpen serialInit)
        ([(Vga.ascii "OK", List.replicate 6 [Event.transmit, .statement])].map fun call =>
          (call.1, call.2.flatten)) ≠ none := by
  apply (serial_in_order leftOpen).2.2
  · intro call member block inside
    obtain rfl := List.mem_singleton.mp member
    rw [List.eq_of_mem_replicate inside]
    exact List.Sublist.refl _
  · intro call member
    obtain rfl := List.mem_singleton.mp member
    decide

end Serial

end Boot

end SoraOS
