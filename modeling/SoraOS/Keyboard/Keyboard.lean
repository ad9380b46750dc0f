import SoraOS.Memory.Pmm
import SoraOS.Shared.RingBuffer

set_option autoImplicit false

namespace SoraOS

/-- `kb_buffer` with its `uint8_t` indices, and `shift_held`. -/
structure Keyboard extends RingBuffer 8 U8 where
  shiftHeld : U8

namespace Keyboard

def ascii (text : List Char) : List U8 := text.map fun c => BitVec.ofNat 8 c.toNat

def scancodeNormal : List U8 :=
  [0x00#8, 0x00#8] ++ -- unused, Escape
  ascii ['1', '2', '3', '4', '5', '6', '7', '8', '9', '0', '-', '='] ++
  [0x08#8, 0x09#8] ++ -- Backspace, Tab
  ascii ['q', 'w', 'e', 'r', 't', 'y', 'u', 'i', 'o', 'p', '[', ']'] ++
  [0x0A#8, 0x00#8] ++ -- Enter, Left Ctrl
  ascii ['a', 's', 'd', 'f', 'g', 'h', 'j', 'k', 'l', ';'] ++
  [0x27#8, 0x60#8, 0x00#8, 0x5C#8] ++ -- quote, grave accent, Left Shift, backslash
  ascii ['z', 'x', 'c', 'v', 'b', 'n', 'm', ',', '.', '/'] ++
  [0x00#8, 0x2A#8, 0x00#8, 0x20#8] ++ -- Right Shift, Keypad *, Left Alt, Space
  List.replicate 13 0x00#8 ++ -- Caps Lock, F1-F10, Num Lock, Scroll Lock
  ascii ['7', '8', '9', '-', '4', '5', '6', '+', '1', '2', '3', '0', '.'] ++
  List.replicate 44 0x00#8

def scancodeShifted : List U8 :=
  [0x00#8, 0x00#8] ++
  ascii ['!', '@', '#', '$', '%', '^', '&', '*', '(', ')', '_', '+'] ++
  [0x08#8, 0x09#8] ++
  ascii ['Q', 'W', 'E', 'R', 'T', 'Y', 'U', 'I', 'O', 'P'] ++
  [0x7B#8, 0x7D#8] ++ -- braces
  [0x0A#8, 0x00#8] ++
  ascii ['A', 'S', 'D', 'F', 'G', 'H', 'J', 'K', 'L', ':'] ++
  [0x22#8, 0x7E#8, 0x00#8, 0x7C#8] ++ -- double quote, tilde, Left Shift, bar
  ascii ['Z', 'X', 'C', 'V', 'B', 'N', 'M', '<', '>', '?'] ++
  [0x00#8, 0x2A#8, 0x00#8, 0x20#8] ++
  List.replicate 13 0x00#8 ++
  ascii ['7', '8', '9', '-', '4', '5', '6', '+', '1', '2', '3', '0', '.'] ++
  List.replicate 44 0x00#8

-- Both tables cover every make code, and shift does not change which keys are mapped.
theorem scancode_tables :
    scancodeNormal.length = 128 ∧ scancodeShifted.length = 128 ∧
      ∀ i < 128, scancodeNormal.getD i 0#8 = 0#8 ↔ scancodeShifted.getD i 0#8 = 0#8 := by
  decide +kernel

inductive Outcome where
  | ignored
  | pushed (c : U8)
  | discarded (c : U8)

def translate (shiftHeld scancode : U8) : U8 :=
  (if shiftHeld ≠ 0#8 then scancodeShifted else scancodeNormal).getD
    (scancode &&& 0x7F#8).toNat 0#8

/-- The body of the IRQ1 handler; it runs with interrupts off. -/
def keyboardHandler (k : Keyboard) (scancode : U8) : Outcome × Keyboard :=
  -- shift press, shift release, then all other break codes
  if scancode = 0x2A#8 ∨ scancode = 0x36#8 then (.ignored, { k with shiftHeld := 1#8 })
  else if scancode = 0xAA#8 ∨ scancode = 0xB6#8 then (.ignored, { k with shiftHeld := 0#8 })
  else if scancode &&& 0x80#8 ≠ 0#8 then (.ignored, k)
  else
    let c := translate k.shiftHeld scancode
    if c = 0#8 then (.ignored, k)
    else
      let nextHead := k.head + 1#8
      if nextHead ≠ k.tail then
        (.pushed c, { k with buffer := Function.update k.buffer k.head c, head := nextHead })
      else (.discarded c, k)

inductive GetcharPc where
  | test
  | read
  | advance (c : U8)

/-- One statement; a finished call returns its result, and the next call starts at `test`. -/
def keyboardGetchar (k : Keyboard) : GetcharPc → Option U8 × GetcharPc × Keyboard
  | .test => if k.head = k.tail then (some 0#8, .test, k) else (none, .read, k)
  | .read => (none, .advance (k.buffer k.tail), k)
  -- `kb_tail = ...; return c;`
  | .advance c => (some c, .test, { k with tail := k.tail + 1#8 })

theorem handler_shiftHeld (k : Keyboard) (scancode : U8) :
    (k.keyboardHandler scancode).2.shiftHeld =
      if scancode = 0x2A#8 ∨ scancode = 0x36#8 then 1#8
      else if scancode = 0xAA#8 ∨ scancode = 0xB6#8 then 0#8
      else k.shiftHeld := by
  rw [keyboardHandler]
  split
  next => rfl
  next =>
    split
    next => rfl
    next =>
      split
      next => rfl
      next =>
        dsimp only
        split
        next => rfl
        next =>
          split
          next => rfl
          next => rfl

theorem getchar_shiftHeld (k : Keyboard) (pc : GetcharPc) :
    (k.keyboardGetchar pc).2.2.shiftHeld = k.shiftHeld := by
  cases pc with
  | test =>
      rw [keyboardGetchar]
      split
      next => rfl
      next => rfl
  | read => rfl
  | advance c => rfl

/-- `keyboard_init`; the buffer keeps what it held. -/
def keyboardInit (buffer : U8 → U8) : Keyboard where
  buffer := buffer
  head := 0#8
  tail := 0#8
  shiftHeld := 0#8

inductive Event where
  | irq (scancode : U8)
  | statement

structure State where
  keyboard : Keyboard
  pc : GetcharPc

inductive Shown where
  | handled (outcome : Outcome)
  | running
  | returned (c : U8)

def step (s : State) : Event → Shown × State
  | .irq scancode =>
      let (outcome, keyboard) := s.keyboard.keyboardHandler scancode
      (.handled outcome, { s with keyboard := keyboard })
  | .statement =>
      let (result, pc, keyboard) := s.keyboard.keyboardGetchar s.pc
      (match result with
        | some c => .returned c
        | none => .running, { keyboard := keyboard, pc := pc })

def run (s : State) : List Event → List Shown × State
  | [] => ([], s)
  | e :: rest =>
      let (shown, s) := step s e
      let (later, s) := run s rest
      (shown :: later, s)

end Keyboard

end SoraOS
