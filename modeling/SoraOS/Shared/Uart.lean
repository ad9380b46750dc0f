import Mathlib.Data.BitVec

set_option autoImplicit false

/-!
The sending side of a 16550 UART: its registers, the bytes that wait in it, and the bytes that have
gone out on the line.
-/

structure Uart where
  interruptEnable : BitVec 8
  fifoControl : BitVec 8
  lineControl : BitVec 8
  modemControl : BitVec 8
  divisorLow : BitVec 8
  divisorHigh : BitVec 8
  waiting : List (BitVec 8)
  sent : List (BitVec 8)

namespace Uart

abbrev Port := BitVec 3

-- The divisor latch access bit.
def dlab (u : Uart) : Bool := u.lineControl.getLsbD 7

def capacity (u : Uart) : Nat := if u.fifoControl.getLsbD 0 then 16 else 1

-- A byte that finds no room is lost, or takes the place of the one that waits.
def put (u : Uart) (w : BitVec 8) : Uart :=
  if u.waiting.length < u.capacity then { u with waiting := u.waiting ++ [w] }
  else if u.fifoControl.getLsbD 0 then u
  else { u with waiting := [w] }

def outb (u : Uart) (port : Port) (w : BitVec 8) : Uart :=
  match port with
  | 0 => if u.dlab then { u with divisorLow := w } else u.put w
  | 1 => if u.dlab then { u with divisorHigh := w } else { u with interruptEnable := w }
  -- bit 2 empties the buffer, and so does a change of bit 0
  | 2 =>
      { u with
        fifoControl := w
        waiting :=
          if w.getLsbD 2 || w.getLsbD 0 != u.fifoControl.getLsbD 0 then [] else u.waiting }
  | 3 => { u with lineControl := w }
  | 4 => { u with modemControl := w }
  | _ => u

-- The line status register, of which only bit 5 is kept: nothing waits.
def lineStatus (u : Uart) : BitVec 8 := if u.waiting = [] then 0x20#8 else 0x00#8

def transmit (u : Uart) : Uart :=
  match u.waiting with
  | [] => u
  | w :: rest => { u with waiting := rest, sent := u.sent ++ [w] }

def baud (u : Uart) : Nat := 115200 / (u.divisorHigh ++ u.divisorLow).toNat

theorem transmit_order (u : Uart) : u.transmit.sent ++ u.transmit.waiting = u.sent ++ u.waiting := by
  unfold transmit
  split
  next => rfl
  next w rest shape => simp [shape]

@[simp] theorem transmit_lineControl (u : Uart) : u.transmit.lineControl = u.lineControl := by
  unfold transmit
  split <;> rfl

theorem transmit_waiting (u : Uart) : u.transmit.waiting = u.waiting.tail := by
  unfold transmit
  split
  next empty => rw [empty]; rfl
  next w rest shape => rw [shape]; rfl

theorem put_empty {u : Uart} (empty : u.waiting = []) (w : BitVec 8) :
    u.put w = { u with waiting := [w] } := by
  have room : u.waiting.length < u.capacity := by
    rw [empty, capacity]
    split <;> decide
  rw [put, if_pos room, empty, List.nil_append]

end Uart
