import Mathlib.Data.BitVec

set_option autoImplicit false

/-!
# The interval timer 8254, as a channel is programmed

A control word starts a channel anew; the count is then written a byte at a time.
-/

namespace I8254

inductive Access where
  | low
  | high
  | lowHigh
  deriving DecidableEq

/-- One channel; `first` is the low byte that waits for the high one. -/
structure Channel where
  access : Access
  mode : BitVec 3
  bcd : Bool
  first : Option (BitVec 8)
  count : Option (BitVec 16)
  deriving DecidableEq

namespace Channel

-- A control word for this channel; access 0 only latches the count for reading.
def control (c : Channel) (w : BitVec 8) : Channel :=
  let programmed (access : Access) : Channel :=
    { access := access, mode := w.extractLsb' 1 3, bcd := w.getLsbD 0, first := none, count := none }
  match (w.extractLsb' 4 2).toNat with
  | 0 => c
  | 1 => programmed .low
  | 2 => programmed .high
  | _ => programmed .lowHigh

def write (c : Channel) (w : BitVec 8) : Channel :=
  match c.access, c.first with
  | .low, _ => { c with count := some (0#8 ++ w) }
  | .high, _ => { c with count := some (w ++ 0#8) }
  | .lowHigh, none => { c with first := some w }
  | .lowHigh, some low => { c with first := none, count := some (w ++ low) }

/--
The input clocks from one output pulse to the next in modes 2 and 3 with a binary count. A count
of 0 stands for 65536, and 1 is not allowed.
-/
def period (c : Channel) : Option Nat := do
  let count ← c.count
  if c.bcd || !c.mode.getLsbD 1 || count = 1#16 then none
  else if count = 0#16 then return 2 ^ 16
  else return count.toNat

end Channel

abbrev Timer := Fin 3 → Channel

namespace Timer

-- The control port names the channel in its two upper bits; 3 only reads back.
def control (t : Timer) (w : BitVec 8) : Timer :=
  if inside : (w.extractLsb' 6 2).toNat < 3 then
    let channel : Fin 3 := ⟨(w.extractLsb' 6 2).toNat, inside⟩
    Function.update t channel ((t channel).control w)
  else t

def write (t : Timer) (channel : Fin 3) (w : BitVec 8) : Timer :=
  Function.update t channel ((t channel).write w)

end Timer

end I8254
