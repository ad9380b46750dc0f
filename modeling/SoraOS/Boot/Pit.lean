import SoraOS.Boot.Interrupts
import SoraOS.Shared.I8254

set_option autoImplicit false

/-! `pit.c`: the rate of the timer interrupts. -/

namespace SoraOS

namespace Boot

open I8254

def pitChannel0 : BitVec 16 := 0x40#16
def pitCmd : BitVec 16 := 0x43#16
def pitCmdChannel0Mode3 : U8 := 0x36#8
def pitBaseFreq : U32 := 1193182#32

def pitWrite (t : Timer) (write : Write) : Timer :=
  if write.1 = pitCmd then t.control write.2
  else if write.1 = 0x40#16 then t.write 0 write.2
  else if write.1 = 0x41#16 then t.write 1 write.2
  else if write.1 = 0x42#16 then t.write 2 write.2
  else t

def pitWrites (t : Timer) (writes : List Write) : Timer := writes.foldl pitWrite t

-- `none` where the CPU faults on the division.
def pitDivisor (frequencyHz : U32) : Option (BitVec 16) :=
  if frequencyHz = 0#32 then none else some ((pitBaseFreq / frequencyHz).setWidth 16)

def pitInit {σ : Type} (handlers : Handlers σ) (timerHandler : σ → σ) (frequencyHz : U32) :
    Option (List Write × Handlers σ) := do
  let divisor ← pitDivisor frequencyHz
  return ([(pitCmd, pitCmdChannel0Mode3),
      (pitChannel0, (divisor &&& 0xFF#16).setWidth 8),
      (pitChannel0, ((divisor >>> 8) &&& 0xFF#16).setWidth 8)],
    irqRegisterHandler handlers 0#8 timerHandler)

theorem irqRegisterHandler_get {σ : Type} (handlers : Handlers σ) (irq : U8) (handler : σ → σ)
    (i : Fin irqCount) : (irqRegisterHandler handlers irq handler).get i =
      if i.val = irq.toNat then some handler else handlers.get i := by
  rw [irqRegisterHandler]
  split
  next inside =>
    have set := @Vector.getElem_set _ _ handlers irq.toNat (some handler) inside i.val i.isLt
    simp only [eq_comm (a := irq.toNat)] at set
    exact set
  next outside =>
    have inside := i.isLt
    rw [if_neg (by omega)]

theorem handlers_booted {σ : Type} (timerHandler keyboardHandler : σ → σ) (irq : Fin irqCount) :
    (irqRegisterHandler (irqRegisterHandler (Vector.replicate irqCount none) 0#8 timerHandler) 1#8
        keyboardHandler).get irq =
      if irq.val = 0 then some timerHandler else if irq.val = 1 then some keyboardHandler
        else none := by
  rw [irqRegisterHandler_get, irqRegisterHandler_get]
  have one : (1#8 : U8).toNat = 1 := rfl
  have zero : (0#8 : U8).toNat = 0 := rfl
  rw [one, zero]
  split <;> split <;> first | rfl | omega | simp_all [Vector.get]

def Accurate (period frequency : Nat) : Prop :=
  period * frequency ≤ pitBaseFreq.toNat ∧ pitBaseFreq.toNat < (period + 1) * frequency

theorem accurate_iff {period frequency : Nat} (positive : 0 < frequency) :
    Accurate period frequency ↔ period = pitBaseFreq.toNat / frequency := by
  rw [Accurate, eq_comm, Nat.div_eq_iff positive, Nat.add_mul, Nat.one_mul]
  omega

-- 16 bits are enough for the quotient, which is neither 0 nor 1.
theorem quotient_fits {frequency count : Nat} (positive : 0 < frequency)
    (low : count = pitBaseFreq.toNat / frequency % 2 ^ 16) :
    count ≠ 1 ∧ (if count = 0 then 2 ^ 16 else count) = pitBaseFreq.toNat / frequency ↔
      19 ≤ frequency ∧ 2 * frequency ≤ pitBaseFreq.toNat := by
  have base : pitBaseFreq.toNat = 1193182 := rfl
  rw [base] at low ⊢
  have least := Nat.le_div_iff_mul_le (x := 2) (y := 1193182) positive
  have most := Nat.div_lt_iff_lt_mul (x := 1193182) (y := 2 ^ 16) positive
  have bounds := Nat.div_add_mod 1193182 frequency
  have rest := Nat.mod_lt 1193182 positive
  generalize 1193182 / frequency = d at *
  -- no frequency gives 65536 itself
  have notFull : d ≠ 2 ^ 16 := by
    rintro rfl
    omega
  split <;> omega

theorem pitWrite_mode (t : Timer) : pitWrite t (pitCmd, pitCmdChannel0Mode3) =
    Function.update t 0
      { access := .lowHigh, mode := 3#3, bcd := false, first := none, count := none } := rfl

theorem pitWrite_channel0 (t : Timer) (w : U8) : pitWrite t (pitChannel0, w) = t.write 0 w := rfl

theorem pitWrites_divisor (t : Timer) (divisor : BitVec 16) :
    pitWrites t [(pitCmd, pitCmdChannel0Mode3),
        (pitChannel0, (divisor &&& 0xFF#16).setWidth 8),
        (pitChannel0, ((divisor >>> 8) &&& 0xFF#16).setWidth 8)] =
      Function.update t 0
        { access := .lowHigh, mode := 3#3, bcd := false, first := none
          count := some divisor } := by
  have bytes : ((divisor >>> 8) &&& 0xFF#16).setWidth 8 ++ (divisor &&& 0xFF#16).setWidth 8 =
      divisor := by
    apply BitVec.eq_of_getLsbD_eq
    intro i within
    have ones : ∀ j < 8, (0xFF#16).getLsbD j = true := by decide
    simp only [BitVec.getLsbD_append, BitVec.getLsbD_setWidth, BitVec.getLsbD_and,
      BitVec.getLsbD_ushiftRight]
    grind
  simp only [pitWrites, List.foldl_cons, List.foldl_nil, pitWrite_mode, pitWrite_channel0,
    Timer.write, Function.update_self, Function.update_idem, Channel.write, bytes]

/--
`pit_init` divides by zero only for a frequency of 0. Else, whatever the timer was told before,
channel 0 gets the right period exactly from 19 Hz up to half the frequency of the oscillator.
-/
theorem pit_rate {σ : Type} (t : Timer) (handlers : Handlers σ) (timerHandler : σ → σ)
    (frequencyHz : U32) :
    (pitInit handlers timerHandler frequencyHz = none ↔ frequencyHz = 0#32) ∧
      ∀ writes handlers', pitInit handlers timerHandler frequencyHz = some (writes, handlers') →
        (∀ irq, handlers'.get irq = if irq.val = 0 then some timerHandler else handlers.get irq) ∧
          (∀ channel ≠ 0, pitWrites t writes channel = t channel) ∧
          (pitWrites t writes 0).mode = 3#3 ∧
          ((∃ period, (pitWrites t writes 0).period = some period ∧
              Accurate period frequencyHz.toNat) ↔
            19 ≤ frequencyHz.toNat ∧ 2 * frequencyHz.toNat ≤ pitBaseFreq.toNat) := by
  by_cases zero : frequencyHz = 0#32
  next => simp [pitInit, pitDivisor, zero]
  next =>
    rw [pitInit, pitDivisor, if_neg zero]
    refine ⟨by simp [zero], ?_⟩
    intro writes handlers' made
    obtain ⟨rfl, rfl⟩ := Prod.mk.inj (Option.some.inj made)
    rw [pitWrites_divisor]
    refine ⟨irqRegisterHandler_get handlers 0#8 timerHandler, ?_, by simp, ?_⟩
    · intro channel other
      rw [Function.update_of_ne other]
    · have positive : 0 < frequencyHz.toNat := by
        by_contra none
        exact zero (BitVec.eq_of_toNat_eq (by simpa using none))
      have quotient : ((pitBaseFreq / frequencyHz).setWidth 16).toNat =
          pitBaseFreq.toNat / frequencyHz.toNat % 2 ^ 16 := by
        rw [BitVec.toNat_setWidth, BitVec.toNat_udiv]
      rw [← quotient_fits positive quotient]
      simp only [Function.update_self, Channel.period, accurate_iff positive]
      generalize (pitBaseFreq / frequencyHz).setWidth 16 = count
      have one : count = 1#16 ↔ count.toNat = 1 := by rw [← BitVec.toNat_inj]; rfl
      have null : count = 0#16 ↔ count.toNat = 0 := by rw [← BitVec.toNat_inj]; rfl
      have mode : (3#3).getLsbD 1 = true := by decide
      simp only [Option.bind_eq_bind, Option.bind_some, Bool.false_or, mode, Bool.not_true, one,
        null]
      by_cases illegal : count.toNat = 1
      next => simp [illegal]
      next =>
        by_cases none : count.toNat = 0
        next => simp [none]
        next => simp [illegal, none]

end Boot

end SoraOS
