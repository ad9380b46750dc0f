import SoraOS.Shared.ByteMemory

set_option autoImplicit false

/-!
# Stack instructions and interrupts

`ByteMachine` is a 32-bit CPU in ring 0 with flat segments over a memory of bytes. In `StackMachine`
the stack is a list of words; a stack too long to fit below itself is not pushed to. The first
does what the second says.
-/

namespace X86

inductive Seg where
  | cs
  | ss
  | ds
  | es
  | fs
  | gs
  deriving DecidableEq, Repr

-- EIP changes at jumps, calls, returns and interrupts only.
@[ext] structure Registers where
  reg : Reg → Word
  seg : Seg → BitVec 16
  eip : Word
  eflags : Word

/-- What a gate of the interrupt table says; a trap gate leaves IF as it is. -/
structure Gate where
  offset : Word
  selector : BitVec 16
  trap : Bool

inductive StackInstr where
  | pushImm (w : Word)
  | pushReg (r : Reg)
  | popReg (r : Reg)
  | pusha
  | popa
  -- `mov ax, s`
  | movAxSeg (s : Seg)
  -- `mov ax, w`
  | movAxImm (w : BitVec 16)
  -- `mov s, ax`
  | movSegAx (s : Seg)
  -- `add r, w`
  | addImm (r : Reg) (w : Word)
  | jmp (target : Word)
  -- `next` is the address of the instruction after the call
  | call (target next : Word)
  -- to the same privilege level
  | iret

def withLow (w : Word) (low : BitVec 16) : Word := w.extractLsb' 16 16 ++ low

@[simp] theorem setWidth_withLow (w : Word) (low : BitVec 16) : (withLow w low).setWidth 16 = low :=
  BitVec.setWidth_append_eq_right

@[simp] theorem withLow_withLow (w : Word) (low low' : BitVec 16) :
    withLow (withLow w low) low' = withLow w low' := by
  rw [withLow, withLow, BitVec.extractLsb'_append_eq_left, withLow]

-- EFLAGS after the addition of `a` and `b`: CF, PF, AF, ZF, SF and OF.
def addFlags (eflags a b : Word) : Word :=
  let sum := a + b
  let flag (bit : Nat) (value : Bool) : Word := if value then BitVec.twoPow 32 bit else 0#32
  let ones := (List.range 8).countP sum.getLsbD
  (eflags &&& ~~~0x8D5#32) ||| flag 0 (decide (2 ^ 32 ≤ a.toNat + b.toNat)) |||
    flag 2 (ones % 2 == 0) ||| flag 4 ((a ^^^ b ^^^ sum).getLsbD 4) |||
    flag 6 (sum == 0#32) ||| flag 7 sum.msb |||
    flag 11 ((a ^^^ sum).msb && (b ^^^ sum).msb)

-- EFLAGS as a handler starts: without TF, NT, RF and VM, and behind an interrupt gate without IF.
def gateFlags (eflags : Word) (trap : Bool) : Word :=
  eflags &&& ~~~(if trap then 0x34100#32 else 0x34300#32)

namespace Registers

def set (c : Registers) (r : Reg) (w : Word) : Registers :=
  { c with reg := Function.update c.reg r w }

def setSeg (c : Registers) (s : Seg) (selector : BitVec 16) : Registers :=
  { c with seg := Function.update c.seg s selector }

@[simp] theorem set_reg (c : Registers) (r r' : Reg) (w : Word) :
    (c.set r w).reg r' = if r' = r then w else c.reg r' := Function.update_apply _ _ _ _
@[simp] theorem set_seg (c : Registers) (r : Reg) (w : Word) : (c.set r w).seg = c.seg := rfl
@[simp] theorem set_eip (c : Registers) (r : Reg) (w : Word) : (c.set r w).eip = c.eip := rfl
@[simp] theorem set_eflags (c : Registers) (r : Reg) (w : Word) :
    (c.set r w).eflags = c.eflags := rfl

@[simp] theorem setSeg_reg (c : Registers) (s : Seg) (w : BitVec 16) :
    (c.setSeg s w).reg = c.reg := rfl
@[simp] theorem setSeg_seg (c : Registers) (s s' : Seg) (w : BitVec 16) :
    (c.setSeg s w).seg s' = if s' = s then w else c.seg s' := Function.update_apply _ _ _ _
@[simp] theorem setSeg_eip (c : Registers) (s : Seg) (w : BitVec 16) :
    (c.setSeg s w).eip = c.eip := rfl
@[simp] theorem setSeg_eflags (c : Registers) (s : Seg) (w : BitVec 16) :
    (c.setSeg s w).eflags = c.eflags := rfl

def setAx (c : Registers) (w : BitVec 16) : Registers := c.set .eax (withLow (c.reg .eax) w)

def addImm (c : Registers) (r : Reg) (w : Word) : Registers :=
  { c.set r (c.reg r + w) with eflags := addFlags c.eflags (c.reg r) w }

def jump (c : Registers) (target : Word) : Registers := { c with eip := target }

def enter (c : Registers) (gate : Gate) : Registers :=
  { c.setSeg .cs gate.selector with eip := gate.offset, eflags := gateFlags c.eflags gate.trap }

@[simp] theorem set_set (c : Registers) (r : Reg) (w w' : Word) :
    (c.set r w).set r w' = c.set r w' := by
  rw [set, set, Function.update_idem, set]

@[simp] theorem jump_reg (c : Registers) (target : Word) : (c.jump target).reg = c.reg := rfl
@[simp] theorem jump_seg (c : Registers) (target : Word) : (c.jump target).seg = c.seg := rfl
@[simp] theorem jump_eip (c : Registers) (target : Word) : (c.jump target).eip = target := rfl
@[simp] theorem enter_seg (c : Registers) (gate : Gate) :
    (c.enter gate).seg = (c.setSeg .cs gate.selector).seg := rfl
@[simp] theorem enter_eip (c : Registers) (gate : Gate) : (c.enter gate).eip = gate.offset := rfl
@[simp] theorem enter_reg (c : Registers) (gate : Gate) : (c.enter gate).reg = c.reg := rfl

theorem set_esp_set (c : Registers) {r : Reg} (notEsp : r ≠ .esp) (w v : Word) :
    (c.set .esp w).set r v = (c.set r v).set .esp w := by
  rw [set, set, set, set, Function.update_comm notEsp]
@[simp] theorem set_jump (c : Registers) (r : Reg) (w target : Word) :
    (c.set r w).jump target = (c.jump target).set r w := rfl
@[simp] theorem set_enter (c : Registers) (r : Reg) (w : Word) (gate : Gate) :
    (c.set r w).enter gate = (c.enter gate).set r w := rfl
@[simp] theorem set_setSeg (c : Registers) (r : Reg) (w : Word) (s : Seg) (selector : BitVec 16) :
    (c.set r w).setSeg s selector = (c.setSeg s selector).set r w := rfl

@[simp] theorem set_esp_setAx (c : Registers) (w : Word) (low : BitVec 16) :
    (c.set .esp w).setAx low = (c.setAx low).set .esp w := by
  rw [setAx, setAx, ← set_esp_set c (by decide), set_reg, if_neg (by decide)]

def interruptWords (c : Registers) (errorCode : Option Word) : List Word :=
  [c.eflags, (c.seg .cs).setWidth 32, c.eip] ++ errorCode.toList

def resume (c : Registers) (eip cs eflags : Word) : Registers :=
  { c.setSeg .cs (cs.setWidth 16) with eip := eip, eflags := eflags }

@[simp] theorem addImm_reg (c : Registers) (r r' : Reg) (w : Word) :
    (c.addImm r w).reg r' = if r' = r then c.reg r + w else c.reg r' := set_reg _ _ _ _
@[simp] theorem addImm_seg (c : Registers) (r : Reg) (w : Word) : (c.addImm r w).seg = c.seg := rfl

@[simp] theorem resume_reg (c : Registers) (eip cs eflags : Word) :
    (c.resume eip cs eflags).reg = c.reg := rfl
@[simp] theorem resume_seg (c : Registers) (eip cs eflags : Word) :
    (c.resume eip cs eflags).seg = (c.setSeg .cs (cs.setWidth 16)).seg := rfl
@[simp] theorem resume_eip (c : Registers) (eip cs eflags : Word) :
    (c.resume eip cs eflags).eip = eip := rfl
@[simp] theorem resume_eflags (c : Registers) (eip cs eflags : Word) :
    (c.resume eip cs eflags).eflags = eflags := rfl

def pushaOrder : List Reg := [.eax, .ecx, .edx, .ebx, .esp, .ebp, .esi, .edi]

end Registers

structure ByteMachine where
  cpu : Registers
  memory : Memory

namespace ByteMachine

def push (m : ByteMachine) (w : Word) : ByteMachine where
  cpu := m.cpu.set .esp (m.cpu.reg .esp - 4#32)
  memory := storeWord m.memory (m.cpu.reg .esp - 4#32) w

def pushAll (m : ByteMachine) (ws : List Word) : ByteMachine := ws.foldl push m

def top (m : ByteMachine) : Word := loadWord m.memory (m.cpu.reg .esp)

def pop (m : ByteMachine) : ByteMachine := { m with cpu := m.cpu.set .esp (m.cpu.reg .esp + 4#32) }

-- `pop esp` leaves the popped word in ESP.
def popReg (m : ByteMachine) (r : Reg) : ByteMachine := { m.pop with cpu := m.pop.cpu.set r m.top }

def exec (m : ByteMachine) : StackInstr → ByteMachine
  | .pushImm w => m.push w
  | .pushReg r => m.push (m.cpu.reg r)
  | .popReg r => m.popReg r
  -- every word is from before the instruction, ESP too
  | .pusha => m.pushAll (Registers.pushaOrder.map m.cpu.reg)
  -- the word at ESP's place is skipped
  | .popa =>
      ((((((((m.popReg .edi).popReg .esi).popReg .ebp).pop).popReg .ebx).popReg .edx).popReg
        .ecx).popReg .eax)
  | .movAxSeg s => { m with cpu := m.cpu.setAx (m.cpu.seg s) }
  | .movAxImm w => { m with cpu := m.cpu.setAx w }
  | .movSegAx s => { m with cpu := m.cpu.setSeg s ((m.cpu.reg .eax).setWidth 16) }
  | .addImm r w => { m with cpu := m.cpu.addImm r w }
  | .jmp target => { m with cpu := m.cpu.jump target }
  | .call target next => { m.push next with cpu := (m.push next).cpu.jump target }
  | .iret =>
      { m.pop.pop.pop with cpu := m.pop.pop.pop.cpu.resume m.top m.pop.top m.pop.pop.top }

def run (m : ByteMachine) (text : List StackInstr) : ByteMachine := text.foldl exec m

def interrupt (m : ByteMachine) (gate : Gate) (errorCode : Option Word) : ByteMachine :=
  let pushed := m.pushAll (m.cpu.interruptWords errorCode)
  { pushed with cpu := pushed.cpu.enter gate }

end ByteMachine

structure StackMachine where
  cpu : Registers
  stack : List Word

namespace StackMachine

def push (s : StackMachine) (w : Word) : Option StackMachine :=
  if 4 * (s.stack.length + 1) ≤ 2 ^ 32 then
    some { cpu := s.cpu.set .esp (s.cpu.reg .esp - 4#32), stack := w :: s.stack }
  else none

def pushAll (s : StackMachine) (ws : List Word) : Option StackMachine := ws.foldlM push s

theorem pushAll_eq (s : StackMachine) (ws : List Word)
    (room : 4 * (s.stack.length + ws.length) ≤ 2 ^ 32) :
    s.pushAll ws =
      some { cpu := s.cpu.set .esp (s.cpu.reg .esp - BitVec.ofNat 32 (4 * ws.length))
             stack := ws.reverse ++ s.stack } := by
  induction ws generalizing s with
  | nil => simp [pushAll, Registers.set]
  | cons w ws ih =>
      rw [List.length_cons] at room
      have first : s.push w =
          some { cpu := s.cpu.set .esp (s.cpu.reg .esp - 4#32), stack := w :: s.stack } :=
        if_pos (by omega)
      have rest := ih { cpu := s.cpu.set .esp (s.cpu.reg .esp - 4#32), stack := w :: s.stack }
        (by rw [List.length_cons]; omega)
      rw [pushAll, List.foldlM_cons, first, Option.bind_eq_bind, Option.bind_some]
      rw [pushAll] at rest
      have esp : s.cpu.reg .esp - 4#32 - BitVec.ofNat 32 (4 * ws.length) =
          s.cpu.reg .esp - BitVec.ofNat 32 (4 * (ws.length + 1)) := by
        rw [Nat.mul_add, BitVec.ofNat_add]
        bv_omega
      rw [rest, Registers.set_reg, if_pos rfl, Registers.set_set, esp, List.length_cons,
        List.reverse_cons, List.append_assoc]
      rfl

def pop (s : StackMachine) : Option (Word × StackMachine) :=
  match s.stack with
  | [] => none
  | w :: rest => some (w, { cpu := s.cpu.set .esp (s.cpu.reg .esp + 4#32), stack := rest })

def popReg (s : StackMachine) (r : Reg) : Option StackMachine :=
  if r = .esp then none else s.pop.map fun p => { p.2 with cpu := p.2.cpu.set r p.1 }

-- `none` when the instruction needs more of the stack than the list, or moves ESP otherwise.
def exec (s : StackMachine) : StackInstr → Option StackMachine
  | .pushImm w => s.push w
  | .pushReg r => s.push (s.cpu.reg r)
  | .popReg r => s.popReg r
  | .pusha => s.pushAll (Registers.pushaOrder.map s.cpu.reg)
  | .popa => do
      let s ← s.popReg .edi
      let s ← s.popReg .esi
      let s ← s.popReg .ebp
      let p ← s.pop
      let s ← p.2.popReg .ebx
      let s ← s.popReg .edx
      let s ← s.popReg .ecx
      s.popReg .eax
  | .movAxSeg g => some { s with cpu := s.cpu.setAx (s.cpu.seg g) }
  | .movAxImm w => some { s with cpu := s.cpu.setAx w }
  | .movSegAx g => some { s with cpu := s.cpu.setSeg g ((s.cpu.reg .eax).setWidth 16) }
  | .addImm r w =>
      if r = .esp then
        if 4 ∣ w.toNat ∧ w.toNat ≤ 4 * s.stack.length then
          some { cpu := s.cpu.addImm r w, stack := s.stack.drop (w.toNat / 4) }
        else none
      else some { s with cpu := s.cpu.addImm r w }
  | .jmp target => some { s with cpu := s.cpu.jump target }
  | .call target next => (s.push next).map fun s => { s with cpu := s.cpu.jump target }
  | .iret => do
      let eip ← s.pop
      let cs ← eip.2.pop
      let eflags ← cs.2.pop
      return { eflags.2 with cpu := eflags.2.cpu.resume eip.1 cs.1 eflags.1 }

def run (s : StackMachine) (text : List StackInstr) : Option StackMachine := text.foldlM exec s

def interrupt (s : StackMachine) (gate : Gate) (errorCode : Option Word) : Option StackMachine :=
  (s.pushAll (s.cpu.interruptWords errorCode)).map fun s => { s with cpu := s.cpu.enter gate }

end StackMachine

/-- The words of the list are in memory from ESP on. -/
structure Refines (m : ByteMachine) (s : StackMachine) : Prop where
  cpu : m.cpu = s.cpu
  stack : WordsAt m.memory (m.cpu.reg .esp) s.stack

namespace Refines

variable {m : ByteMachine} {s s' : StackMachine}

theorem update (refines : Refines m s) {cpu : Registers} (esp : cpu.reg .esp = s.cpu.reg .esp) :
    Refines { m with cpu := cpu } { s with cpu := cpu } := by
  constructor
  next => rfl
  next =>
    rw [esp, ← refines.cpu]
    exact refines.stack

theorem push (refines : Refines m s) {w : Word} (pushed : s.push w = some s') :
    Refines (m.push w) s' := by
  obtain ⟨same, words⟩ := refines
  rw [StackMachine.push] at pushed
  split at pushed
  next room =>
    cases pushed
    constructor
    next => rw [ByteMachine.push, same]
    next =>
      rw [ByteMachine.push, Registers.set_reg, if_pos rfl]
      exact words.store w room
  next => cases pushed

theorem pushAll (refines : Refines m s) {ws : List Word} (pushed : s.pushAll ws = some s') :
    Refines (m.pushAll ws) s' := by
  induction ws generalizing m s with
  | nil =>
      cases pushed
      exact refines
  | cons w ws ih =>
      rw [StackMachine.pushAll, List.foldlM_cons, Option.bind_eq_bind,
        Option.bind_eq_some_iff] at pushed
      obtain ⟨s₁, first, rest⟩ := pushed
      exact ih (refines.push first) rest

theorem pop (refines : Refines m s) {p : Word × StackMachine} (popped : s.pop = some p) :
    m.top = p.1 ∧ Refines m.pop p.2 := by
  obtain ⟨same, words⟩ := refines
  rw [StackMachine.pop] at popped
  split at popped
  next => cases popped
  next w rest shape =>
    cases popped
    rw [shape, wordsAt_cons] at words
    refine ⟨words.1, by rw [ByteMachine.pop, same], ?_⟩
    rw [ByteMachine.pop, Registers.set_reg, if_pos rfl]
    exact words.2

theorem popReg (refines : Refines m s) {r : Reg} (popped : s.popReg r = some s') :
    Refines (m.popReg r) s' := by
  rw [StackMachine.popReg] at popped
  split at popped
  next => cases popped
  next notEsp =>
    obtain ⟨p, first, rfl⟩ := Option.map_eq_some_iff.mp popped
    obtain ⟨top, rest⟩ := refines.pop first
    rw [ByteMachine.popReg, top, rest.cpu]
    apply rest.update
    rw [Registers.set_reg, if_neg (Ne.symm notEsp)]

theorem addEsp (refines : Refines m s) {w : Word} (aligned : 4 ∣ w.toNat) :
    Refines (m.exec (.addImm .esp w))
      { cpu := s.cpu.addImm .esp w, stack := s.stack.drop (w.toNat / 4) } := by
  obtain ⟨same, words⟩ := refines
  constructor
  next => rw [ByteMachine.exec, same]
  next =>
    have dropped := words.drop (w.toNat / 4)
    rw [Nat.mul_div_cancel' aligned, BitVec.ofNat_toNat, BitVec.setWidth_eq] at dropped
    rw [ByteMachine.exec, Registers.addImm, Registers.set_reg, if_pos rfl]
    exact dropped

theorem exec (refines : Refines m s) {i : StackInstr} (executed : s.exec i = some s') :
    Refines (m.exec i) s' := by
  have same := refines.cpu
  cases i with
  | pushImm w => exact refines.push executed
  | pushReg r =>
      rw [ByteMachine.exec, same]
      exact refines.push executed
  | popReg r => exact refines.popReg executed
  | pusha =>
      rw [ByteMachine.exec, same]
      exact refines.pushAll executed
  | popa =>
      simp only [StackMachine.exec, Option.bind_eq_bind, Option.bind_eq_some_iff] at executed
      obtain ⟨s₁, edi, s₂, esi, s₃, ebp, p, skipped, s₄, ebx, s₅, edx, s₆, ecx, eax⟩ := executed
      have upper := (((refines.popReg edi).popReg esi).popReg ebp).pop skipped
      exact (((upper.2.popReg ebx).popReg edx).popReg ecx).popReg eax
  | movAxSeg g =>
      cases executed
      rw [ByteMachine.exec, same]
      exact refines.update (by simp [Registers.setAx])
  | movAxImm w =>
      cases executed
      rw [ByteMachine.exec, same]
      exact refines.update (by simp [Registers.setAx])
  | movSegAx g =>
      cases executed
      rw [ByteMachine.exec, same]
      exact refines.update (by simp)
  | addImm r w =>
      rw [StackMachine.exec] at executed
      split at executed
      next isEsp =>
        subst isEsp
        split at executed
        next fits =>
          cases executed
          exact refines.addEsp fits.1
        next => cases executed
      next notEsp =>
        cases executed
        rw [ByteMachine.exec, same]
        exact refines.update (by simp [Registers.addImm, Ne.symm notEsp])
  | jmp target =>
      cases executed
      rw [ByteMachine.exec, same]
      exact refines.update rfl
  | call target next =>
      obtain ⟨s₁, pushed, rfl⟩ := Option.map_eq_some_iff.mp executed
      have after := refines.push pushed
      rw [ByteMachine.exec, after.cpu]
      exact after.update rfl
  | iret =>
      simp only [StackMachine.exec, Option.bind_eq_bind, Option.bind_eq_some_iff] at executed
      obtain ⟨eip, first, cs, second, eflags, third, returned⟩ := executed
      cases returned
      obtain ⟨topEip, one⟩ := refines.pop first
      obtain ⟨topCs, two⟩ := one.pop second
      obtain ⟨topEflags, three⟩ := two.pop third
      rw [ByteMachine.exec, topEip, topCs, topEflags, three.cpu]
      exact three.update rfl

theorem run (refines : Refines m s) {text : List StackInstr} (ran : s.run text = some s') :
    Refines (m.run text) s' := by
  induction text generalizing m s with
  | nil =>
      cases ran
      exact refines
  | cons i text ih =>
      rw [StackMachine.run, List.foldlM_cons, Option.bind_eq_bind, Option.bind_eq_some_iff] at ran
      obtain ⟨s₁, first, rest⟩ := ran
      exact ih (refines.exec first) rest

theorem interrupt (refines : Refines m s) {gate : Gate} {errorCode : Option Word}
    (interrupted : s.interrupt gate errorCode = some s') :
    Refines (m.interrupt gate errorCode) s' := by
  obtain ⟨s₁, pushed, rfl⟩ := Option.map_eq_some_iff.mp interrupted
  rw [← refines.cpu] at pushed
  have after := refines.pushAll pushed
  rw [ByteMachine.interrupt, after.cpu]
  exact after.update rfl

end Refines

end X86
