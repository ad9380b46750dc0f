import SoraOS.Console.Vga
import SoraOS.Preemption.Stubs
import SoraOS.Shared.Conservation
import SoraOS.Shared.I8259

set_option autoImplicit false

/-!
From a device to its handler: `pic.c` and `idt.c` with the two controllers and the stubs.
-/

namespace SoraOS

namespace Boot

open X86 Stubs I8259 Conservation

abbrev Write := BitVec 16 × U8

def picMasterCmd : BitVec 16 := 0x20#16
def picMasterData : BitVec 16 := 0x21#16
def picSlaveCmd : BitVec 16 := 0xA0#16
def picSlaveData : BitVec 16 := 0xA1#16

def picEoi : U8 := 0x20#8
def icw1Init : U8 := 0x10#8
def icw1Icw4 : U8 := 0x01#8
def icw4_8086 : U8 := 0x01#8
def picMasterOffset : U8 := 0x20#8
def picSlaveOffset : U8 := 0x28#8

def ioWait : Write := (0x80#16, 0x00#8)

def picInit : List Write := [
  (picMasterCmd, icw1Init ||| icw1Icw4), ioWait,
  (picSlaveCmd, icw1Init ||| icw1Icw4), ioWait,
  (picMasterData, picMasterOffset), ioWait,
  (picSlaveData, picSlaveOffset), ioWait,
  (picMasterData, 0x04#8), ioWait,
  (picSlaveData, 0x02#8), ioWait,
  (picMasterData, icw4_8086), ioWait,
  (picSlaveData, icw4_8086), ioWait,
  (picMasterData, 0x00#8),
  (picSlaveData, 0x00#8)]

def picSendEoi (irq : U8) : List Write :=
  (if irq ≥ 8#8 then [(picSlaveCmd, picEoi)] else []) ++ [(picMasterCmd, picEoi)]

-- On a PC the slave is wired to IRQ2.
def cascadeLine : Fin 8 := (2#3).toFin

def picPort (port : BitVec 16) : Option Pair.Port :=
  if port = picMasterCmd then some .masterCommand
  else if port = picMasterData then some .masterData
  else if port = picSlaveCmd then some .slaveCommand
  else if port = picSlaveData then some .slaveData
  else none

def picWrite (p : Pair) (write : Write) : Pair :=
  match picPort write.1 with
  | some port => p.outb cascadeLine port write.2
  | none => p

def picWrites (p : Pair) (writes : List Write) : Pair := writes.foldl picWrite p

def irqCount : Nat := 16

-- `irq_handlers`, with what the handlers change; each returns, and none looks at its argument.
abbrev Handlers (σ : Type) := Vector (Option (σ → σ)) irqCount

section Handling

variable {σ : Type}

def irqRegisterHandler (handlers : Handlers σ) (irq : U8) (handler : σ → σ) : Handlers σ :=
  if inside : irq.toNat < irqCount then handlers.set irq.toNat (some handler) inside else handlers

def exceptionNames : Vector (List U8) 32 := #v[
  Vga.ascii "Division Error",
  Vga.ascii "Debug",
  Vga.ascii "Non-Maskable Interrupt",
  Vga.ascii "Breakpoint",
  Vga.ascii "Overflow",
  Vga.ascii "Bound Range Exceeded",
  Vga.ascii "Invalid Opcode",
  Vga.ascii "Device Not Available",
  Vga.ascii "Double Fault",
  Vga.ascii "Coprocessor Segment Overrun",
  Vga.ascii "Invalid TSS",
  Vga.ascii "Segment Not Present",
  Vga.ascii "Stack-Segment Fault",
  Vga.ascii "General Protection Fault",
  Vga.ascii "Page Fault",
  Vga.ascii "Reserved",
  Vga.ascii "x87 Floating-Point Exception",
  Vga.ascii "Alignment Check",
  Vga.ascii "Machine Check",
  Vga.ascii "SIMD Floating-Point Exception",
  Vga.ascii "Virtualization Exception",
  Vga.ascii "Control Protection Exception",
  Vga.ascii "Reserved",
  Vga.ascii "Reserved",
  Vga.ascii "Reserved",
  Vga.ascii "Reserved",
  Vga.ascii "Reserved",
  Vga.ascii "Reserved",
  Vga.ascii "Hypervisor Injection Exception",
  Vga.ascii "VMM Communication Exception",
  Vga.ascii "Security Exception",
  Vga.ascii "Reserved"]

theorem irq_lt {vec : U32} (irq : ¬vec.toNat < 32) (hardware : vec.toNat < 48) :
    ((vec - 32#32).setWidth 8).toNat < irqCount := by
  rw [BitVec.toNat_setWidth, BitVec.toNat_sub, BitVec.toNat_ofNat]
  simp only [irqCount]
  omega

/-- How `common_isr_handler` ends: in `kernel_panic`, or with these writes to the controllers. -/
inductive Handled (σ : Type) where
  | panicked (message : List U8)
  | returned (user : σ) (writes : List Write)

def commonIsrHandler (handlers : Handlers σ) (regs : RegistersT) (user : σ) : Handled σ :=
  let vec := regs.intNo
  if exception : vec.toNat < 32 then .panicked (exceptionNames.get ⟨vec.toNat, exception⟩)
  else if hardware : vec.toNat < 48 then
    let irq := (vec - 32#32).setWidth 8
    let user :=
      match handlers.get ⟨irq.toNat, irq_lt exception hardware⟩ with
      | some handler => handler user
      | none => user
    .returned user (picSendEoi irq)
  else .returned user []

end Handling

def notPresent : IdtEntry :=
  { baseLow := 0#16, sel := 0#16, always0 := 0#8, flags := 0#8, baseHigh := 0#16 }

-- `idt` after `idt_init`: 48 calls of `idt_set_gate`, one after the other.
def idtInit (labels : Labels) : Vector IdtEntry 256 :=
  (List.finRange 48).foldl
    (fun table (vector : Fin 48) =>
      table.set vector (idtSetGate (labels.isr vector) 0x08#16 0x8E#8)
        (vector.isLt.trans (by decide)))
    (Vector.replicate 256 notPresent)

def present (e : IdtEntry) : Bool := e.flags.getLsbD 7

theorem idtInit_getElem (labels : Labels) (vector : Nat) (inside : vector < 256) :
    (idtInit labels)[vector] = if vector < 48 then idt labels vector else notPresent := by
  have filled (vectors : List (Fin 48)) (table : Vector IdtEntry 256) :
      (vectors.foldl (fun table (vector : Fin 48) =>
        table.set vector (idtSetGate (labels.isr vector) 0x08#16 0x8E#8)
          (vector.isLt.trans (by decide))) table)[vector] =
        if ∃ v ∈ vectors, v.val = vector then idt labels vector else table[vector] := by
    induction vectors generalizing table with
    | nil => simp
    | cons v rest ih =>
        rw [List.foldl_cons, ih, Vector.getElem_set]
        by_cases later : ∃ v ∈ rest, v.val = vector
        next => simp [later]
        next =>
          by_cases now : v.val = vector
          next => simp [now, idt]
          next => simp [later, now]
  rw [idtInit, filled, Vector.getElem_replicate]
  have listed : (∃ v ∈ List.finRange 48, v.val = vector) ↔ vector < 48 := by
    constructor
    next =>
      rintro ⟨v, -, rfl⟩
      exact v.isLt
    next => exact fun defined => ⟨⟨vector, defined⟩, List.mem_finRange _, rfl⟩
  simp only [listed]

theorem idtInit_present (labels : Labels) (vector : Nat) (inside : vector < 256) :
    present (idtInit labels)[vector] = true ↔ vector < 48 := by
  rw [idtInit_getElem]
  by_cases defined : vector < 48
  next => simp [defined, present, idt, idtSetGate]
  next => simp [defined, present, notPresent]

def remapped : Pair where
  master :=
    { stage := .ready, icw4 := true, single := false, offset := 0x20#8, cascade := 0x04#8
      mode := 0x01#8, masked := 0x00#8, requests := fun _ => false, inService := fun _ => false }
  slave :=
    { stage := .ready, icw4 := true, single := false, offset := 0x28#8, cascade := 0x02#8
      mode := 0x01#8, masked := 0x00#8, requests := fun _ => false, inService := fun _ => false }

theorem picWrite_masterCmd (p : Pair) (w : U8) :
    picWrite p (picMasterCmd, w) = { p with master := p.master.command w } :=
  p.outb_masterCommand w

theorem picWrite_masterData (p : Pair) (w : U8) :
    picWrite p (picMasterData, w) = { p with master := p.master.data w } :=
  p.outb_masterData w

theorem picWrite_slaveCmd {p : Pair} {w : U8} (low : (p.slave.command w).next = none) :
    picWrite p (picSlaveCmd, w) = { p with slave := p.slave.command w } :=
  Pair.outb_slaveCommand low

theorem picWrite_slaveData {p : Pair} {w : U8} (low : (p.slave.data w).next = none) :
    picWrite p (picSlaveData, w) = { p with slave := p.slave.data w } :=
  Pair.outb_slaveData low

theorem picWrite_ioWait (p : Pair) : picWrite p ioWait = p := rfl

-- Whatever the controllers were told before.
theorem picWrites_picInit (p : Pair) : picWrites p picInit = remapped := by
  obtain ⟨master, slave⟩ := p
  simp only [picInit, picWrites, List.foldl_cons, List.foldl_nil, picWrite_ioWait,
    picWrite_masterCmd, picWrite_masterData]
  rw [picWrite_slaveCmd rfl, picWrite_slaveData rfl, picWrite_slaveData rfl, picWrite_slaveData rfl,
    picWrite_slaveData rfl]
  rfl

abbrev Serves := Pair.Serves cascadeLine picMasterOffset picSlaveOffset

theorem serves_remapped : Serves remapped .nothing := by
  constructor
  next => exact ⟨rfl, rfl, by decide, rfl, rfl⟩
  next => exact ⟨rfl, rfl, by decide, rfl, rfl⟩
  next => rfl
  next => rfl
  next => exact fun up => absurd (by decide) up

section Runs

variable {σ : Type}

/-- The controllers, what the handlers work on, and the frame of the handler that is running. -/
structure Machine (σ : Type) where
  pics : Pair
  handlers : Handlers σ
  user : σ
  handling : Option RegistersT

/--
A device asks or takes its request back, the master notices that the slave's output is low, the CPU
takes an interrupt on its way through a program, or `common_isr_handler` runs to its end.
-/
inductive Event where
  | raise (input : Fin 8 ⊕ Fin 8)
  | drop (input : Fin 8 ⊕ Fin 8)
  | settle
  | interrupt (m : ByteMachine)
  | handle

def irqOf : Fin 8 ⊕ Fin 8 → Nat
  | .inl line => line
  | .inr line => line + 8

def inputOf (vector : U8) : Fin 8 ⊕ Fin 8 :=
  if vector < picSlaveOffset then .inl (vector.setWidth 3).toFin
  else .inr (vector.setWidth 3).toFin

/-- What has happened; a vector is spurious when nothing has asked for it. -/
inductive Note where
  | raised (input : Fin 8 ⊕ Fin 8)
  | merged (input : Fin 8 ⊕ Fin 8)
  | dropped (input : Fin 8 ⊕ Fin 8)
  | delivered (input : Fin 8 ⊕ Fin 8)
  | spurious (vector : U8)
  | handled (irq : Nat)
  | nothing
  deriving DecidableEq

variable (labels : Labels)

-- Interrupts stay off until the handler has returned.
def interrupt (s : Machine σ) (m : ByteMachine) : Option (Note × Machine σ) :=
  match s.handling with
  | some _ => some (.nothing, s)
  | none =>
      let (vector, pics) := s.pics.acknowledge cascadeLine
      if present (idtInit labels)[vector.toNat] then
        let entry := handlerEntry labels m vector.toNat 0#32
        let regs := RegistersT.read entry.memory (argument entry)
        let input := inputOf vector
        some (if s.pics.pending input && !pics.pending input then .delivered input else
          .spurious vector, { s with pics := pics, handling := some regs })
      else none

-- A panic does not return, and neither does this.
def handle (s : Machine σ) : Option (Note × Machine σ) :=
  match s.handling with
  | none => some (.nothing, s)
  | some regs =>
      match commonIsrHandler s.handlers regs s.user with
      | .panicked _ => none
      | .returned user writes =>
          some (.handled (regs.intNo.toNat - 32),
            { s with pics := picWrites s.pics writes, user := user, handling := none })

-- No device is on the line of the slave.
def step (s : Machine σ) : Event → Option (Note × Machine σ)
  | .raise input =>
      if input = .inl cascadeLine then some (.nothing, s)
      else
        some (if s.pics.pending input then .merged input else .raised input,
          { s with pics := s.pics.raise cascadeLine input })
  | .drop input =>
      if input = .inl cascadeLine then some (.nothing, s)
      else
        some (if s.pics.pending input then .dropped input else .nothing,
          { s with pics := s.pics.drop input })
  | .settle => some (.nothing, { s with pics := s.pics.settle cascadeLine })
  | .interrupt m => interrupt labels s m
  | .handle => handle s

def run (s : Machine σ) : List Event → Option (List Note × Machine σ)
  | [] => some ([], s)
  | e :: rest => do
      let (note, s) ← step labels s e
      let (later, s) ← run s rest
      return (note :: later, s)

/-- Between two handlers nothing is in service; a handler was given the vector of its request. -/
def Sound (s : Machine σ) : Prop :=
  ∃ service, Serves s.pics service ∧ (s.handling = none → service = .nothing) ∧
    ∀ regs, s.handling = some regs →
      regs.intNo = (service.vector picMasterOffset picSlaveOffset).setWidth 32

def Note.taken : Note → Option Nat
  | .delivered input => some (irqOf input)
  | .spurious vector => some (vector.toNat - 32)
  | _ => none

def Note.returned : Note → Option Nat
  | .handled irq => some irq
  | _ => none

def call (handlers : Handlers σ) (user : σ) (irq : Nat) : σ :=
  match handlers[irq]? with
  | some (some handler) => handler user
  | _ => user

def Machine.inHand (s : Machine σ) : List Nat :=
  s.handling.toList.map fun regs => regs.intNo.toNat - 32

structure Accounts (s : Machine σ) (note : Note) (s' : Machine σ) : Prop where
  requests : ∀ input ≠ .inl cascadeLine,
    (s.pics.pending input).toNat + [note].count (.raised input) =
      [note].count (.delivered input) + [note].count (.dropped input) +
        (s'.pics.pending input).toNat
  calls : s'.user = note.returned.toList.foldl (call s.handlers) s.user
  order : s.inHand ++ note.taken.toList = note.returned.toList ++ s'.inHand
  handlers : s'.handlers = s.handlers
  spurious : ∀ vector, note = .spurious vector → vector = 0x27#8 ∨ vector = 0x2F#8

theorem read_handlerEntry (m : ByteMachine) {vector : Nat} (defined : vector < 48) (code : U32) :
    RegistersT.read (handlerEntry labels m vector code).memory
      (argument (handlerEntry labels m vector code)) = frame m.cpu vector code := by
  have entered := handlerEntry_refines labels m defined code
  obtain ⟨-, rest⟩ := wordsAt_cons.mp entered.stack
  obtain ⟨pointer, words⟩ := wordsAt_cons.mp rest
  have regs : argument (handlerEntry labels m vector code) = m.cpu.reg .esp - 56#32 := pointer
  have esp : (handlerEntry labels m vector code).cpu.reg .esp = m.cpu.reg .esp - 64#32 := by
    rw [entered.cpu]
    simp [handlerCpu]
  have place : m.cpu.reg .esp - 56#32 = m.cpu.reg .esp - 64#32 + 4#32 + 4#32 := by bv_omega
  rw [regs, place, ← esp]
  exact RegistersT.read_eq words

def serviceIrq : Service → Nat
  | .nothing => 7
  | .master line => line
  | .slave line => line + 8
  | .lost => 15

theorem vector_toNat (service : Service) :
    (service.vector picMasterOffset picSlaveOffset).toNat = 32 + serviceIrq service ∧
      serviceIrq service < 16 := by
  cases service with
  | nothing => exact ⟨rfl, by decide⟩
  | lost => exact ⟨rfl, by decide⟩
  | master line =>
      simp only [Service.vector, serviceIrq, picMasterOffset, BitVec.toNat_add, BitVec.toNat_ofNat]
      omega
  | slave line =>
      simp only [Service.vector, serviceIrq, picSlaveOffset, BitVec.toNat_add, BitVec.toNat_ofNat]
      omega

theorem sendEoi_spec {p : Pair} {service : Service} (h : Serves p service) :
    Serves (picWrites p (picSendEoi (BitVec.ofNat 8 (serviceIrq service)))) .nothing ∧
      ∀ input ≠ .inl cascadeLine,
        (picWrites p (picSendEoi (BitVec.ofNat 8 (serviceIrq service)))).pending input =
          p.pending input := by
  have direct (irq : U8) (low : irq.toNat < 8) :
      picWrites p (picSendEoi irq) = p.outb cascadeLine .masterCommand 0x20#8 := by
    have below : ¬irq ≥ 8#8 := by
      rw [ge_iff_le, BitVec.le_def]
      simpa using low
    rw [picSendEoi, if_neg below]
    rfl
  have through (irq : U8) (high : 8 ≤ irq.toNat) : picWrites p (picSendEoi irq) =
      (p.outb cascadeLine .slaveCommand 0x20#8).outb cascadeLine .masterCommand 0x20#8 := by
    have above : irq ≥ 8#8 := by
      rw [ge_iff_le, BitVec.le_def]
      simpa using high
    rw [picSendEoi, if_pos above]
    rfl
  cases service with
  | nothing =>
      rw [direct _ (by decide)]
      obtain ⟨serves, kept⟩ := h.eoi_master rfl
      exact ⟨serves, fun input _ => by rw [kept]⟩
  | master line =>
      rw [direct _ (by simp only [serviceIrq, BitVec.toNat_ofNat]; omega)]
      obtain ⟨serves, kept⟩ := h.eoi_master rfl
      exact ⟨serves, fun input _ => by rw [kept]⟩
  | slave line =>
      rw [through _ (by simp only [serviceIrq, BitVec.toNat_ofNat]; omega)]
      exact h.eoi_slave rfl
  | lost =>
      rw [through _ (by decide)]
      exact h.eoi_slave rfl

theorem inputOf_service {service : Service} {input : Fin 8 ⊕ Fin 8}
    (asked : service.input = some input) :
    inputOf (service.vector picMasterOffset picSlaveOffset) = input ∧
      serviceIrq service = irqOf input := by
  cases service with
  | nothing => cases asked
  | lost => cases asked
  | master line =>
      obtain rfl := Option.some.inj asked
      have inputs : ∀ line : Fin 8, inputOf ((Service.master line).vector picMasterOffset
          picSlaveOffset) = .inl line := by decide
      exact ⟨inputs line, rfl⟩
  | slave line =>
      obtain rfl := Option.some.inj asked
      have inputs : ∀ line : Fin 8, inputOf ((Service.slave line).vector picMasterOffset
          picSlaveOffset) = .inr line := by decide
      exact ⟨inputs line, rfl⟩

theorem answers_spurious {p p' : Pair} {service : Service}
    (h : Pair.Answers cascadeLine p p' service) (nobody : service.input = none) :
    p.pending (inputOf (service.vector picMasterOffset picSlaveOffset)) = false := by
  by_contra waiting
  have waiting := Bool.eq_true_of_not_eq_false waiting
  cases service with
  | master line => cases nobody
  | slave line => cases nobody
  | nothing =>
      rcases h.foremost (.inl 7) (by decide) waiting with ⟨i, some, -⟩ | ⟨lost, -⟩
      · cases some
      · cases lost
  | lost =>
      rcases h.foremost (.inr 7) (by decide) waiting with ⟨i, some, -⟩ | ⟨-, less⟩
      · cases some
      · exact absurd less (lt_irrefl _)

theorem accounts_silent {s s' : Machine σ} {note : Note}
    (silent : note = .nothing ∨ ∃ i, note = .merged i)
    (pending : ∀ input ≠ .inl cascadeLine, s'.pics.pending input = s.pics.pending input)
    (user : s'.user = s.user) (handling : s'.handling = s.handling)
    (handlers : s'.handlers = s.handlers) : Accounts s note s' := by
  have inHand : s'.inHand = s.inHand := by rw [Machine.inHand, handling, Machine.inHand]
  constructor
  next =>
    intro input device
    rw [pending input device]
    rcases silent with rfl | ⟨i, rfl⟩ <;> simp
  next => rcases silent with rfl | ⟨i, rfl⟩ <;> exact user
  next => rcases silent with rfl | ⟨i, rfl⟩ <;> simp [Note.taken, Note.returned, inHand]
  next => exact handlers
  next => rcases silent with rfl | ⟨i, rfl⟩ <;> simp

theorem Sound.interrupt {s : Machine σ} (h : Sound s) (m : ByteMachine) :
    ∃ note s', interrupt labels s m = some (note, s') ∧ Sound s' ∧ Accounts s note s' := by
  obtain ⟨service, serves, idle, frames⟩ := h
  unfold Boot.interrupt
  cases handling : s.handling with
  | some regs =>
      exact ⟨_, _, rfl, ⟨service, serves, idle, frames⟩,
        accounts_silent (.inl rfl) (fun _ _ => rfl) rfl rfl rfl⟩
  | none =>
      obtain rfl := idle handling
      obtain ⟨answer, vector, serves', answers⟩ := serves.acknowledge
      simp only
      generalize s.pics.acknowledge cascadeLine = result at vector serves' answers
      obtain ⟨v, pics⟩ := result
      simp only at vector serves' answers ⊢
      subst vector
      obtain ⟨number, few⟩ := vector_toNat answer
      have defined : (answer.vector picMasterOffset picSlaveOffset).toNat < 48 := by omega
      have gate := (idtInit_present labels _ (by omega)).mpr defined
      have frame := read_handlerEntry labels m defined 0#32
      rw [if_pos gate, frame]
      have intNo : (Stubs.frame m.cpu (answer.vector picMasterOffset picSlaveOffset).toNat
          0#32).intNo = (answer.vector picMasterOffset picSlaveOffset).setWidth 32 := by
        apply BitVec.eq_of_toNat_eq
        simp only [Stubs.frame, BitVec.toNat_ofNat, BitVec.toNat_setWidth]
      refine ⟨_, _, rfl, ⟨answer, serves', by simp, ?_⟩, ?_⟩
      · intro regs same
        obtain rfl := Option.some.inj same
        exact intNo
      · have inHand : s.inHand = [] := by rw [Machine.inHand, handling]; rfl
        have taken : (Stubs.frame m.cpu (answer.vector picMasterOffset picSlaveOffset).toNat
            0#32).intNo.toNat - 32 = serviceIrq answer := by
          rw [intNo, BitVec.toNat_setWidth, number]
          omega
        have inHand' : ({ s with
            pics := pics
            handling := some (Stubs.frame m.cpu
              (answer.vector picMasterOffset picSlaveOffset).toNat 0#32) } : Machine σ).inHand =
              [serviceIrq answer] := by
          simp only [Machine.inHand, Option.toList_some, List.map_cons, List.map_nil, taken]
        cases asked : answer.input with
        | some input =>
            obtain ⟨named, irq⟩ := inputOf_service asked
            obtain ⟨device, waiting⟩ := answers.asked input asked
            have gone := answers.pending input device
            simp only [waiting, asked, decide_true, Bool.not_true, Bool.and_false] at gone
            rw [named, waiting, gone]
            constructor
            next =>
              intro i device'
              have left := answers.pending i device'
              rw [asked] at left
              by_cases same : input = i
              next => simp [← same, waiting, gone]
              next => simp [left, same]
            next => rfl
            next =>
              rw [inHand, inHand']
              simp [Note.taken, Note.returned, irq]
            next => rfl
            next => simp
        | none =>
            rw [answers_spurious answers asked]
            constructor
            next =>
              intro i device'
              have left := answers.pending i device'
              simp [left, asked]
            next => rfl
            next =>
              rw [inHand, inHand']
              simp [Note.taken, Note.returned, number]
            next => rfl
            next =>
              intro vector same
              simp only [Bool.false_and, Bool.false_eq_true, if_false, Note.spurious.injEq] at same
              rw [← same]
              cases answer with
              | nothing => exact .inl rfl
              | lost => exact .inr rfl
              | master line => cases asked
              | slave line => cases asked

theorem commonIsrHandler_irq (handlers : Handlers σ) (regs : RegistersT) (user : σ) {irq : Nat}
    (few : irq < 16) (vec : regs.intNo.toNat = 32 + irq) :
    commonIsrHandler handlers regs user =
      .returned (call handlers user irq) (picSendEoi (BitVec.ofNat 8 irq)) := by
  have hardware : ¬regs.intNo.toNat < 32 := by omega
  have used : regs.intNo.toNat < 48 := by omega
  have number : (regs.intNo - 32#32).setWidth 8 = BitVec.ofNat 8 irq := by
    apply BitVec.eq_of_toNat_eq
    rw [BitVec.toNat_setWidth, BitVec.toNat_sub, BitVec.toNat_ofNat, BitVec.toNat_ofNat, vec]
    omega
  have value : (BitVec.ofNat 8 irq).toNat = irq := by
    rw [BitVec.toNat_ofNat]
    omega
  have entry : handlers[irq]? = some (handlers.get ⟨irq, few⟩) := Vector.getElem?_eq_getElem few
  simp only [commonIsrHandler, dif_neg hardware, dif_pos used, number, value, call, entry]
  cases handlers.get ⟨irq, few⟩ <;> rfl

theorem Sound.handle {s : Machine σ} (h : Sound s) :
    ∃ note s', handle s = some (note, s') ∧ Sound s' ∧ Accounts s note s' := by
  obtain ⟨service, serves, idle, frames⟩ := h
  unfold Boot.handle
  cases handling : s.handling with
  | none =>
      exact ⟨_, _, rfl, ⟨service, serves, idle, frames⟩,
        accounts_silent (.inl rfl) (fun _ _ => rfl) rfl rfl rfl⟩
  | some regs =>
      have intNo := frames regs handling
      obtain ⟨number, few⟩ := vector_toNat service
      have vec : regs.intNo.toNat = 32 + serviceIrq service := by
        rw [intNo, BitVec.toNat_setWidth, number]
        omega
      have called := commonIsrHandler_irq s.handlers regs s.user few vec
      simp only [called]
      obtain ⟨ended, kept⟩ := sendEoi_spec serves
      refine ⟨_, _, rfl, ⟨.nothing, ended, fun _ => rfl, by simp⟩, ?_⟩
      constructor
      next =>
        intro input device
        simp [kept input device]
      next => simp [Note.returned, vec]
      next => simp [Machine.inHand, handling, Note.taken, Note.returned]
      next => rfl
      next => simp

theorem pending_raise (p : Pair) (input : Fin 8 ⊕ Fin 8) {i : Fin 8 ⊕ Fin 8}
    (device : i ≠ .inl cascadeLine) :
    (p.raise cascadeLine input).pending i = (p.pending i || decide (i = input)) := by
  cases input with
  | inl line =>
      cases i with
      | inl l =>
          by_cases same : l = line
          next => simp [Pair.raise, Pair.pending, Chip.raise, same]
          next => simp [Pair.raise, Pair.pending, Chip.raise, same]
      | inr l => simp [Pair.raise, Pair.pending]
  | inr line =>
      cases i with
      | inl l =>
          have other : l ≠ cascadeLine := fun same => device (congrArg Sum.inl same)
          simp only [Pair.raise, Pair.pending]
          rw [Pair.edge_requests _ _ other]
          simp
      | inr l =>
          simp only [Pair.raise, Pair.pending, Pair.edge_slave]
          by_cases same : l = line
          next => simp [Chip.raise, same]
          next => simp [Chip.raise, same]

theorem pending_drop (p : Pair) (input i : Fin 8 ⊕ Fin 8) :
    (p.drop input).pending i = (p.pending i && !decide (i = input)) := by
  cases input with
  | inl line =>
      cases i with
      | inl l =>
          by_cases same : l = line
          next => simp [Pair.drop, Pair.pending, Chip.drop, same]
          next => simp [Pair.drop, Pair.pending, Chip.drop, same]
      | inr l => simp [Pair.drop, Pair.pending]
  | inr line =>
      cases i with
      | inl l => simp [Pair.drop, Pair.pending]
      | inr l =>
          by_cases same : l = line
          next => simp [Pair.drop, Pair.pending, Chip.drop, same]
          next => simp [Pair.drop, Pair.pending, Chip.drop, same]

theorem pending_settle (p : Pair) {i : Fin 8 ⊕ Fin 8} (device : i ≠ .inl cascadeLine) :
    (p.settle cascadeLine).pending i = p.pending i := by
  unfold Pair.settle
  split
  next =>
    cases i with
    | inl l =>
        have other : l ≠ cascadeLine := fun same => device (congrArg Sum.inl same)
        simp [Pair.pending, Chip.drop, other]
    | inr l => rfl
  next => rfl

theorem Sound.step {s : Machine σ} (h : Sound s) (e : Event) :
    ∃ note s', step labels s e = some (note, s') ∧ Sound s' ∧ Accounts s note s' := by
  cases e with
  | interrupt m => exact h.interrupt labels m
  | handle => exact h.handle
  | raise input =>
      obtain ⟨service, serves, idle, frames⟩ := h
      unfold Boot.step
      by_cases wire : input = .inl cascadeLine
      next =>
        simp only [if_pos wire]
        exact ⟨_, _, rfl, ⟨service, serves, idle, frames⟩,
          accounts_silent (.inl rfl) (fun _ _ => rfl) rfl rfl rfl⟩
      simp only [if_neg wire]
      refine ⟨_, _, rfl, ⟨service, serves.raise input, idle, frames⟩, ?_⟩
      cases waiting : s.pics.pending input with
      | true =>
          refine accounts_silent (.inr ⟨input, rfl⟩) ?_ rfl rfl rfl
          intro i device
          rw [pending_raise _ _ device]
          by_cases same : i = input
          next => simp [same, waiting]
          next => simp [same]
      | false =>
          constructor
          next =>
            intro i device
            simp only [Bool.false_eq_true, if_false]
            rw [pending_raise _ _ device]
            by_cases same : i = input
            next => simp [same, waiting]
            next => simp [same, Ne.symm same]
          next => rfl
          next => simp [Note.taken, Note.returned, Machine.inHand]
          next => rfl
          next => simp
  | drop input =>
      obtain ⟨service, serves, idle, frames⟩ := h
      unfold Boot.step
      by_cases wire : input = .inl cascadeLine
      next =>
        simp only [if_pos wire]
        exact ⟨_, _, rfl, ⟨service, serves, idle, frames⟩,
          accounts_silent (.inl rfl) (fun _ _ => rfl) rfl rfl rfl⟩
      simp only [if_neg wire]
      refine ⟨_, _, rfl, ⟨service, serves.drop wire, idle, frames⟩, ?_⟩
      cases waiting : s.pics.pending input with
      | false =>
          refine accounts_silent (.inl rfl) ?_ rfl rfl rfl
          intro i device
          rw [pending_drop]
          by_cases same : i = input
          next => simp [same, waiting]
          next => simp [same]
      | true =>
          constructor
          next =>
            intro i device
            simp only [if_true]
            rw [pending_drop]
            by_cases same : i = input
            next => simp [same, waiting]
            next => simp [same, Ne.symm same]
          next => rfl
          next => simp [Note.taken, Note.returned, Machine.inHand]
          next => rfl
          next => simp
  | settle =>
      obtain ⟨service, serves, idle, frames⟩ := h
      exact ⟨_, _, rfl, ⟨service, serves.settle, idle, frames⟩,
        accounts_silent (.inl rfl) (fun _ device => pending_settle _ device) rfl rfl rfl⟩

structure Accounted (s : Machine σ) (log : List Note) (s' : Machine σ) : Prop where
  requests : ∀ input ≠ .inl cascadeLine,
    (s.pics.pending input).toNat + log.count (.raised input) =
      log.count (.delivered input) + log.count (.dropped input) + (s'.pics.pending input).toNat
  calls : s'.user = (log.filterMap Note.returned).foldl (call s.handlers) s.user
  order : Conserved Note.taken Note.returned s.inHand log s'.inHand
  handlers : s'.handlers = s.handlers

theorem Accounts.cons {s s' s'' : Machine σ} {note : Note} {log : List Note}
    (first : Accounts s note s') (later : Accounted s' log s'') :
    Accounted s (note :: log) s'' := by
  constructor
  next =>
    intro input device
    have now := first.requests input device
    have then_ := later.requests input device
    have split (n : Note) : (note :: log).count n = [note].count n + log.count n := by
      rw [← List.singleton_append, List.count_append]
    rw [split, split, split]
    omega
  next =>
    rw [later.calls, first.handlers, first.calls, List.filterMap_cons]
    cases note.returned <;> rfl
  next => exact conserved_cons first.order later.order
  next => exact later.handlers.trans first.handlers

theorem Sound.run {s : Machine σ} (h : Sound s) (events : List Event) :
    ∃ log s', run labels s events = some (log, s') ∧ Sound s' ∧ Accounted s log s' := by
  induction events generalizing s with
  | nil => exact ⟨_, _, rfl, h, by simp, rfl, conserved_nil, rfl⟩
  | cons e rest ih =>
      obtain ⟨note, s', first, next, accounts⟩ := h.step labels e
      obtain ⟨log, s'', later, last, accounted⟩ := ih next
      exact ⟨note :: log, s'', by simp [Boot.run, first, later], last, accounts.cons accounted⟩

def started (pics : Pair) (handlers : Handlers σ) (user : σ) : Machine σ where
  pics := picWrites pics picInit
  handlers := handlers
  user := user
  handling := none

theorem sound_started (pics : Pair) (handlers : Handlers σ) (user : σ) :
    Sound (started pics handlers user) := by
  refine ⟨.nothing, ?_, fun _ => rfl, by simp [started]⟩
  rw [started, picWrites_picInit]
  exact serves_remapped

theorem Sound.turn {s : Machine σ} (h : Sound s) (idle : s.handling = none)
    {input : Fin 8 ⊕ Fin 8} (device : input ≠ .inl cascadeLine)
    (waiting : s.pics.pending input = true) :
    let vector := (s.pics.acknowledge cascadeLine).1
    (∃ i, vector.toNat = 32 + irqOf i ∧ s.pics.pending i = true ∧
        Pair.rank cascadeLine i ≤ Pair.rank cascadeLine input) ∨
      vector = 0x2F#8 ∧ Pair.rank cascadeLine (.inr 7) < Pair.rank cascadeLine input := by
  obtain ⟨service, serves, nothing, -⟩ := h
  obtain rfl := nothing idle
  obtain ⟨answer, vector, -, answers⟩ := serves.acknowledge
  simp only [vector]
  rcases answers.foremost input device waiting with ⟨i, asked, before⟩ | ⟨rfl, before⟩
  · refine .inl ⟨i, ?_, (answers.asked i asked).2, before⟩
    rw [(vector_toNat answer).1, (inputOf_service asked).2]
  · exact .inr ⟨rfl, before⟩

/--
Whatever the controllers were told before `pic_init`, and whatever the devices do then: no gate is
missing and nothing panics, every request but those that came while one was pending is served once
or taken back or still pending, the handlers are called in the order of the vectors, each once, and
as soon as no handler runs a line waits only for the lines before it, or for the spurious `0x2F`
after a request that was taken back.
-/
theorem interrupts_served (pics : Pair) (handlers : Handlers σ) (user : σ) (events : List Event) :
    ∃ log s, run labels (started pics handlers user) events = some (log, s) ∧
      s.user = (log.filterMap Note.returned).foldl (call handlers) user ∧
      log.filterMap Note.taken = log.filterMap Note.returned ++ s.inHand ∧
      ∀ input ≠ .inl cascadeLine,
        log.count (.raised input) = log.count (.delivered input) + log.count (.dropped input) +
          (s.pics.pending input).toNat ∧
        (s.handling = none → s.pics.pending input = true →
          let vector := (s.pics.acknowledge cascadeLine).1
          (∃ i, vector.toNat = 32 + irqOf i ∧ s.pics.pending i = true ∧
              Pair.rank cascadeLine i ≤ Pair.rank cascadeLine input) ∨
            vector = 0x2F#8 ∧ Pair.rank cascadeLine (.inr 7) < Pair.rank cascadeLine input) := by
  obtain ⟨log, s, ran, sound, accounted⟩ :=
    (sound_started pics handlers user).run labels events
  have quiet (input : Fin 8 ⊕ Fin 8) : (started pics handlers user).pics.pending input = false := by
    rw [started, picWrites_picInit]
    cases input <;> rfl
  refine ⟨log, s, ran, accounted.calls, ?_, ?_⟩
  · have order := accounted.order
    rw [Conserved] at order
    exact order
  · intro input device
    have requests := accounted.requests input device
    rw [quiet, Bool.toNat_false, Nat.zero_add] at requests
    exact ⟨requests, fun idle => sound.turn idle device⟩

end Runs

end Boot

end SoraOS
