import SoraOS.Shared.StackMachine
import SoraOS.Scheduler.Registers

set_option autoImplicit false

namespace SoraOS.Stubs

open X86

structure Labels where
  isr : Nat → U32
  commonIsrStub : U32
  commonIsrHandler : U32
  -- the instruction after the call in `common_isr_stub`
  afterCall : U32

-- One use of the macro `ISR_NOERR` or `ISR_ERR`.
inductive Isr where
  | noerr (vector : Nat)
  | err (vector : Nat)
  deriving DecidableEq

namespace Isr

def vector : Isr → Nat
  | .noerr vector => vector
  | .err vector => vector

def text (labels : Labels) : Isr → List StackInstr
  | .noerr vector =>
      [.pushImm 0#32, .pushImm (BitVec.ofNat 32 vector), .jmp labels.commonIsrStub]
  | .err vector => [.pushImm (BitVec.ofNat 32 vector), .jmp labels.commonIsrStub]

end Isr

def isrs : List Isr :=
  [.noerr 0, .noerr 1, .noerr 2, .noerr 3, .noerr 4, .noerr 5, .noerr 6, .noerr 7, .err 8, .noerr 9,
    .err 10, .err 11, .err 12, .err 13, .err 14, .noerr 15, .noerr 16, .err 17, .noerr 18,
    .noerr 19, .noerr 20, .err 21, .noerr 22, .noerr 23, .noerr 24, .noerr 25, .noerr 26,
    .noerr 27, .noerr 28, .err 29, .err 30, .noerr 31, .noerr 32, .noerr 33, .noerr 34, .noerr 35,
    .noerr 36, .noerr 37, .noerr 38, .noerr 39, .noerr 40, .noerr 41, .noerr 42, .noerr 43,
    .noerr 44, .noerr 45, .noerr 46, .noerr 47]

-- The text at the label `isr<vector>`.
def isrText (labels : Labels) (vector : Nat) : List StackInstr :=
  ((isrs.find? fun isr => isr.vector = vector).map (Isr.text labels)).getD []

def commonIsrStub (labels : Labels) : List StackInstr :=
  [.pusha, .movAxSeg .ds, .pushReg .eax, .movAxImm 0x10#16, .movSegAx .ds, .movSegAx .es,
    .movSegAx .fs, .movSegAx .gs, .pushReg .esp, .call labels.commonIsrHandler labels.afterCall]

def commonIsrStubReturn : List StackInstr :=
  [.addImm .esp 4#32, .popReg .eax, .movSegAx .ds, .movSegAx .es, .movSegAx .fs, .movSegAx .gs,
    .popa, .addImm .esp 8#32, .iret]

-- `idt_entry_t`.
structure IdtEntry where
  baseLow : BitVec 16
  sel : BitVec 16
  always0 : U8
  flags : U8
  baseHigh : BitVec 16

def idtSetGate (base : U32) (sel : BitVec 16) (flags : U8) : IdtEntry where
  baseLow := (base &&& 0xFFFF#32).setWidth 16
  baseHigh := ((base >>> 16) &&& 0xFFFF#32).setWidth 16
  sel := sel
  always0 := 0#8
  flags := flags

def idt (labels : Labels) (vector : Nat) : IdtEntry := idtSetGate (labels.isr vector) 0x08#16 0x8E#8

def IdtEntry.gate (e : IdtEntry) : Gate where
  offset := e.baseHigh ++ e.baseLow
  selector := e.sel
  trap := e.flags.getLsbD 0

theorem setWidth_and_mask (w : U32) : (w &&& 0xFFFF#32).setWidth 16 = w.setWidth 16 := by
  apply BitVec.eq_of_toNat_eq
  rw [BitVec.toNat_setWidth, BitVec.toNat_and, BitVec.toNat_setWidth]
  show (w.toNat &&& (2 ^ 16 - 1)) % 2 ^ 16 = w.toNat % 2 ^ 16
  rw [Nat.and_two_pow_sub_one_eq_mod, Nat.mod_mod]

theorem gate_idtSetGate (base : U32) (sel : BitVec 16) (flags : U8) :
    (idtSetGate base sel flags).gate = ⟨base, sel, flags.getLsbD 0⟩ := by
  rw [IdtEntry.gate, idtSetGate, setWidth_and_mask, setWidth_and_mask]
  congr 1
  apply BitVec.eq_of_getLsbD_eq
  intro i within
  simp only [BitVec.getLsbD_append, BitVec.getLsbD_setWidth, BitVec.getLsbD_ushiftRight]
  grind

def pushesErrorCode (vector : Nat) : Bool := [8, 10, 11, 12, 13, 14, 17, 21, 29, 30].contains vector

def errorCode (vector : Nat) (code : U32) : Option U32 :=
  if pushesErrorCode vector then some code else none

def setDataSegs (c : Registers) (selector : BitVec 16) : Registers :=
  (((c.setSeg .ds selector).setSeg .es selector).setSeg .fs selector).setSeg .gs selector

-- `registers_t`.
structure RegistersT where
  ds : U32
  edi : U32
  esi : U32
  ebp : U32
  espDummy : U32
  ebx : U32
  edx : U32
  ecx : U32
  eax : U32
  intNo : U32
  errCode : U32
  eip : U32
  cs : U32
  eflags : U32

-- `*regs`; the structure is packed.
def RegistersT.read (memory : Memory) (regs : U32) : RegistersT where
  ds := loadWord memory regs
  edi := loadWord memory (regs + 4#32)
  esi := loadWord memory (regs + 8#32)
  ebp := loadWord memory (regs + 12#32)
  espDummy := loadWord memory (regs + 16#32)
  ebx := loadWord memory (regs + 20#32)
  edx := loadWord memory (regs + 24#32)
  ecx := loadWord memory (regs + 28#32)
  eax := loadWord memory (regs + 32#32)
  intNo := loadWord memory (regs + 36#32)
  errCode := loadWord memory (regs + 40#32)
  eip := loadWord memory (regs + 44#32)
  cs := loadWord memory (regs + 48#32)
  eflags := loadWord memory (regs + 52#32)

def RegistersT.words (r : RegistersT) : List U32 :=
  [r.ds, r.edi, r.esi, r.ebp, r.espDummy, r.ebx, r.edx, r.ecx, r.eax, r.intNo, r.errCode, r.eip,
    r.cs, r.eflags]

def handlerEntry (labels : Labels) (m : ByteMachine) (vector : Nat) (code : U32) : ByteMachine :=
  ((m.interrupt (idt labels vector).gate (errorCode vector code)).run (isrText labels vector)).run
    (commonIsrStub labels)

-- The argument of a C function that has just been called.
def argument (m : ByteMachine) : U32 := loadWord m.memory (m.cpu.reg .esp + 4#32)

def frame (c : Registers) (vector : Nat) (code : U32) : RegistersT where
  ds := withLow (c.reg .eax) (c.seg .ds)
  edi := c.reg .edi
  esi := c.reg .esi
  ebp := c.reg .ebp
  espDummy := c.reg .esp - 20#32
  ebx := c.reg .ebx
  edx := c.reg .edx
  ecx := c.reg .ecx
  eax := c.reg .eax
  intNo := BitVec.ofNat 32 vector
  errCode := (errorCode vector code).getD 0#32
  eip := c.eip
  cs := (c.seg .cs).setWidth 32
  eflags := c.eflags

theorem RegistersT.read_eq {memory : Memory} {regs : U32} {r : RegistersT}
    (words : WordsAt memory regs r.words) : read memory regs = r := by
  simp only [RegistersT.words, wordsAt_cons, BitVec.add_assoc, BitVec.reduceAdd] at words
  obtain ⟨ds, edi, esi, ebp, espDummy, ebx, edx, ecx, eax, intNo, errCode, eip, cs, eflags, -⟩ := words
  rw [read, ds, edi, esi, ebp, espDummy, ebx, edx, ecx, eax, intNo, errCode, eip, cs, eflags]

theorem isrText_eq (labels : Labels) {vector : Nat} (defined : vector < 48) :
    isrText labels vector =
      (if pushesErrorCode vector then Isr.err vector else Isr.noerr vector).text labels := by
  have found : ∀ v < 48, (isrs.find? fun isr => isr.vector = v) =
      some (if pushesErrorCode v then .err v else .noerr v) := by decide +kernel
  rw [isrText, found vector defined]
  rfl

theorem interrupt_stub (labels : Labels) (c : Registers) {vector : Nat} (defined : vector < 48)
    (code : U32) :
    ((StackMachine.mk c []).interrupt (idt labels vector).gate (errorCode vector code)).bind
        (StackMachine.run · (isrText labels vector)) =
      some ⟨((c.enter (idt labels vector).gate).jump labels.commonIsrStub).set .esp
        (c.reg .esp - 20#32), [BitVec.ofNat 32 vector, (errorCode vector code).getD 0#32, c.eip,
          (c.seg .cs).setWidth 32, c.eflags]⟩ := by
  rw [isrText_eq labels defined, errorCode]
  have esp : c.reg .esp - 12#32 - 4#32 - 4#32 = c.reg .esp - 20#32 := by bv_omega
  have esp' : c.reg .esp - 16#32 - 4#32 = c.reg .esp - 20#32 := by bv_omega
  cases pushesErrorCode vector
  all_goals
    simp [StackMachine.interrupt, StackMachine.pushAll_eq, StackMachine.push, StackMachine.run,
      StackMachine.exec, Registers.interruptWords, Isr.text, esp, esp']

theorem run_commonIsrStub (labels : Labels) (c : Registers) (vector errCode eip cs eflags : U32) :
    (StackMachine.mk c [vector, errCode, eip, cs, eflags]).run (commonIsrStub labels) =
      some ⟨(((setDataSegs c 0x10#16).setAx 0x10#16).jump labels.commonIsrHandler).set .esp
        (c.reg .esp - 44#32),
        [labels.afterCall, c.reg .esp - 36#32, withLow (c.reg .eax) (c.seg .ds), c.reg .edi,
          c.reg .esi, c.reg .ebp, c.reg .esp, c.reg .ebx, c.reg .edx, c.reg .ecx, c.reg .eax,
          vector, errCode, eip, cs, eflags]⟩ := by
  have argument : c.reg .esp - 32#32 - 4#32 = c.reg .esp - 36#32 := by bv_omega
  have top : c.reg .esp - 36#32 - 4#32 - 4#32 = c.reg .esp - 44#32 := by bv_omega
  simp [commonIsrStub, StackMachine.run, StackMachine.exec, StackMachine.pushAll_eq,
    StackMachine.push, Registers.pushaOrder, Registers.setAx, setDataSegs, argument, top,
    Registers.set_esp_set]

/-- `common_isr_handler`, entered in `entry`, has returned; it may write to its argument's slot. -/
structure Cdecl (entry after : ByteMachine) : Prop where
  eip : after.cpu.eip = entry.top
  esp : after.cpu.reg .esp = entry.cpu.reg .esp + 4#32
  saved : ∀ r ∈ Registers.calleeSaved, after.cpu.reg r = entry.cpu.reg r
  -- the stack is the same one: no C code loads SS
  ss : after.cpu.seg .ss = entry.cpu.seg .ss
  -- `*regs`
  frame : ∀ i : Nat, 8 ≤ i → i < 64 → after.memory (entry.cpu.reg .esp + BitVec.ofNat 32 i) =
    entry.memory (entry.cpu.reg .esp + BitVec.ofNat 32 i)

def restored (c : Registers) (f : RegistersT) : Registers where
  reg r :=
    match r with
    | .eax => f.eax
    | .ecx => f.ecx
    | .edx => f.edx
    | .ebx => f.ebx
    | .esp => c.reg .esp + 60#32
    | .ebp => f.ebp
    | .esi => f.esi
    | .edi => f.edi
  seg s :=
    match s with
    | .cs => f.cs.setWidth 16
    | .ss => c.seg .ss
    | .ds | .es | .fs | .gs => f.ds.setWidth 16
  eip := f.eip
  eflags := f.eflags

theorem run_commonIsrStubReturn (c : Registers) (argument : U32) (f : RegistersT) :
    (StackMachine.mk c (argument :: f.words)).run commonIsrStubReturn =
      some ⟨restored c f, []⟩ := by
  simp only [commonIsrStubReturn, StackMachine.run, RegistersT.words, List.foldlM_cons,
    List.foldlM_nil, StackMachine.exec, StackMachine.popReg, StackMachine.pop, reduceIte, reduceCtorEq,
    BitVec.toNat_ofNat, Nat.reducePow, Nat.reduceMod, Nat.reduceDvd, Nat.reduceDiv, List.length_cons,
    List.length_nil, Nat.reduceAdd, Nat.reduceMul, Nat.reduceLeDiff, and_self, List.drop_succ_cons,
    List.drop_zero, Option.map_some, Option.bind_eq_bind, Option.bind_some, Option.pure_def,
    Option.some.injEq, StackMachine.mk.injEq, and_true]
  apply Registers.ext
  next =>
    funext r
    cases r <;> simp [restored, BitVec.add_assoc]
  next =>
    funext s
    cases s <;> simp [restored]
  next => rfl
  next => rfl

def handlerCpu (labels : Labels) (c : Registers) (vector : Nat) : Registers :=
  let stub := (c.enter (idt labels vector).gate).jump labels.commonIsrStub
  (((setDataSegs stub 0x10#16).setAx 0x10#16).jump labels.commonIsrHandler).set .esp
    (c.reg .esp - 64#32)

theorem handlerEntry_refines (labels : Labels) (m : ByteMachine) {vector : Nat}
    (defined : vector < 48) (code : U32) :
    Refines (handlerEntry labels m vector code)
      ⟨handlerCpu labels m.cpu vector,
        labels.afterCall :: (m.cpu.reg .esp - 56#32) :: (frame m.cpu vector code).words⟩ := by
  have start : Refines m ⟨m.cpu, []⟩ := ⟨rfl, wordsAt_nil _ _⟩
  obtain ⟨s, interrupted, stub⟩ :=
    Option.bind_eq_some_iff.mp (interrupt_stub labels m.cpu defined code)
  have called := ((start.interrupt interrupted).run stub).run (run_commonIsrStub labels _ _ _ _ _ _)
  have argument : m.cpu.reg .esp - 20#32 - 36#32 = m.cpu.reg .esp - 56#32 := by bv_omega
  have top : m.cpu.reg .esp - 20#32 - 44#32 = m.cpu.reg .esp - 64#32 := by bv_omega
  simpa [argument, top, handlerCpu, frame, RegistersT.words, setDataSegs, handlerEntry] using called

structure Describes (regs : RegistersT) (c : Registers) (vector : Nat) (code : U32) : Prop where
  intNo : regs.intNo = BitVec.ofNat 32 vector
  errCode : regs.errCode = if pushesErrorCode vector then code else 0#32
  eip : regs.eip = c.eip
  cs : regs.cs = (c.seg .cs).setWidth 32
  eflags : regs.eflags = c.eflags
  -- the upper half is that of EAX
  ds : regs.ds.setWidth 16 = c.seg .ds
  eax : regs.eax = c.reg .eax
  ebx : regs.ebx = c.reg .ebx
  ecx : regs.ecx = c.reg .ecx
  edx : regs.edx = c.reg .edx
  esi : regs.esi = c.reg .esi
  edi : regs.edi = c.reg .edi
  ebp : regs.ebp = c.reg .ebp

theorem frame_describes (c : Registers) (vector : Nat) (code : U32) :
    Describes (frame c vector code) c vector code where
  intNo := rfl
  errCode := by
    rw [frame, errorCode]
    cases pushesErrorCode vector <;> rfl
  eip := rfl
  cs := rfl
  eflags := rfl
  ds := setWidth_withLow _ _
  eax := rfl
  ebx := rfl
  ecx := rfl
  edx := rfl
  esi := rfl
  edi := rfl
  ebp := rfl

theorem restored_frame (c c' : Registers) (vector : Nat) (code : U32)
    (uniform : ∀ s ∈ [Seg.es, .fs, .gs], c.seg s = c.seg .ds)
    (esp : c'.reg .esp = c.reg .esp - 60#32) (ss : c'.seg .ss = c.seg .ss) :
    restored c' (frame c vector code) = c := by
  apply Registers.ext
  next =>
    funext r
    cases r <;> simp [restored, frame, esp]
  next =>
    funext s
    cases s <;> simp [restored, frame, ss, uniform]
  next => rfl
  next => rfl

-- The frame is where the stub left it; below it is whatever the argument's slot holds now.
theorem return_refines {labels : Labels} {m after : ByteMachine} {vector : Nat} {code : U32}
    (defined : vector < 48) (kept : Cdecl (handlerEntry labels m vector code) after) :
    Refines after ⟨after.cpu, after.top :: (frame m.cpu vector code).words⟩ := by
  have entered := handlerEntry_refines labels m defined code
  have frameWords := entered.stack.drop 2
  refine ⟨rfl, wordsAt_cons.mpr ⟨rfl, ?_⟩⟩
  rw [kept.esp, BitVec.add_assoc]
  refine WordsAt.congr frameWords ?_
  intro i inside
  have short : i < 56 := by simpa [RegistersT.words] using inside
  rw [BitVec.add_assoc, ← BitVec.ofNat_add, ← BitVec.ofNat_add]
  exact kept.frame (8 + i) (by omega) (by omega)

theorem stubs_transparent (labels : Labels) (m : ByteMachine)
    (uniform : ∀ s ∈ [Seg.es, .fs, .gs], m.cpu.seg s = m.cpu.seg .ds) {vector : Nat}
    (defined : vector < 48) (code : U32) :
    let entry := handlerEntry labels m vector code
    entry.cpu.eip = labels.commonIsrHandler ∧ entry.top = labels.afterCall ∧
      Describes (RegistersT.read entry.memory (argument entry)) m.cpu vector code ∧
      ∀ after, Cdecl entry after → (after.run commonIsrStubReturn).cpu = m.cpu := by
  have entered := handlerEntry_refines labels m defined code
  obtain ⟨top, rest⟩ := wordsAt_cons.mp entered.stack
  obtain ⟨pointer, words⟩ := wordsAt_cons.mp rest
  have regs : argument (handlerEntry labels m vector code) = m.cpu.reg .esp - 56#32 := pointer
  have esp : (handlerEntry labels m vector code).cpu.reg .esp = m.cpu.reg .esp - 64#32 := by
    rw [entered.cpu]
    simp [handlerCpu]
  refine ⟨by rw [entered.cpu]; rfl, top, ?_, ?_⟩
  next =>
    have place : m.cpu.reg .esp - 56#32 = m.cpu.reg .esp - 64#32 + 4#32 + 4#32 := by bv_omega
    rw [regs, place, ← esp, RegistersT.read_eq words]
    exact frame_describes _ _ _
  next =>
    intro after kept
    have back := (return_refines defined kept).run (run_commonIsrStubReturn _ _ _)
    rw [back.cpu]
    apply restored_frame _ _ _ _ uniform
    next =>
      rw [kept.esp, esp]
      bv_omega
    next =>
      rw [kept.ss, entered.cpu]
      simp [handlerCpu, setDataSegs, Registers.setAx]

-- A handler that does nothing but write to the registers it need not keep.
def clobber (entry : ByteMachine) : ByteMachine where
  cpu :=
    { ((((entry.cpu.set .eax 1#32).set .ecx 2#32).set .edx 3#32).setSeg .ds 0x23#16).set .esp
        (entry.cpu.reg .esp + 4#32) with
      eip := entry.top
      eflags := 0#32 }
  memory := entry.memory

theorem cdecl_clobber (entry : ByteMachine) : Cdecl entry (clobber entry) where
  eip := rfl
  esp := rfl
  saved := by
    intro r member
    simp only [Registers.calleeSaved, List.mem_cons, List.not_mem_nil, or_false] at member
    rcases member with rfl | rfl | rfl | rfl <;> rfl
  ss := rfl
  frame _ _ _ := rfl

def interrupted : ByteMachine where
  cpu.reg r := if r = .esp then 0x108FC0#32 else 0xDEADBEEF#32
  cpu.seg s := if s = .cs then 0x08#16 else 0x10#16
  cpu.eip := 0x100123#32
  cpu.eflags := 0x202#32
  memory _ := 0xCC#8

def linked : Labels where
  isr n := 0x101000#32 + BitVec.ofNat 32 (16 * n)
  commonIsrStub := 0x102000#32
  commonIsrHandler := 0x103000#32
  afterCall := 0x102020#32

theorem stubs_transparent_pageFault :
    let entry := handlerEntry linked interrupted 14 2#32
    Describes (RegistersT.read entry.memory (argument entry)) interrupted.cpu 14 2#32 ∧
      ((clobber (handlerEntry linked interrupted 32 0#32)).run commonIsrStubReturn).cpu =
        interrupted.cpu :=
  ⟨(stubs_transparent linked interrupted (by decide) (by decide : 14 < 48) 2#32).2.2.1,
    (stubs_transparent linked interrupted (by decide) (by decide : 32 < 48) 0#32).2.2.2 _
      (cdecl_clobber _)⟩

end SoraOS.Stubs
