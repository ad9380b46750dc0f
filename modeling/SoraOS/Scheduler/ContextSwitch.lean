import SoraOS.Scheduler.Stacks
import SoraOS.Shared.Cpu

set_option autoImplicit false

namespace SoraOS

/-- `offsetof(pcb_t, esp)`. -/
def espOffset : U32 := 12#32

open X86 in
def contextSwitchText : List Instr :=
  [.load .eax .esp 4#32, .store .eax espOffset .esp, .load .eax .esp 8#32, .load .esp .eax espOffset,
    .ret]

theorem run_contextSwitchText (cpu : X86.Cpu) :
    let saved := Function.update cpu.memory (cpu.memory (cpu.reg .esp + 4#32) + espOffset)
      (cpu.reg .esp)
    let top := saved (saved (cpu.reg .esp + 8#32) + espOffset)
    (cpu.run contextSwitchText).memory = saved ∧ (cpu.run contextSwitchText).reg .esp = top + 4#32 ∧
      (cpu.run contextSwitchText).eip = saved top := by
  -- The pointer to the new block is read after the store into the old one.
  simp [contextSwitchText, X86.Cpu.exec, X86.Cpu.set]

namespace Kernel

variable {B : Type}

def push (k : Kernel B) (word : U32) : Kernel B :=
  { k with
    esp := k.esp - 4#32
    memory := Function.update k.memory (k.esp - 4#32) word }

/-- ESP after a `ret`, which loads EIP from `top`. -/
def popped (k : Kernel B) : Kernel B := { k with esp := k.esp + 4#32 }

def top (k : Kernel B) : U32 := k.memory k.esp

section Switch

variable [DecidableEq B]

theorem contextSwitch_block (k : Kernel B) (old new b : B) :
    (k.contextSwitch old new).block b =
      if b = old then { k.block old with esp := k.esp } else k.block b :=
  modify_block k old (fun t => { t with esp := k.esp }) b

theorem contextSwitch_esp (k : Kernel B) {old new : B} (different : new ≠ old) :
    (k.contextSwitch old new).esp = (k.block new).esp := by
  rw [contextSwitch]
  simp only [modify_block_other _ _ different]

@[simp] theorem contextSwitch_memory (k : Kernel B) (old new : B) :
    (k.contextSwitch old new).memory = k.memory := rfl

/-- The registers and words of `cpu` are those of `k`, each block's `esp` at its offset. -/
structure Holds (address : B → U32) (cpu : X86.Cpu) (k : Kernel B) : Prop where
  esp : cpu.reg .esp = k.esp
  saved : ∀ b, cpu.memory (address b + espOffset) = (k.block b).esp
  other : ∀ a, (∀ b, a ≠ address b + espOffset) → cpu.memory a = k.memory a

/--
The assembly does what `contextSwitch` and a `ret` do, if `old` and `new` are the arguments above
the return address and neither they nor the new top of stack overlap a saved `esp`.
-/
theorem contextSwitchText_run {address : B → U32} (injective : Function.Injective address)
    {cpu : X86.Cpu} {k : Kernel B} (holds : Holds address cpu k) {old new : B}
    (different : new ≠ old) (oldArgument : cpu.memory (k.esp + 4#32) = address old)
    (newArgument : cpu.memory (k.esp + 8#32) = address new)
    (apart : k.esp + 8#32 ≠ address old + espOffset)
    (onStack : ∀ b, (k.block new).esp ≠ address b + espOffset) :
    Holds address (cpu.run contextSwitchText) (k.contextSwitch old new).popped ∧
      (cpu.run contextSwitchText).eip = (k.contextSwitch old new).top := by
  have text := run_contextSwitchText cpu
  simp only [holds.esp, oldArgument, newArgument, Function.update_of_ne apart] at text
  have newField : address new + espOffset ≠ address old + espOffset :=
    fun same => different (injective ((BitVec.add_left_inj _).mp same))
  rw [Function.update_of_ne newField, holds.saved new, Function.update_of_ne (onStack old),
    holds.other _ onStack] at text
  obtain ⟨memory, esp, eip⟩ := text
  refine ⟨⟨?_, ?_, ?_⟩, ?_⟩
  · rw [esp, popped, contextSwitch_esp k different]
  · intro b
    rw [memory, popped, contextSwitch_block]
    by_cases same : b = old
    next => simp [same]
    next =>
      have field : address b + espOffset ≠ address old + espOffset :=
        fun equal => same (injective ((BitVec.add_left_inj _).mp equal))
      rw [Function.update_of_ne field, if_neg same, holds.saved b]
  · intro a notField
    rw [memory, Function.update_of_ne (notField old)]
    exact holds.other a notField
  · rw [eip, top, contextSwitch_memory, contextSwitch_esp k different]

theorem setState_esp (k : Kernel B) (b c : B) (state : ProcessState) :
    ((k.setState b state).block c).esp = (k.block c).esp := by
  rw [setState, modify_block]
  split
  next same => rw [same]
  next => rfl

theorem switchTo_block_esp (k : Kernel B) (old next b : B) :
    ((k.switchTo old next).block b).esp = if b = old then k.esp else (k.block b).esp := by
  rw [switchTo, contextSwitch_block]
  by_cases same : b = old
  next =>
    rw [if_pos same, if_pos same]
    split <;> rfl
  next =>
    rw [if_neg same, if_neg same]
    split
    next => exact (setState_esp _ next b .running).trans (setState_esp k old b .ready)
    next => exact setState_esp k next b .running

theorem switchTo_esp (k : Kernel B) {old next : B} (different : next ≠ old) :
    (k.switchTo old next).esp = (k.block next).esp := by
  have saved := switchTo_block_esp k old next next
  rw [if_neg different] at saved
  rw [← saved]
  rfl

@[simp] theorem switchTo_memory (k : Kernel B) (old next : B) :
    (k.switchTo old next).memory = k.memory := by
  rw [switchTo, contextSwitch_memory]
  split <;> rfl

end Switch

end Kernel

structure SwitchCall where
  old : Slot
  next : Slot
  returnAddress : U32
  esp : U32

/-- The kernel on one CPU; nothing reads `entryFn` and `calls`, which record the run so far. -/
structure Machine where
  kernel : Kernel Slot
  eip : U32
  -- What each block was last created with.
  entryFn : Slot → U32
  -- The newest first.
  calls : List SwitchCall

namespace Machine

def start (kernel : Kernel Slot) (eip idleTask : U32) : Machine where
  kernel := kernel
  eip := eip
  entryFn := fun _ => idleTask
  calls := []

def createProcess (m : Machine) (entryFn : U32) (priority : U8) : Option Machine := do
  let (block, k) ← m.kernel.createProcess entryFn priority
  match block with
  | some b => return { m with kernel := k, entryFn := Function.update m.entryFn b entryFn }
  | none => return { m with kernel := k }

/-- `schedule()`; only a switch calls `context_switch`, so else there is no push and no `ret`. -/
def schedule (m : Machine) (returnAddress : U32) : Option Machine := do
  let k ← (m.kernel.push returnAddress).schedule
  match m.kernel.currentPcb, k.currentPcb with
  | some old, some next =>
      if next = old then return m
      else
        return { m with
          kernel := k.popped
          eip := k.top
          calls := ⟨old, next, returnAddress, m.kernel.esp⟩ :: m.calls }
  | _, _ => return m

def latestCall (m : Machine) (b : Slot) : Option SwitchCall := m.calls.find? fun c => c.old = b

/-- Where `b` goes on, EIP and ESP: after its latest call, or else at the start of its function. -/
def resumption (m : Machine) (b : Slot) : U32 × U32 :=
  match m.latestCall b with
  | some c => (c.returnAddress, c.esp)
  | none => (m.entryFn b, m.kernel.stackBase b + 4096#32)

end Machine

end SoraOS
