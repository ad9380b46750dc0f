import Mathlib.Data.Fintype.OfMap
import Mathlib.Data.Fintype.Sum
import SoraOS.Scheduler.Schedule

set_option autoImplicit false

namespace SoraOS

abbrev maxProcesses : Nat := 64
abbrev maxThreads : Nat := 64

/-- The addresses of the two static pools, `&pcb_pool[i]` and `(pcb_t*)&tcb_pool[i]`. -/
inductive Slot where
  | pcb (i : Fin maxProcesses)
  | tcb (i : Fin maxThreads)
  deriving DecidableEq, Repr

def Slot.equivSum : Slot ≃ Fin maxProcesses ⊕ Fin maxThreads where
  toFun
    | .pcb i => .inl i
    | .tcb i => .inr i
  invFun
    | .inl i => .pcb i
    | .inr i => .tcb i
  left_inv := by rintro (i | i) <;> rfl
  right_inv := by rintro (i | i) <;> rfl

instance : Fintype Slot := Fintype.ofEquiv _ Slot.equivSum.symm

namespace Kernel

def bss (pmm : Pmm) (esp : U32) (memory : U32 → U32) : Kernel Slot where
  block := fun _ =>
    { pid := 0#32, state := .ready, priority := 0#8, esp := 0#32, stackBase := 0#32, next := none
      tid := 0#32, parent := none, waitNext := none }
  runQueue := none
  currentPcb := none
  idlePcb := none
  nextPid := 0#32
  nextTid := 0#32
  tcbPoolInitialized := false
  pmm := pmm
  esp := esp
  memory := memory

def allocPcb (k : Kernel Slot) : Option Slot :=
  let unused := (List.finRange maxProcesses).find? fun i =>
    k.state (.pcb i) = .dead && (k.block (.pcb i)).pid = 0#32
  let usedBefore := (List.finRange maxProcesses).find? fun i => k.state (.pcb i) = .dead
  (unused.or usedBefore).map Slot.pcb

def pcbFields (pid : U32) (priority : U8) (stack sp : U32) (t : Tcb Slot) : Tcb Slot :=
  { t with
    pid := pid
    state := .ready
    priority := priority
    esp := sp
    stackBase := stack
    next := none }

/-- The assignments of `create_process` between the allocation of the stack and `enqueue`. -/
def fillPcb (k : Kernel Slot) (pcb : Slot) (stack entryFn : U32) (priority : U8) : Kernel Slot :=
  let sp := stack + 4096#32 - 4#32
  let k := { k with memory := Function.update k.memory sp entryFn }
  let k := { k with nextPid := k.nextPid + 1#32 }
  k.modify pcb (pcbFields k.nextPid priority stack sp)

/-- Returns the new block (`none` for `NULL`); the outer `none` means it never returns. -/
def createProcess (k : Kernel Slot) (entryFn : U32) (priority : U8) :
    Option (Option Slot × Kernel Slot) :=
  match k.allocPcb with
  | none => some (none, k)
  | some pcb =>
      let (stack, pmm) := k.pmm.pmmAllocPage
      let k := { k with pmm := pmm }
      if stack = 0#32 then some (none, k)
      else do
        let k ← (k.fillPcb pcb stack entryFn priority).enqueue pcb
        return (some pcb, k)

def zeroPcbPool (k : Kernel Slot) : Kernel Slot :=
  { k with
    block := fun b => match b with
      | Slot.pcb i =>
          { k.block (.pcb i) with
            pid := 0#32
            state := .dead
            priority := 0#8
            esp := 0#32
            stackBase := 0#32
            next := none }
      | Slot.tcb i => k.block (.tcb i) }

/-- `none` when creating the idle process fails: `kernel_panic` halts forever. -/
def schedulerInit (k : Kernel Slot) (idleTask : U32) : Option (Kernel Slot) := do
  let (idlePcb, k) ← k.zeroPcbPool.createProcess idleTask 0#8
  let idle ← idlePcb
  let k := { k with idlePcb := some idle, currentPcb := some idle }
  return k.setState idle .running

def ensurePoolInit (k : Kernel Slot) : Kernel Slot :=
  if k.tcbPoolInitialized then k
  else
    { k with
      block := fun b => match b with
        | Slot.pcb i => k.block (.pcb i)
        | Slot.tcb i => { k.block (.tcb i) with state := .dead, pid := 0#32, tid := 0#32 }
      tcbPoolInitialized := true }

def allocTcb (k : Kernel Slot) : Option Slot × Kernel Slot :=
  let k := k.ensurePoolInit
  (((List.finRange maxThreads).find? fun i => k.state (.tcb i) = .dead).map Slot.tcb, k)

def tcbFields (tid : U32) (parent : Option Slot) (priority : U8) (stack sp : U32)
    (t : Tcb Slot) : Tcb Slot :=
  { t with
    tid := tid
    parent := parent
    waitNext := none
    -- Threads do not have their own PID.
    pid := 0#32
    state := .ready
    priority := priority
    esp := sp
    stackBase := stack
    next := none }

/-- `parent ? parent->priority : 1` -/
def threadPriority (k : Kernel Slot) : Option Slot → U8
  | some p => (k.block p).priority
  | none => 1#8

def fillTcb (k : Kernel Slot) (tcb : Slot) (stack : U32) (parent : Option Slot) (entryFn : U32) :
    Kernel Slot :=
  let sp := stack + 4096#32 - 4#32
  let k := { k with memory := Function.update k.memory sp entryFn }
  let k := { k with nextTid := k.nextTid + 1#32 }
  k.modify tcb (tcbFields k.nextTid parent (k.threadPriority parent) stack sp)

def createThread (k : Kernel Slot) (parent : Option Slot) (entryFn : U32) :
    Option (Option Slot × Kernel Slot) :=
  match k.allocTcb with
  | (none, k) => some (none, k)
  | (some tcb, k) =>
      let (stack, pmm) := k.pmm.pmmAllocPage
      let k := { k with pmm := pmm }
      if stack = 0#32 then some (none, k)
      else do
        let k ← (k.fillTcb tcb stack parent entryFn).enqueue tcb
        return (some tcb, k)

def threadExit (k : Kernel Slot) : Option (Kernel Slot) := k.processExit

def wipeThread (t : Tcb Slot) : Tcb Slot := { t with stackBase := 0#32, tid := 0#32 }

def findTid (k : Kernel Slot) (tid : U32) : Option (Fin maxThreads) :=
  (List.finRange maxThreads).find? fun i =>
    (k.block (.tcb i)).tid = tid && k.state (.tcb i) ≠ .dead

/-- Returns the deleted thread; `none` inside for "not found". -/
def threadDelete (k : Kernel Slot) (tid : U32) : Option (Option Slot × Kernel Slot) :=
  let k := k.ensurePoolInit
  match k.findTid tid with
  | none => some (none, k)
  | some i => do
      let k ← k.release (.tcb i) wipeThread
      return (some (.tcb i), k)

/-- `while (*s >= '0' && *s <= '9') target = target * 10 + (*s++ - '0');` in 32 bits. -/
def parseTarget : List U8 → U32 → U32
  | [], target => target
  | c :: s, target =>
      if 48#8 ≤ c ∧ c ≤ 57#8 then parseTarget s (target * 10#32 + (c - 48#8).setWidth 32) else target

/-- `while (p) { if (p->pid == target) ...; p = p->next; }` -/
def findPid (k : Kernel Slot) (target : U32) : Option (Option Slot) :=
  PointerList.walk k.links (fun p => (k.block p).pid = target) (loopFuel Slot) k.runQueue

def wipeProcess (t : Tcb Slot) : Tcb Slot := { t with stackBase := 0#32, pid := 0#32 }

def cmdKillprocess (k : Kernel Slot) (argv : List (List U8)) : Option (Option Slot × Kernel Slot) :=
  match argv with
  | _ :: argument :: _ => do
      match ← k.findPid (parseTarget argument 0#32) with
      | none => return (none, k)
      | some p =>
          let k ← k.release p wipeProcess
          return (some p, k)
  | _ => some (none, k)

def cmdNewprocess (k : Kernel Slot) (counterProcess : U32) : Option (Option Slot × Kernel Slot) := do
  let (p, k) ← k.createProcess counterProcess 1#8
  match p with
  | some pcb => return (some pcb, k.setState pcb .blocked)
  | none => return (none, k)

end Kernel

end SoraOS
