import SoraOS.Scheduler.Pools

set_option autoImplicit false

namespace SoraOS

structure ProcessLine where
  pid : U32
  state : ProcessState
  priority : U8
  deriving DecidableEq

/-- A line of `threads`, or of the second table of `ls`; without a parent it says "none". -/
structure ThreadLine where
  tid : U32
  state : ProcessState
  parent : Option U32
  deriving DecidableEq

namespace Kernel

/-- The entries that a walk of the queue visits; `none` when it never ends. -/
def entries (k : Kernel Slot) : Option (List Slot) :=
  PointerList.collect k.links (loopFuel Slot) k.runQueue

theorem Queue.entries {k : Kernel Slot} {l : List Slot} (h : k.Queue l) : k.entries = some l :=
  PointerList.collect_reads h _ h.length_lt

def pid (k : Kernel Slot) (b : Slot) : U32 := (k.block b).pid

def tid (k : Kernel Slot) (b : Slot) : U32 := (k.block b).tid

def processLine (k : Kernel Slot) (p : Slot) : ProcessLine where
  pid := k.pid p
  state := k.state p
  priority := (k.block p).priority

/-- `(tcb_t*)p`; `none` where the block is no TCB and the cast would read past its end. -/
def threadLine (k : Kernel Slot) : Slot → Option ThreadLine
  | .pcb _ => none
  | .tcb i => some
      { tid := k.tid (.tcb i)
        state := k.state (.tcb i)
        parent := (k.block (.tcb i)).parent.map k.pid }

def cmdPs (k : Kernel Slot) : Option (List ProcessLine) := do
  let entries ← k.entries
  return (entries.filter fun p => k.pid p ≠ 0#32).map k.processLine

def cmdThreads (k : Kernel Slot) : Option (List ThreadLine) := do
  let entries ← k.entries
  (entries.filter fun p => k.pid p = 0#32).mapM k.threadLine

def cmdLs (k : Kernel Slot) : Option (List (U32 × ProcessState) × List ThreadLine) := do
  let processes ← k.cmdPs
  let threads ← k.cmdThreads
  return (processes.map fun line => (line.pid, line.state), threads)

theorem mem_of_mem_mapM {A C : Type} {f : A → Option C} {xs : List A} {ys : List C}
    (mapped : xs.mapM f = some ys) {y : C} (member : y ∈ ys) : ∃ x ∈ xs, f x = some y := by
  induction xs generalizing ys with
  | nil =>
      obtain rfl := Option.some.inj mapped
      cases member
  | cons x rest ih =>
      rw [List.mapM_cons] at mapped
      obtain ⟨first, here, mapped⟩ := Option.bind_eq_some_iff.mp mapped
      obtain ⟨others, later, mapped⟩ := Option.bind_eq_some_iff.mp mapped
      obtain rfl := Option.some.inj mapped
      rcases List.mem_cons.mp member with rfl | older
      next => exact ⟨x, List.mem_cons_self, here⟩
      next =>
        obtain ⟨a, listed, shown⟩ := ih later older
        exact ⟨a, List.mem_cons_of_mem _ listed, shown⟩

theorem cmdThreads_line {k : Kernel Slot} {lines : List ThreadLine} (listed : k.cmdThreads = some lines)
    {line : ThreadLine} (member : line ∈ lines) : ∃ i, k.threadLine (.tcb i) = some line := by
  rw [cmdThreads] at listed
  obtain ⟨entries, _, lined⟩ := Option.bind_eq_some_iff.mp listed
  obtain ⟨b, _, shown⟩ := mem_of_mem_mapM lined member
  cases b with
  | pcb i => cases shown
  | tcb i => exact ⟨i, shown⟩

theorem cmdLs_threads {k : Kernel Slot} {processes : List (U32 × ProcessState)}
    {lines : List ThreadLine} (listed : k.cmdLs = some (processes, lines)) :
    k.cmdThreads = some lines := by
  rw [cmdLs] at listed
  obtain ⟨_, _, rest⟩ := Option.bind_eq_some_iff.mp listed
  obtain ⟨threads, walked, pair⟩ := Option.bind_eq_some_iff.mp rest
  rw [walked, (Prod.mk.inj (Option.some.inj pair)).2]

end Kernel

end SoraOS
