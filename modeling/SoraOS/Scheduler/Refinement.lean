import SoraOS.Scheduler.Killprocess

set_option autoImplicit false

/-! The run queue against a list that is edited by what the calls are to do. -/

namespace SoraOS.Refinement

-- The lowest free page lies in a whole word of the bitmap, and its address is not `NULL`.
def StackFound (s : Pmm) : Prop :=
  ∃ page < s.totalPages / 32 * 32, s.bitmapTest page = false ∧
    (∀ q < page, s.bitmapTest q = true) ∧ BitVec.ofNat 32 (page * pageSize) ≠ 0#32

instance (s : Pmm) : Decidable (StackFound s) :=
  inferInstanceAs (Decidable (∃ page < s.totalPages / 32 * 32, _ ∧ (∀ q < page, _) ∧ _))

def freeProcess (k : Kernel Slot) : Option Slot :=
  let dead := (List.finRange maxProcesses).filter fun i => k.state (.pcb i) = .dead
  ((dead.find? fun i => (k.block (.pcb i)).pid = 0#32).or dead.head?).map Slot.pcb

-- Before the first use of the pool every thread slot is free.
def freeThread (k : Kernel Slot) : Option Slot :=
  ((List.finRange maxThreads).filter fun i =>
    k.tcbPoolInitialized = true → k.state (.tcb i) = .dead).head?.map Slot.tcb

def liveThread (k : Kernel Slot) (tid : U32) : Option Slot :=
  if k.tcbPoolInitialized then
    ((List.finRange maxThreads).find? fun i =>
      (k.block (.tcb i)).tid = tid ∧ k.state (.tcb i) ≠ .dead).map Slot.tcb
  else none

/--
The abstract queue after a call, from the arguments and the state before it: what is created goes
to the tail, and what exits, is killed or deleted is erased.
-/
def edit (k : Kernel Slot) (l : List Slot) : Op → List Slot
  | .createProcess _ _ | .newprocess _ =>
      if StackFound k.pmm then l ++ (freeProcess k).toList else l
  | .createThread _ _ => if StackFound k.pmm then l ++ (freeThread k).toList else l
  | .schedule => l
  | .processExit => k.currentPcb.elim l l.erase
  | .killprocess (_ :: argument :: _) =>
      l.eraseP fun b => (k.pid b).toNat = Killprocess.leadingNumber argument
  | .killprocess _ => l
  | .threadDelete tid => (liveThread k tid).elim l l.erase

def step (s : Kernel Slot × List Slot) (c : Call) : Option (Kernel Slot × List Slot) :=
  (s.1.call c).map fun r => (r.2, edit s.1 s.2 c.op)

def run (s : Kernel Slot × List Slot) (calls : List Call) : Option (Kernel Slot × List Slot) :=
  calls.foldlM step s

theorem stackFound_iff (s : Pmm) : StackFound s ↔ s.pmmAllocPage.1 ≠ 0#32 := by
  rcases s.pmmAllocPage_cases with ⟨full, result⟩ | ⟨page, free, inside, lowest, result⟩
  · rw [result]
    simp only [ne_eq, not_true_eq_false, iff_false]
    rintro ⟨page, inside, clear, -⟩
    rw [full page inside] at clear
    cases clear
  · have clear := ((Pmm.mem_freeSet s page).mp free).2
    rw [result]
    constructor
    next =>
      rintro ⟨other, -, otherClear, otherLowest, address⟩
      have same : other = page := by
        rcases Nat.lt_trichotomy other page with less | same | more
        · rw [lowest other less] at otherClear
          cases otherClear
        · exact same
        · rw [otherLowest page more] at clear
          cases clear
      exact same ▸ address
    next => exact fun address => ⟨page, inside, clear, lowest, address⟩

theorem freeProcess_eq (k : Kernel Slot) : freeProcess k = k.allocPcb := by
  simp only [freeProcess, Kernel.allocPcb, List.find?_filter, List.head?_filter,
    Bool.decide_and, Bool.decide_eq_true]

theorem freeThread_eq (k : Kernel Slot) : freeThread k = k.allocTcb.1 := by
  rw [freeThread, Kernel.allocTcb, List.head?_filter]
  cases ready : k.tcbPoolInitialized with
  | true => simp [Kernel.ensurePoolInit, ready]
  | false => simp [Kernel.ensurePoolInit, ready, Kernel.state]

theorem liveThread_eq (k : Kernel Slot) (tid : U32) :
    liveThread k tid = (k.ensurePoolInit.findTid tid).map Slot.tcb := by
  rw [liveThread, Kernel.findTid]
  cases ready : k.tcbPoolInitialized with
  | true => simp [Kernel.ensurePoolInit, ready]
  | false => simp [Kernel.ensurePoolInit, ready, Kernel.state]

theorem eraseP_of_find {α : Type} [DecidableEq α] {p : α → Bool} {l : List α} {a : α}
    (found : l.find? p = some a) : l.eraseP p = l.erase a := by
  induction l with
  | nil => cases found
  | cons x rest ih =>
      cases passes : p x with
      | true =>
          obtain rfl : x = a := by simpa [passes] using found
          simp [passes]
      | false =>
          have later : rest.find? p = some a := by simpa [passes] using found
          have different : x ≠ a := by
            rintro rfl
            rw [List.find?_some later] at passes
            cases passes
          rw [List.eraseP_cons_of_neg (by simp [passes]), ih later,
            List.erase_cons_tail (by simpa using different)]

theorem leading_iff (k : Kernel Slot) (argument : List U8) (b : Slot) :
    (k.pid b).toNat = Killprocess.leadingNumber argument ↔
      (k.block b).pid = Kernel.parseTarget argument 0#32 := by
  rw [← Killprocess.parseTarget_eq, BitVec.toNat_inj]
  rfl

theorem edit_of_outcome {k k' : Kernel Slot} {l : List Slot} {op : Op} {block : Option Slot}
    (outcome : k.Outcome l op block k') : edit k l op = op.edit block l := by
  cases outcome with
  | processPoolFull _ _ full => simp [edit, freeProcess_eq, full, Op.edit]
  | processNoStack _ _ null => simp [edit, stackFound_iff, null, Op.edit]
  | process _ _ i next head found stack =>
      simp [edit, stackFound_iff, stack, freeProcess_eq, found, Op.edit]
  | newprocessFailed _ _ failed =>
      cases failed with
      | processPoolFull _ _ full => simp [edit, freeProcess_eq, full, Op.edit]
      | processNoStack _ _ null => simp [edit, stackFound_iff, null, Op.edit]
  | newprocess _ pcb k' made =>
      cases made with
      | process _ _ i next head found stack =>
          simp [edit, stackFound_iff, stack, freeProcess_eq, found, Op.edit]
  | threadPoolFull _ _ full => simp [edit, freeThread_eq, full, Op.edit]
  | threadNoStack _ _ null => simp [edit, stackFound_iff, null, Op.edit]
  | thread _ _ i next head found stack =>
      simp [edit, stackFound_iff, stack, freeThread_eq, found, Op.edit]
  | schedule => rfl
  | exit current idle next head running => simp [edit, running, Op.edit]
  | killNothing argv nobody =>
      rcases argv with - | ⟨name, - | ⟨argument, rest⟩⟩
      next => rfl
      next => rfl
      next =>
        have none := List.find?_eq_none.mp (nobody name argument rest rfl)
        refine List.eraseP_of_forall_not fun b member => ?_
        simpa [leading_iff] using none b member
  | kill name argument rest p next head first =>
      refine eraseP_of_find ?_
      simpa only [leading_iff] using first
  | deleteNothing tid nobody => simp [edit, liveThread_eq, nobody, Op.edit]
  | delete tid i next head first => simp [edit, liveThread_eq, first, Op.edit]

theorem edit_withEsp (k : Kernel Slot) (l : List Slot) (op : Op) (esp : U32) :
    edit { k with esp := esp } l op = edit k l op := by
  cases op with
  | killprocess argv =>
      rcases argv with - | ⟨_, - | ⟨_, _⟩⟩ <;> rfl
  | _ => rfl

theorem consistent_run {k : Kernel Slot} {l : List Slot} (h : k.Consistent l) (calls : List Call) :
    ∃ k' l', run (k, l) calls = some (k', l') ∧ k'.Consistent l' := by
  induction calls generalizing k l with
  | nil => exact ⟨k, l, rfl, h⟩
  | cons c rest ih =>
      obtain ⟨block, k', result, outcome, kept⟩ := h.call c
      have edited : edit k l c.op = c.op.edit block l :=
        (edit_withEsp k l c.op c.esp).symm.trans (edit_of_outcome outcome)
      obtain ⟨k'', l'', remaining, final⟩ := ih kept
      have stepped : step (k, l) c = some (k', c.op.edit block l) := by
        simp [step, result, edited]
      refine ⟨k'', l'', ?_, final⟩
      simpa [run, List.foldlM_cons, stepped] using remaining

/--
Every run of calls after `scheduler_init` returns, and following `next` from
`run_queue` then reads the abstract queue: distinct blocks, none of them DEAD.
-/
theorem runQueue_reads_abstract (pmm : Pmm) (esp idleTask : U32) (memory : U32 → U32)
    (k : Kernel Slot) (booted : (Kernel.bss pmm esp memory).schedulerInit idleTask = some k)
    (calls : List Call) :
    ∃ k' l, run (k, k.idlePcb.toList) calls = some (k', l) ∧
      PointerList.Reads k'.links k'.runQueue l ∧ l.Nodup ∧ ∀ b ∈ l, k'.state b ≠ .dead := by
  obtain ⟨i, next, head, _, shape, consistent⟩ := Kernel.schedulerInit_spec booted
  have idling : k.idlePcb = some (.pcb i) := by rw [shape]; rfl
  obtain ⟨k', l, ran, final⟩ := consistent_run consistent calls
  refine ⟨k', l, ?_, final.queue, final.queue.nodup, final.live⟩
  simpa [idling] using ran

theorem runQueue_reads_abstract_smallBoot :
    ∃ k, smallBoot = some k ∧
      ∃ k' l, run (k, k.idlePcb.toList)
          [⟨.newprocess 0x100200#32, 0x10FF00#32⟩, ⟨.killprocess [[], [49#8]], 0x10FF00#32⟩] =
            some (k', l) ∧
        PointerList.Reads k'.links k'.runQueue l ∧ l.Nodup ∧ ∀ b ∈ l, k'.state b ≠ .dead := by
  obtain ⟨k, booted⟩ := Option.isSome_iff_exists.mp smallBoot_isSome
  exact ⟨k, booted, runQueue_reads_abstract _ _ _ _ k booted _⟩

end SoraOS.Refinement
