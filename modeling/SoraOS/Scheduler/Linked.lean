import SoraOS.Scheduler.Pools

set_option autoImplicit false

namespace SoraOS.Kernel

section Generic

variable {B : Type}

structure Linked (k : Kernel B) (l : List B) : Prop where
  queue : k.Queue l
  unlinked : ∀ b ∉ l, k.links b = none
  live : ∀ b ∈ l, k.state b ≠ .dead

theorem Linked.congr {k k' : Kernel B} {l : List B} (h : k.Linked l) (links : k'.links = k.links)
    (head : k'.runQueue = k.runQueue) (live : ∀ b ∈ l, k'.state b = .dead → k.state b = .dead) :
    k'.Linked l := by
  refine ⟨?_, ?_, fun b member dead => h.live b member (live b member dead)⟩
  · rw [Queue, links, head]
    exact h.queue
  · rw [links]
    exact h.unlinked

variable [DecidableEq B] [Fintype B]

omit [Fintype B] in
theorem switchTo_dead {k : Kernel B} {old next b : B}
    (dead : (k.switchTo old next).state b = .dead) : k.state b = .dead := by
  rw [switchTo_state] at dead
  by_cases isNext : b = next
  · simp [isNext] at dead
  · rw [Function.update_of_ne isNext] at dead
    split at dead
    next =>
      by_cases isOld : b = old
      · simp [isOld] at dead
      · rwa [Function.update_of_ne isOld] at dead
    next => exact dead

omit [Fintype B] in
theorem Linked.switchTo {k : Kernel B} {l : List B} (h : k.Linked l) (old next : B) :
    (k.switchTo old next).Linked l :=
  h.congr (by simp) (by simp) (fun _ _ => switchTo_dead)

omit [Fintype B] in
theorem Linked.setState {k : Kernel B} {l : List B} (h : k.Linked l) (b : B) {s : ProcessState}
    (alive : s ≠ .dead) : (k.setState b s).Linked l := by
  refine h.congr (by simp) (by simp) ?_
  intro c _ dead
  rw [setState_state] at dead
  by_cases same : c = b
  · simp [same, alive] at dead
  · rwa [Function.update_of_ne same] at dead

omit [Fintype B] in
theorem Linked.released {k : Kernel B} {l : List B} (h : k.Linked l) (b : B) (wipe : Tcb B → Tcb B)
    (keepsNext : ∀ t, (wipe t).next = t.next) (keepsState : ∀ t, (wipe t).state = t.state)
    {next : B → Option B} {head : Option B} (reads : PointerList.Reads next head (l.erase b))
    (rest : ∀ c ∉ l.erase b, next c = none) :
    (k.released b wipe next head).Linked (l.erase b) := by
  have links := released_links k b wipe next head keepsNext
  refine ⟨?_, ?_, ?_⟩
  · rw [Queue, links]
    exact reads
  · rw [links]
    exact rest
  · intro c member
    have different : c ≠ b := by
      rintro rfl
      exact (List.Nodup.mem_erase_iff h.queue.nodup).mp member |>.1 rfl
    rw [released_state k b wipe next head keepsState, Function.update_of_ne different]
    exact h.live c (List.mem_of_mem_erase member)

theorem Linked.release {k : Kernel B} {l : List B} (h : k.Linked l) (b : B) (wipe : Tcb B → Tcb B)
    (keepsNext : ∀ t, (wipe t).next = t.next) (keepsState : ∀ t, (wipe t).state = t.state) :
    ∃ next head, k.release b wipe = some (k.released b wipe next head) ∧
      (k.released b wipe next head).Linked (l.erase b) := by
  obtain ⟨next, head, result, reads, rest⟩ := release_spec b wipe h.queue h.unlinked
  exact ⟨next, head, result, h.released b wipe keepsNext keepsState reads rest⟩

theorem Linked.adopt {k : Kernel B} {l : List B} (h : k.Linked l) {b : B} (fresh : b ∉ l)
    (fill : Tcb B → Tcb B) (unlinked : (fill (k.block b)).next = none)
    (alive : (fill (k.block b)).state ≠ .dead) :
    ∃ next head, (k.modify b fill).enqueue b = some ((k.modify b fill).relink next head) ∧
      ((k.modify b fill).relink next head).Linked (l ++ [b]) := by
  have links : (k.modify b fill).links = Function.update k.links b none := by
    funext c
    by_cases same : c = b
    · simp [Kernel.links, same, unlinked]
    · simp [Kernel.links, modify_block_other k fill same, same]
  have filled : (k.modify b fill).Queue l := by
    rw [Queue, links]
    exact PointerList.Reads.update_outside h.queue fresh none
  obtain ⟨next, head, result, longer, others⟩ := enqueue_spec filled fresh
  refine ⟨next, head, result, longer, ?_, ?_⟩
  · intro c absent
    simp only [List.mem_append, List.mem_singleton, not_or] at absent
    have notLast : l.getLast? ≠ some c := fun last => absent.1 (List.mem_of_getLast? last)
    simp only [relink_links, others c absent.2 notLast, links, Function.update_of_ne absent.2]
    exact h.unlinked c absent.1
  · intro c member
    by_cases same : c = b
    · simpa [state, relink, same] using alive
    · have older : c ∈ l := by simpa [same] using member
      simpa [state, relink, modify_block_other k fill same] using h.live c older

omit [Fintype B] in
theorem Linked.linkTail {k : Kernel B} {l : List B} (h : k.Linked l) {tail b : B}
    (last : l.getLast? = some tail) (fresh : b ∉ l) (alive : k.state b ≠ .dead) :
    (k.setNext tail (some b)).Linked (l ++ [b]) := by
  rw [setNext_eq_relink]
  refine ⟨?_, ?_, ?_⟩
  · obtain ⟨front, rfl⟩ := List.getLast?_eq_some_iff.mp last
    simpa [Queue] using h.queue.append fresh (h.unlinked b fresh)
  · intro c absent
    simp only [List.mem_append, List.mem_singleton, not_or] at absent
    have notTail : c ≠ tail := by
      rintro rfl
      exact absent.1 (List.mem_of_getLast? last)
    rw [relink_links, Function.update_of_ne notTail]
    exact h.unlinked c absent.1
  · intro c member
    rcases List.mem_append.mp member with old | new
    · exact h.live c old
    · exact List.mem_singleton.mp new ▸ alive

theorem Linked.schedule {k : Kernel B} {l : List B} (h : k.Linked l) {current idle : B}
    (running : k.currentPcb = some current) (idling : k.idlePcb = some idle) :
    ∃ k', k.schedule = some k' ∧ k'.Linked l ∧ k.Scheduled l current idle k' := by
  obtain ⟨k', result, scheduled⟩ := schedule_scheduled h.queue (h.unlinked current) running idling
  refine ⟨k', result, ?_, scheduled⟩
  cases scheduled with
  | idles => exact h
  | itself => exact h
  | ready next => exact h.switchTo current next
  | fallback => exact h.switchTo current idle

theorem Linked.processExit {k : Kernel B} {l : List B} (h : k.Linked l) {current idle : B}
    (running : k.currentPcb = some current) (idling : k.idlePcb = some idle) :
    ∃ next head,
      k.processExit = some ((k.released current wipeExit next head).leaveToIdle current idle) ∧
      ((k.released current wipeExit next head).leaveToIdle current idle).Linked (l.erase current) := by
  obtain ⟨next, head, result, shorter⟩ :=
    h.release current wipeExit (fun _ => rfl) (fun _ => rfl)
  refine ⟨next, head, by simp [Kernel.processExit, running, idling, result], ?_⟩
  refine shorter.congr (leaveToIdle_links _ _ _) rfl ?_
  intro b _ dead
  rw [leaveToIdle_state] at dead
  by_cases isIdle : b = idle
  · simp [isIdle] at dead
  · rwa [Function.update_of_ne isIdle] at dead

end Generic

section Slots

theorem allocPcb_some {k : Kernel Slot} {b : Slot} (found : k.allocPcb = some b) :
    (∃ i, b = .pcb i) ∧ k.state b = .dead := by
  obtain ⟨i, chosen, rfl⟩ := Option.map_eq_some_iff.mp found
  refine ⟨⟨i, rfl⟩, ?_⟩
  rcases Option.or_eq_some_iff.mp chosen with unused | ⟨_, usedBefore⟩
  · have dead := List.find?_some unused
    simp only [Bool.and_eq_true, decide_eq_true_eq] at dead
    exact dead.1
  · simpa using List.find?_some usedBefore

theorem ensurePoolInit_block_pcb (k : Kernel Slot) (i : Fin maxProcesses) :
    k.ensurePoolInit.block (.pcb i) = k.block (.pcb i) := by
  unfold ensurePoolInit
  split <;> rfl

@[simp] theorem ensurePoolInit_links (k : Kernel Slot) : k.ensurePoolInit.links = k.links := by
  unfold ensurePoolInit
  split
  · rfl
  · funext b
    cases b <;> rfl

@[simp] theorem ensurePoolInit_runQueue (k : Kernel Slot) :
    k.ensurePoolInit.runQueue = k.runQueue := by
  unfold ensurePoolInit
  split <;> rfl
@[simp] theorem ensurePoolInit_currentPcb (k : Kernel Slot) :
    k.ensurePoolInit.currentPcb = k.currentPcb := by
  unfold ensurePoolInit
  split <;> rfl
@[simp] theorem ensurePoolInit_idlePcb (k : Kernel Slot) :
    k.ensurePoolInit.idlePcb = k.idlePcb := by
  unfold ensurePoolInit
  split <;> rfl
@[simp] theorem ensurePoolInit_pmm (k : Kernel Slot) : k.ensurePoolInit.pmm = k.pmm := by
  unfold ensurePoolInit
  split <;> rfl
@[simp] theorem ensurePoolInit_tcbPoolInitialized (k : Kernel Slot) :
    k.ensurePoolInit.tcbPoolInitialized = true := by
  unfold ensurePoolInit
  split <;> simp_all

@[simp] theorem allocTcb_snd (k : Kernel Slot) : k.allocTcb.2 = k.ensurePoolInit := rfl

theorem allocTcb_some {k : Kernel Slot} {b : Slot} (found : k.allocTcb.1 = some b) :
    (∃ i, b = .tcb i) ∧ k.ensurePoolInit.state b = .dead := by
  obtain ⟨i, chosen, rfl⟩ := Option.map_eq_some_iff.mp found
  exact ⟨⟨i, rfl⟩, by simpa using List.find?_some chosen⟩

theorem Linked.allocPcb_fresh {k : Kernel Slot} {l : List Slot} (h : k.Linked l) {b : Slot}
    (found : k.allocPcb = some b) : b ∉ l :=
  fun member => h.live b member (allocPcb_some found).2

/-- The queue invariant of the two pools: threads are listed only once their pool is set up. -/
structure Consistent (k : Kernel Slot) (l : List Slot) : Prop extends Linked k l where
  poolReady : k.tcbPoolInitialized = false → ∀ i, Slot.tcb i ∉ l
  current : ∃ c, k.currentPcb = some c
  idle : ∃ i, k.idlePcb = some i

theorem Consistent.ensurePoolInit_block {k : Kernel Slot} {l : List Slot} (h : k.Consistent l)
    {b : Slot} (member : b ∈ l) : k.ensurePoolInit.block b = k.block b := by
  cases b with
  | pcb i => exact Kernel.ensurePoolInit_block_pcb k i
  | tcb i =>
      have ready : k.tcbPoolInitialized = true := by
        by_contra fresh
        exact h.poolReady (by simpa using fresh) i member
      rw [Kernel.ensurePoolInit, if_pos ready]

theorem Consistent.ensurePoolInit {k : Kernel Slot} {l : List Slot} (h : k.Consistent l) :
    k.ensurePoolInit.Consistent l := by
  refine ⟨?_, by simp, by simpa using h.current, by simpa using h.idle⟩
  apply h.toLinked.congr (by simp) (by simp)
  intro b member dead
  rwa [state, h.ensurePoolInit_block member] at dead

theorem Consistent.allocTcb_fresh {k : Kernel Slot} {l : List Slot} (h : k.Consistent l) {b : Slot}
    (found : k.allocTcb.1 = some b) : b ∉ l :=
  fun member => h.ensurePoolInit.live b member (allocTcb_some found).2

/-- The kernel after a successful `create_process`, given the links of the longer queue. -/
def withProcess (k : Kernel Slot) (pcb : Slot) (entryFn : U32) (priority : U8)
    (next : Slot → Option Slot) (head : Option Slot) : Kernel Slot :=
  (({ k with pmm := k.pmm.pmmAllocPage.2 } : Kernel Slot).fillPcb pcb k.pmm.pmmAllocPage.1
    entryFn priority).relink next head

def withThread (k : Kernel Slot) (tcb : Slot) (parent : Option Slot) (entryFn : U32)
    (next : Slot → Option Slot) (head : Option Slot) : Kernel Slot :=
  (({ k.ensurePoolInit with pmm := k.pmm.pmmAllocPage.2 } : Kernel Slot).fillTcb tcb
    k.pmm.pmmAllocPage.1 parent entryFn).relink next head

theorem withProcess_block (k : Kernel Slot) (pcb : Slot) (entryFn : U32) (priority : U8)
    (next : Slot → Option Slot) (head : Option Slot) (b : Slot) :
    (k.withProcess pcb entryFn priority next head).block b =
      { (if b = pcb then
          pcbFields (k.nextPid + 1#32) priority k.pmm.pmmAllocPage.1
            (k.pmm.pmmAllocPage.1 + 4096#32 - 4#32) (k.block b)
        else k.block b) with next := next b } := by
  simp only [withProcess, relink, fillPcb, modify_block]
  by_cases same : b = pcb <;> simp [same]

theorem withThread_block (k : Kernel Slot) (tcb : Slot) (parent : Option Slot) (entryFn : U32)
    (next : Slot → Option Slot) (head : Option Slot) (b : Slot) :
    (k.withThread tcb parent entryFn next head).block b =
      { (if b = tcb then
          tcbFields (k.ensurePoolInit.nextTid + 1#32) parent
            (k.ensurePoolInit.threadPriority parent) k.pmm.pmmAllocPage.1
            (k.pmm.pmmAllocPage.1 + 4096#32 - 4#32) (k.ensurePoolInit.block b)
        else k.ensurePoolInit.block b) with next := next b } := by
  simp only [withThread, relink, fillTcb, modify_block]
  by_cases same : b = tcb
  · simp only [same, if_true]
    rfl
  · simp [same]

theorem withProcess_state (k : Kernel Slot) (pcb : Slot) (entryFn : U32) (priority : U8)
    (next : Slot → Option Slot) (head : Option Slot) :
    (k.withProcess pcb entryFn priority next head).state = Function.update k.state pcb .ready := by
  funext b
  by_cases same : b = pcb <;> simp [state, withProcess_block, pcbFields, same]

theorem withThread_state (k : Kernel Slot) (tcb : Slot) (parent : Option Slot) (entryFn : U32)
    (next : Slot → Option Slot) (head : Option Slot) :
    (k.withThread tcb parent entryFn next head).state =
      Function.update k.ensurePoolInit.state tcb .ready := by
  funext b
  by_cases same : b = tcb <;> simp [state, withThread_block, tcbFields, same]

theorem Linked.createProcess {k : Kernel Slot} {l : List Slot} (h : k.Linked l) (entryFn : U32)
    (priority : U8) :
    (k.allocPcb = none ∧ k.createProcess entryFn priority = some (none, k)) ∨
    (k.pmm.pmmAllocPage.1 = 0#32 ∧
      k.createProcess entryFn priority = some (none, { k with pmm := k.pmm.pmmAllocPage.2 })) ∨
    ∃ pcb next head, k.allocPcb = some pcb ∧ pcb ∉ l ∧ k.pmm.pmmAllocPage.1 ≠ 0#32 ∧
      k.createProcess entryFn priority =
        some (some pcb, k.withProcess pcb entryFn priority next head) ∧
      (k.withProcess pcb entryFn priority next head).Linked (l ++ [pcb]) := by
  cases found : k.allocPcb with
  | none => exact Or.inl ⟨rfl, by simp [Kernel.createProcess, found]⟩
  | some pcb =>
      by_cases null : k.pmm.pmmAllocPage.1 = 0#32
      · exact Or.inr (Or.inl ⟨null, by simp [Kernel.createProcess, found, null]⟩)
      · have fresh := h.allocPcb_fresh found
        have same : ({ k with
            pmm := k.pmm.pmmAllocPage.2
            memory := Function.update k.memory (k.pmm.pmmAllocPage.1 + 4096#32 - 4#32) entryFn
            nextPid := k.nextPid + 1#32 } : Kernel Slot).Linked l := ⟨h.queue, h.unlinked, h.live⟩
        obtain ⟨next, head, result, longer⟩ := same.adopt fresh
          (pcbFields (k.nextPid + 1#32) priority k.pmm.pmmAllocPage.1
            (k.pmm.pmmAllocPage.1 + 4096#32 - 4#32)) rfl (by simp [pcbFields])
        refine Or.inr (Or.inr ⟨pcb, next, head, rfl, fresh, null, ?_, longer⟩)
        simp only [Kernel.createProcess, found, null, if_false]
        exact congrArg (fun o => o.bind fun k => some (some pcb, k)) result

-- A created block was DEAD, and a listed one is not.
theorem Linked.created_unlisted {k k' : Kernel Slot} {l : List Slot} (h : k.Linked l) {entryFn : U32}
    {priority : U8} {b : Slot} (made : k.createProcess entryFn priority = some (some b, k')) :
    b ∉ l := by
  rcases h.createProcess entryFn priority with ⟨_, result⟩ | ⟨_, result⟩ |
    ⟨pcb, next, head, _, absent, _, result, _⟩
  · simp [result] at made
  · simp [result] at made
  · rw [result, Option.some.injEq, Prod.mk.injEq, Option.some.injEq] at made
    exact made.1 ▸ absent

theorem Consistent.createThread {k : Kernel Slot} {l : List Slot} (h : k.Consistent l)
    (parent : Option Slot) (entryFn : U32) :
    (k.allocTcb.1 = none ∧ k.createThread parent entryFn = some (none, k.ensurePoolInit)) ∨
    (k.pmm.pmmAllocPage.1 = 0#32 ∧
      k.createThread parent entryFn =
        some (none, { k.ensurePoolInit with pmm := k.pmm.pmmAllocPage.2 })) ∨
    ∃ tcb next head, k.allocTcb.1 = some tcb ∧ tcb ∉ l ∧ k.pmm.pmmAllocPage.1 ≠ 0#32 ∧
      k.createThread parent entryFn =
        some (some tcb, k.withThread tcb parent entryFn next head) ∧
      (k.withThread tcb parent entryFn next head).Linked (l ++ [tcb]) := by
  have ready := h.ensurePoolInit
  cases found : k.allocTcb.1 with
  | none =>
      have pair : k.allocTcb = (none, k.ensurePoolInit) := Prod.ext found rfl
      exact Or.inl ⟨rfl, by simp [Kernel.createThread, pair]⟩
  | some tcb =>
      have pair : k.allocTcb = (some tcb, k.ensurePoolInit) := Prod.ext found rfl
      by_cases null : k.pmm.pmmAllocPage.1 = 0#32
      · exact Or.inr (Or.inl ⟨null, by simp [Kernel.createThread, pair, null]⟩)
      · have fresh := h.allocTcb_fresh found
        have same : ({ k.ensurePoolInit with
            pmm := k.pmm.pmmAllocPage.2
            memory := Function.update k.ensurePoolInit.memory
              (k.pmm.pmmAllocPage.1 + 4096#32 - 4#32) entryFn
            nextTid := k.ensurePoolInit.nextTid + 1#32 } : Kernel Slot).Linked l :=
          ⟨ready.queue, ready.unlinked, ready.live⟩
        obtain ⟨next, head, result, longer⟩ := same.adopt fresh
          (tcbFields (k.ensurePoolInit.nextTid + 1#32) parent
            (k.ensurePoolInit.threadPriority parent) k.pmm.pmmAllocPage.1
            (k.pmm.pmmAllocPage.1 + 4096#32 - 4#32)) rfl
          (by simp [tcbFields])
        refine Or.inr (Or.inr ⟨tcb, next, head, rfl, fresh, null, ?_, longer⟩)
        simp only [Kernel.createThread, pair, ensurePoolInit_pmm, null, if_false]
        exact congrArg (fun o => o.bind fun k => some (some tcb, k)) result

end Slots

end SoraOS.Kernel
