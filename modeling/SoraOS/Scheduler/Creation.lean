import SoraOS.Memory.PmmInit
import SoraOS.Scheduler.Identity
import SoraOS.Scheduler.Stacks

set_option autoImplicit false

namespace SoraOS

namespace Kernel

theorem allocPcb_none {k : Kernel Slot} (full : k.allocPcb = none) (i : Fin maxProcesses) :
    k.state (.pcb i) ≠ .dead := by
  have neither := (Option.or_eq_none_iff.mp (Option.map_eq_none_iff.mp full)).2
  simpa using List.find?_eq_none.mp neither i (List.mem_finRange i)

theorem allocTcb_none {k : Kernel Slot} (full : k.allocTcb.1 = none) (i : Fin maxThreads) :
    k.ensurePoolInit.state (.tcb i) ≠ .dead := by
  have none := Option.map_eq_none_iff.mp full
  simpa using List.find?_eq_none.mp none i (List.mem_finRange i)

@[simp] theorem ensurePoolInit_memory (k : Kernel Slot) : k.ensurePoolInit.memory = k.memory := by
  unfold ensurePoolInit
  split <;> rfl

theorem withThread_memory (k : Kernel Slot) (tcb : Slot) (parent : Option Slot) (entryFn : U32)
    (next : Slot → Option Slot) (head : Option Slot) :
    (k.withThread tcb parent entryFn next head).memory =
      Function.update k.memory (k.pmm.pmmAllocPage.1 + 4096#32 - 4#32) entryFn := by
  rw [← k.ensurePoolInit_memory]
  rfl

theorem Outcome.wf {k k' : Kernel Slot} {l : List Slot} {op : Op} {block : Option Slot}
    (outcome : Outcome k l op block k') (wf : k.pmm.Wf) : k'.pmm.Wf := by
  cases outcome with
  | processPoolFull => exact wf
  | processNoStack => exact wf.pmmAllocPage
  | process => exact wf.pmmAllocPage
  | newprocessFailed _ _ failed =>
      cases failed with
      | processPoolFull => exact wf
      | processNoStack => exact wf.pmmAllocPage
  | newprocess _ _ _ made =>
      cases made
      exact wf.pmmAllocPage
  | threadPoolFull => simpa using wf
  | threadNoStack => exact wf.pmmAllocPage
  | thread => exact wf.pmmAllocPage
  | schedule _ _ _ _ _ scheduled => cases scheduled <;> simpa using wf
  | exit => exact wf.pmmFreePage _
  | killNothing => exact wf
  | kill => exact wf.pmmFreePage _
  | deleteNothing => simpa using wf
  | delete =>
      rw [released_pmm, ensurePoolInit_pmm]
      exact wf.pmmFreePage _

end Kernel

namespace Creation

def NoPage (s : Pmm) : Prop := ∀ page < s.totalPages / 32 * 32, s.bitmapTest page = true

structure Unchanged (k k' : Kernel Slot) : Prop where
  runQueue : k'.runQueue = k.runQueue
  links : k'.links = k.links
  processes : ∀ i, k'.block (.pcb i) = k.block (.pcb i)
  threads : k.tcbPoolInitialized = true → ∀ i, k'.block (.tcb i) = k.block (.tcb i)
  nextPid : k'.nextPid = k.nextPid
  nextTid : k'.nextTid = k.nextTid
  pmm : k'.pmm = k.pmm

/-- A DEAD block gets its fields and goes to the tail of the queue, and one page becomes its stack. -/
structure Appends (k k' : Kernel Slot) (l : List Slot) (b : Slot) (stack : U32)
    (fill : Tcb Slot → Tcb Slot) : Prop where
  dead : k.state b = .dead
  own : k'.block b = fill (k.block b)
  others : ∀ c, c ≠ b → k'.block c = { k.block c with
    next := if l.getLast? = some c then some b else (k.block c).next }
  queue : k'.Queue (l ++ [b])
  page : ∃ page ∈ k.pmm.freeSet, page ≠ 0 ∧ stack.toNat = page * pageSize ∧
    (∀ q, k'.pmm.bitmapTest q = (decide (q = page) || k.pmm.bitmapTest q)) ∧
    k'.pmm.totalPages = k.pmm.totalPages ∧ k'.pmm.freePages.toNat + 1 = k.pmm.freePages.toNat
  roles : k'.currentPcb = k.currentPcb ∧ k'.idlePcb = k.idlePcb

/-- What `create_process` does: it fails without a trace, or appends one process. -/
structure CreatesProcess (k : Kernel Slot) (l : List Slot) (entryFn : U32) (priority : U8)
    (block : Option Slot) (k' : Kernel Slot) : Prop where
  null : block = none ↔ (∀ i, k.state (.pcb i) ≠ .dead) ∨ NoPage k.pmm
  failed : block = none → k' = k
  made : ∀ b, block = some b → ∃ i stack, b = .pcb i ∧
    Appends k k' l b stack
      (Kernel.pcbFields (k.nextPid + 1#32) priority stack (stack + 4096#32 - 4#32)) ∧
    k'.nextPid = k.nextPid + 1#32 ∧ k'.nextTid = k.nextTid ∧
    k'.memory = Function.update k.memory (stack + 4096#32 - 4#32) entryFn

structure CreatesThread (k : Kernel Slot) (l : List Slot) (parent : Option Slot) (entryFn : U32)
    (block : Option Slot) (k' : Kernel Slot) : Prop where
  initialised : Unchanged k k.ensurePoolInit
  null : block = none ↔ (∀ i, k.ensurePoolInit.state (.tcb i) ≠ .dead) ∨ NoPage k.pmm
  failed : block = none → k' = k.ensurePoolInit
  made : ∀ b, block = some b → ∃ i stack, b = .tcb i ∧
    Appends k.ensurePoolInit k' l b stack
      (Kernel.tcbFields (k.nextTid + 1#32) parent (k.ensurePoolInit.threadPriority parent) stack
        (stack + 4096#32 - 4#32)) ∧
    k'.nextPid = k.nextPid ∧ k'.nextTid = k.nextTid + 1#32 ∧
    k'.memory = Function.update k.memory (stack + 4096#32 - 4#32) entryFn

theorem alloc_cases {s : Pmm} (wf : s.Wf) (used : s.bitmapTest 0 = true) :
    (NoPage s ∧ s.pmmAllocPage = (0#32, s)) ∨
      (¬ NoPage s ∧ s.pmmAllocPage.1 ≠ 0#32 ∧
        ∃ page ∈ s.freeSet, page ≠ 0 ∧ s.pmmAllocPage.1.toNat = page * pageSize ∧
          s.pmmAllocPage.2 = s.take page) := by
  obtain ⟨full, result⟩ | ⟨page, free, inside, _, result⟩ := s.pmmAllocPage_cases
  · exact .inl ⟨full, result⟩
  · have clear := ((Pmm.mem_freeSet s page).mp free).2
    have notFirst : page ≠ 0 := by
      rintro rfl
      exact absurd (used.symm.trans clear) (by decide)
    have address := Pmm.toNat_pageAddress page (wf.page_small free)
    refine .inr ⟨fun full => ?_, fun null => ?_, page, free, notFirst, by rw [result, address],
      by rw [result]⟩
    · exact absurd ((full page inside).symm.trans clear) (by decide)
    · rw [result] at null
      rw [show BitVec.ofNat 32 (page * pageSize) = 0#32 from null] at address
      exact notFirst (by simpa [pageSize] using address.symm)

theorem noPage_iff {s : Pmm} (wf : s.Wf) (used : s.bitmapTest 0 = true) :
    NoPage s ↔ s.pmmAllocPage.1 = 0#32 := by
  obtain ⟨full, result⟩ | ⟨notFull, some, _⟩ := alloc_cases wf used
  · simp [full, result]
  · simp [notFull, some]

theorem alloc_null {s : Pmm} (wf : s.Wf) (used : s.bitmapTest 0 = true)
    (null : s.pmmAllocPage.1 = 0#32) : s.pmmAllocPage.2 = s := by
  obtain ⟨_, result⟩ | ⟨_, some, _⟩ := alloc_cases wf used
  · rw [result]
  · exact absurd null some

theorem appends_of_linked {k k' : Kernel Slot} {l : List Slot} {b : Slot}
    {fill : Tcb Slot → Tcb Slot} (linked : k.Linked l) (longer : k'.Linked (l ++ [b]))
    (dead : k.state b = .dead) (wf : k.pmm.Wf) (used : k.pmm.bitmapTest 0 = true)
    (stack : k.pmm.pmmAllocPage.1 ≠ 0#32) (unlinked : (fill (k.block b)).next = none)
    (blocks : ∀ c, k'.block c =
      { (if c = b then fill (k.block c) else k.block c) with next := k'.links c })
    (pmm : k'.pmm = k.pmm.pmmAllocPage.2)
    (roles : k'.currentPcb = k.currentPcb ∧ k'.idlePcb = k.idlePcb) :
    Appends k k' l b k.pmm.pmmAllocPage.1 fill := by
  obtain ⟨tail, moved⟩ := linked.queue.links_of_append longer.queue
  refine ⟨dead, ?_, fun c different => ?_, longer.queue, ?_, roles⟩
  · rw [blocks b, if_pos rfl, tail, ← unlinked]
  · rw [blocks c, if_neg different]
    by_cases listed : c ∈ l
    next =>
      rw [moved c listed]
      rfl
    next =>
      -- A block that is listed neither before nor after has no link.
      have before := linked.unlinked c listed
      have after := longer.unlinked c (by simp [listed, different])
      have notLast : l.getLast? ≠ some c := fun last => listed (List.mem_of_getLast? last)
      rw [after, if_neg notLast, ← before]
      rfl
  · obtain ⟨_, result⟩ | ⟨_, _, page, free, notFirst, address, taken⟩ := alloc_cases wf used
    · exact absurd (congrArg Prod.fst result) stack
    · rw [pmm, taken]
      exact ⟨page, free, notFirst, address, Pmm.bitmapTest_take k.pmm page, rfl,
        wf.take_counter free⟩

theorem createsProcess_of_outcome {k k' : Kernel Slot} {l : List Slot} (consistent : k.Consistent l)
    (wf : k.pmm.Wf) (used : k.pmm.bitmapTest 0 = true) {entryFn : U32} {priority : U8}
    {block : Option Slot} (outcome : Kernel.Outcome k l (.createProcess entryFn priority) block k')
    (kept : k'.Consistent ((Op.createProcess entryFn priority).edit block l)) :
    CreatesProcess k l entryFn priority block k' := by
  cases outcome with
  | processPoolFull _ _ full =>
      refine ⟨?_, fun _ => rfl, fun b made => by cases made⟩
      simp only [true_iff]
      exact .inl (Kernel.allocPcb_none full)
  | processNoStack _ _ null =>
      refine ⟨?_, fun _ => by rw [alloc_null wf used null], fun b made => by cases made⟩
      simp only [true_iff]
      exact .inr ((noPage_iff wf used).mpr null)
  | process _ _ i next head found stack =>
      have dead := (Kernel.allocPcb_some found).2
      refine ⟨?_, fun none => (by cases none), fun b made => ?_⟩
      · simp only [reduceCtorEq, false_iff, not_or, not_forall, ne_eq, not_not]
        exact ⟨⟨i, dead⟩, mt (noPage_iff wf used).mp stack⟩
      · obtain rfl := Option.some.inj made
        refine ⟨i, k.pmm.pmmAllocPage.1, rfl, ?_, rfl, rfl, rfl⟩
        refine appends_of_linked consistent.toLinked kept.toLinked dead wf used stack rfl
          (fun c => ?_) rfl ⟨rfl, rfl⟩
        rw [Kernel.withProcess_block]
        rfl

theorem unchanged_ensurePoolInit (k : Kernel Slot) : Unchanged k k.ensurePoolInit where
  runQueue := k.ensurePoolInit_runQueue
  links := k.ensurePoolInit_links
  processes := k.ensurePoolInit_block_pcb
  threads ready i := by rw [Kernel.ensurePoolInit, if_pos ready]
  nextPid := k.ensurePoolInit_nextPid
  nextTid := k.ensurePoolInit_nextTid
  pmm := k.ensurePoolInit_pmm

theorem createsThread_of_outcome {k k' : Kernel Slot} {l : List Slot} (consistent : k.Consistent l)
    (wf : k.pmm.Wf) (used : k.pmm.bitmapTest 0 = true) {parent : Option Slot} {entryFn : U32}
    {block : Option Slot} (outcome : Kernel.Outcome k l (.createThread parent entryFn) block k')
    (kept : k'.Consistent ((Op.createThread parent entryFn).edit block l)) :
    CreatesThread k l parent entryFn block k' := by
  have unchanged := unchanged_ensurePoolInit k
  cases outcome with
  | threadPoolFull _ _ full =>
      refine ⟨unchanged, ?_, fun _ => rfl, fun b made => by cases made⟩
      simp only [true_iff]
      exact .inl (Kernel.allocTcb_none full)
  | threadNoStack _ _ null =>
      refine ⟨unchanged, ?_, fun _ => ?_, fun b made => by cases made⟩
      · simp only [true_iff]
        exact .inr ((noPage_iff wf used).mpr null)
      · rw [alloc_null wf used null, ← k.ensurePoolInit_pmm]
  | thread _ _ i next head found stack =>
      have dead := (Kernel.allocTcb_some found).2
      refine ⟨unchanged, ?_, fun none => (by cases none), fun b made => ?_⟩
      · simp only [reduceCtorEq, false_iff, not_or, not_forall, ne_eq, not_not]
        exact ⟨⟨i, dead⟩, mt (noPage_iff wf used).mp stack⟩
      · obtain rfl := Option.some.inj made
        have pmm : k.ensurePoolInit.pmm = k.pmm := k.ensurePoolInit_pmm
        have appends : Appends k.ensurePoolInit (k.withThread (.tcb i) parent entryFn next head) l
            (.tcb i) k.ensurePoolInit.pmm.pmmAllocPage.1
            (Kernel.tcbFields (k.ensurePoolInit.nextTid + 1#32) parent
              (k.ensurePoolInit.threadPriority parent) k.ensurePoolInit.pmm.pmmAllocPage.1
              (k.ensurePoolInit.pmm.pmmAllocPage.1 + 4096#32 - 4#32)) :=
          appends_of_linked consistent.ensurePoolInit.toLinked kept.toLinked dead (pmm ▸ wf)
            (pmm ▸ used) (pmm ▸ stack) rfl (fun c => by rw [Kernel.withThread_block, pmm]; rfl)
            (by rw [pmm]; rfl) ⟨rfl, rfl⟩
        rw [pmm, k.ensurePoolInit_nextTid] at appends
        refine ⟨i, k.pmm.pmmAllocPage.1, rfl, appends, ?_, ?_, ?_⟩
        · exact k.ensurePoolInit_nextPid
        · exact congrArg (· + 1#32) k.ensurePoolInit_nextTid
        · exact k.withThread_memory (.tcb i) parent entryFn next head

def Fresh (key : Slot → U32) (l : List Slot) (b : Slot) : Prop :=
  key b ≠ 0#32 ∧ ∀ c ∈ l, key c ≠ key b

theorem fresh_of_increasing {key key' : Slot → U32} {l : List Slot} {newest : U32} {b : Slot}
    (h : Increasing key l newest) (room : newest.toNat + 1 < 2 ^ 32)
    (old : ∀ c ∈ l, key' c = key c) (new : key' b = newest + 1#32) : Fresh key' l b := by
  have longer := h.append room old new
  refine ⟨longer.nonzero b (by simp), fun c member same => ?_⟩
  have less := (List.pairwise_append.mp longer.sorted).2.2 c member b List.mem_cons_self
  rw [same, BitVec.lt_def] at less
  exact absurd less (lt_irrefl _)

def Sane (s : Identity.Counted) : Prop := Identity.Sound s ∧ s.kernel.pmm.Wf

theorem Sane.step {s t : Identity.Counted} (h : Sane s) {c : Call}
    (taken : Identity.step s c = some t) : Sane t := by
  refine ⟨h.1.step taken, ?_⟩
  obtain ⟨⟨l, consistent, _⟩, wf⟩ := h
  obtain ⟨block, k, result, outcome, _⟩ := consistent.call c
  simp only [Identity.step, result, Option.map_some, Option.some.injEq] at taken
  subst taken
  exact outcome.wf wf

theorem sane_of_run {pmm : Pmm} (wf : pmm.Wf) {esp idleTask : U32} {memory : U32 → U32}
    {k : Kernel Slot} (booted : (Kernel.bss pmm esp memory).schedulerInit idleTask = some k)
    {calls : List Call} {s : Identity.Counted} (ran : Identity.run ⟨k, 0, 0⟩ calls = some s) :
    Sane s := by
  have start : Sane ⟨k, 0, 0⟩ := by
    refine ⟨Identity.sound_of_booted booted, ?_⟩
    obtain ⟨i, next, head, _, shape, _⟩ := Kernel.schedulerInit_spec booted
    rw [shape]
    exact wf.pmmAllocPage
  have keeps (s t : Identity.Counted) (held : Sane s) : (∃ c, Identity.step s c = some t) → Sane t :=
    fun ⟨_, taken⟩ => held.step taken
  exact Transition.reachable_invariant keeps start (Transition.reachable_of_run ran)

theorem freshPid_of_outcome {k k' : Kernel Slot} {l : List Slot} {processes threads : Nat}
    (consistent : k.Consistent l) (labelled : Identity.Labelled k l processes threads)
    (room : processes < 2 ^ 32 - 2) {entryFn : U32} {priority : U8} {b : Slot}
    (outcome : Kernel.Outcome k l (.createProcess entryFn priority) (some b) k') :
    Fresh k'.pid l b := by
  cases outcome with
  | process _ _ i next head found =>
      have different (c : Slot) (member : c ∈ l) : c ≠ .pcb i := by
        rintro rfl
        exact consistent.allocPcb_fresh found member
      have kept (c : Slot) (member : c ∈ l) :
          (k.withProcess (.pcb i) entryFn priority next head).pid c = k.pid c := by
        rw [Kernel.withProcess_pid, if_neg (different c member)]
      have count := labelled.nextPid
      obtain ⟨nonzero, others⟩ := fresh_of_increasing labelled.pids (by omega)
        (fun c member => kept c (List.mem_of_mem_filter member))
        (by rw [Kernel.withProcess_pid, if_pos rfl])
      refine ⟨nonzero, fun c member => ?_⟩
      cases c with
      | pcb j => exact others (.pcb j) (List.mem_filter.mpr ⟨member, rfl⟩)
      | tcb j =>
          rw [kept _ member, labelled.tag _ (List.mem_filter.mpr ⟨member, rfl⟩)]
          exact nonzero.symm

theorem freshTid_of_outcome {k k' : Kernel Slot} {l : List Slot} {processes threads : Nat}
    (consistent : k.Consistent l) (labelled : Identity.Labelled k l processes threads)
    (room : threads < 2 ^ 32 - 1) {parent : Option Slot} {entryFn : U32} {b : Slot}
    (outcome : Kernel.Outcome k l (.createThread parent entryFn) (some b) k') :
    Fresh k'.tid (l.filter Slot.isThread) b := by
  cases outcome with
  | thread _ _ i next head found =>
      have ready := labelled.ensurePoolInit consistent
      have count := ready.nextTid
      refine fresh_of_increasing ready.tids (by omega) (fun c member => ?_)
        (by rw [Kernel.withThread_tid, if_pos rfl, k.ensurePoolInit_nextTid])
      rw [Kernel.withThread_tid, if_neg]
      rintro rfl
      exact consistent.allocTcb_fresh found (List.mem_of_mem_filter member)

/--
In every state reachable from boot in which page 0 is in use, the two creations fail exactly when
no block of their pool is DEAD or no page is found, and then change nothing; else they add one
block with the next identifier, which is fresh until its counter has wrapped.
-/
theorem creation_atomic (ram : Ram) (mb : MultibootInfo) (kernelEnd : U32) (fuel : Nat) (init : Pmm)
    (started : Pmm.pmmInit ram mb kernelEnd fuel = some init) (esp idleTask : U32)
    (memory : U32 → U32) (k : Kernel Slot)
    (booted : (Kernel.bss init esp memory).schedulerInit idleTask = some k) (calls : List Call)
    (s : Identity.Counted) (ran : Identity.run ⟨k, 0, 0⟩ calls = some s)
    (used : s.kernel.pmm.bitmapTest 0 = true) :
    ∃ l, s.kernel.Queue l ∧
      (∀ entryFn priority, ∃ block k', s.kernel.createProcess entryFn priority = some (block, k') ∧
        CreatesProcess s.kernel l entryFn priority block k' ∧
        (s.processes < 2 ^ 32 - 2 → s.threads < 2 ^ 32 - 1 →
          ∀ b, block = some b → Fresh k'.pid l b)) ∧
      ∀ parent entryFn, ∃ block k', s.kernel.createThread parent entryFn = some (block, k') ∧
        CreatesThread s.kernel l parent entryFn block k' ∧
        (s.processes < 2 ^ 32 - 1 → s.threads < 2 ^ 32 - 1 →
          ∀ b, block = some b → Fresh k'.tid (l.filter Slot.isThread) b) := by
  obtain ⟨⟨l, consistent, labelled⟩, wf⟩ := sane_of_run (Pmm.pmmInit_spec started).1 booted ran
  refine ⟨l, consistent.queue, fun entryFn priority => ?_, fun parent entryFn => ?_⟩
  · obtain ⟨block, k', result, outcome, kept⟩ := consistent.perform (.createProcess entryFn priority)
    refine ⟨block, k', result, createsProcess_of_outcome consistent wf used outcome kept, ?_⟩
    rintro processes threads b rfl
    exact freshPid_of_outcome consistent (labelled (by omega) threads) processes outcome
  · obtain ⟨block, k', result, outcome, kept⟩ := consistent.perform (.createThread parent entryFn)
    refine ⟨block, k', result, createsThread_of_outcome consistent wf used outcome kept, ?_⟩
    rintro processes threads b rfl
    exact freshTid_of_outcome consistent (labelled processes threads) threads outcome

theorem creation_atomic_sixtyFourPages :
    ∃ init k s, Pmm.pmmInit Stacks.sixtyFourPagesRam Stacks.sixtyFourPagesInfo 0x110000#32 2 =
        some init ∧
      (Kernel.bss init 0x110000#32 fun _ => 0#32).schedulerInit 0x100100#32 = some k ∧
      Identity.run ⟨k, 0, 0⟩ [⟨.createThread none 0x100300#32, 0x10FF00#32⟩] = some s ∧
      ∃ l block k', s.kernel.Queue l ∧
        s.kernel.createThread none 0x100300#32 = some (block, k') ∧
        CreatesThread s.kernel l none 0x100300#32 block k' ∧
        ∀ b, block = some b → Fresh k'.tid (l.filter Slot.isThread) b := by
  have evaluated :
      ((Pmm.pmmInit Stacks.sixtyFourPagesRam Stacks.sixtyFourPagesInfo 0x110000#32 2).bind
        fun init => ((Kernel.bss init 0x110000#32 fun _ => 0#32).schedulerInit 0x100100#32).bind
          fun k => (Identity.run ⟨k, 0, 0⟩ [⟨.createThread none 0x100300#32, 0x10FF00#32⟩]).map
            fun s => (s.kernel.pmm.bitmapTest 0, s.processes, s.threads)) = some (true, 0, 1) := by
    decide +kernel
  obtain ⟨init, started, evaluated⟩ := Option.bind_eq_some_iff.mp evaluated
  obtain ⟨k, booted, evaluated⟩ := Option.bind_eq_some_iff.mp evaluated
  obtain ⟨s, ran, values⟩ := Option.map_eq_some_iff.mp evaluated
  obtain ⟨used, counts⟩ := Prod.mk.inj values
  obtain ⟨processes, threads⟩ := Prod.mk.inj counts
  obtain ⟨l, queue, _, ofThreads⟩ := creation_atomic _ _ _ _ init started _ _ _ k booted _ s ran used
  obtain ⟨block, k', result, creates, fresh⟩ := ofThreads none 0x100300#32
  exact ⟨init, k, s, started, booted, ran, l, block, k', queue, result, creates,
    fresh (by omega) (by omega)⟩

section Wrapped

variable {init : Pmm} {k k' : Kernel Slot} {l : List Slot} {block : Option Slot}

theorem alloc_of_room (booked : Stacks.Booked init k l) (page0 : 0 ∉ init.freeSet)
    (whole : init.totalPages % 32 = 0) (room : l.length < init.freeSet.card) :
    k.pmm.pmmAllocPage.1 ≠ 0#32 := by
  have wf := booked.paged.wf
  have count := booked.paged.splits.card
  rw [List.length_map] at count
  obtain ⟨page, free⟩ : k.pmm.freeSet.Nonempty := Finset.card_pos.mp (by omega)
  obtain ⟨inside, clear⟩ := (Pmm.mem_freeSet k.pmm page).mp free
  have total := booked.paged.total
  obtain ⟨noPage, _⟩ | ⟨_, some, _⟩ := alloc_cases wf (booked.paged.used page0)
  · exact absurd ((noPage page (by omega)).symm.trans clear) (by decide)
  · exact some

structure MadeThread (init : Pmm) (k k' : Kernel Slot) (l : List Slot) (j : Fin maxThreads) : Prop where
  fresh : Slot.tcb j ∉ l
  consistent : k'.Consistent (l ++ [.tcb j])
  booked : Stacks.Booked init k' (l ++ [.tcb j])
  ready : k'.tcbPoolInitialized = true
  own : k'.tid (.tcb j) = k.nextTid + 1#32
  older : ∀ b ∈ l, k'.tid b = k.tid b
  nextTid : k'.nextTid = k.nextTid + 1#32

theorem thread_of_room (consistent : k.Consistent l) (booked : Stacks.Booked init k l)
    (page0 : 0 ∉ init.freeSet) (whole : init.totalPages % 32 = 0)
    (room : l.length < init.freeSet.card) {i : Fin maxThreads} (unlisted : Slot.tcb i ∉ l)
    (parent : Option Slot) (entryFn esp : U32) :
    ∃ j k', k.call ⟨.createThread parent entryFn, esp⟩ = some (some (.tcb j), k') ∧
      MadeThread init k k' l j := by
  obtain ⟨block, k', result, outcome, kept⟩ := consistent.call ⟨.createThread parent entryFn, esp⟩
  cases outcome with
  | threadPoolFull _ _ full =>
      exact absurd ((booked.withEsp esp).threads_dead i unlisted) (Kernel.allocTcb_none full i)
  | threadNoStack _ _ null => exact absurd null (alloc_of_room (booked.withEsp esp) page0 whole room)
  | thread _ _ j next head found stack =>
      have fresh := (consistent.withEsp esp).allocTcb_fresh found
      refine ⟨j, _, result, fresh, kept,
        (booked.withEsp esp).withThread page0 parent entryFn next head fresh stack,
        Kernel.ensurePoolInit_tcbPoolInitialized _, ?_, fun b member => ?_,
        congrArg (· + 1#32) (Kernel.ensurePoolInit_nextTid _)⟩
      · rw [Kernel.withThread_tid, if_pos rfl]
      · have different : b ≠ Slot.tcb j := fun same => fresh (same ▸ member)
        rw [Kernel.withThread_tid, if_neg different, Kernel.tid,
          (consistent.withEsp esp).ensurePoolInit_block member]
        rfl

theorem deleted_of_last {j : Fin maxThreads} (consistent : k.Consistent (l ++ [.tcb j]))
    (booked : Stacks.Booked init k (l ++ [.tcb j])) (page0 : 0 ∉ init.freeSet)
    (ready : k.tcbPoolInitialized = true) (fresh : Slot.tcb j ∉ l)
    (older : ∀ i, Slot.tcb i ∈ l → k.tid (.tcb i) ≠ k.tid (.tcb j)) (esp : U32) :
    ∃ k', k.call ⟨.threadDelete (k.tid (.tcb j)), esp⟩ = some (some (.tcb j), k') ∧
      k'.Consistent l ∧ Stacks.Booked init k' l ∧ k'.tcbPoolInitialized = true ∧
      (∀ b ∈ l, k'.tid b = k.tid b) ∧ k'.nextTid = k.nextTid := by
  obtain ⟨block, k', result, outcome, kept⟩ := consistent.call ⟨.threadDelete (k.tid (.tcb j)), esp⟩
  have booked' := (booked.withEsp esp).outcome (consistent.withEsp esp) page0
    (by simp [Stacks.Allowed]) outcome
  have pool : ({ k with esp := esp } : Kernel Slot).ensurePoolInit = { k with esp := esp } := by
    rw [Kernel.ensurePoolInit, if_pos ready]
  cases outcome with
  | deleteNothing _ nobody =>
      have alive := consistent.live (.tcb j) (by simp)
      have unmatched := List.find?_eq_none.mp nobody j (List.mem_finRange j)
      rw [pool] at unmatched
      exact absurd (show _ = true by simpa using ⟨rfl, alive⟩) unmatched
  | delete _ i next head first =>
      have matched := List.find?_some first
      have alive := Kernel.findTid_alive first
      simp only [pool, Bool.and_eq_true, decide_eq_true_eq] at matched alive
      have listed : Slot.tcb i ∈ l ++ [.tcb j] :=
        Classical.byContradiction fun absent => alive (booked.unlisted ready i absent)
      rcases List.mem_append.mp listed with isOlder | isLast
      next => exact absurd matched.1 (older i isOlder)
      next =>
        obtain rfl : i = j := Slot.tcb.inj (List.mem_singleton.mp isLast)
        have again : (l ++ [Slot.tcb i]).erase (.tcb i) = l := by
          rw [List.erase_append_right _ fresh]
          simp
        simp only [Op.edit, again] at kept booked'
        rw [pool] at result kept booked'
        refine ⟨_, result, kept, booked', ready, fun b member => ?_, rfl⟩
        have different : b ≠ Slot.tcb i := fun same => fresh (same ▸ member)
        rw [Kernel.tid, Kernel.released_block_other _ _ _ _ _ different, Kernel.tid]

/-- One thread, of TID 1, beside the first process. -/
structure OneThread (init : Pmm) (p : Fin maxProcesses) (t : Fin maxThreads) (newest : U32)
    (k : Kernel Slot) : Prop where
  consistent : k.Consistent [.pcb p, .tcb t]
  booked : Stacks.Booked init k [.pcb p, .tcb t]
  ready : k.tcbPoolInitialized = true
  first : k.tid (.tcb t) = 1#32
  nextTid : k.nextTid = newest

variable {p : Fin maxProcesses} {t : Fin maxThreads} {newest : U32}

theorem OneThread.createThread (h : OneThread init p t newest k) (page0 : 0 ∉ init.freeSet)
    (whole : init.totalPages % 32 = 0) (room : 2 < init.freeSet.card) (esp : U32) :
    ∃ j k', k.call ⟨.createThread none 0x100300#32, esp⟩ = some (some (.tcb j), k') ∧
      MadeThread init k k' [.pcb p, .tcb t] j := by
  obtain ⟨i, different⟩ := exists_ne t
  exact thread_of_room h.consistent h.booked page0 whole room (i := i) (by simpa using different) none
    0x100300#32 esp

theorem OneThread.cycle {s : Identity.Counted} (h : OneThread init p t newest s.kernel)
    (page0 : 0 ∉ init.freeSet) (whole : init.totalPages % 32 = 0) (room : 2 < init.freeSet.card)
    (unwrapped : newest ≠ 0#32) :
    ∃ calls s', Identity.run s calls = some s' ∧ OneThread init p t (newest + 1#32) s'.kernel := by
  obtain ⟨j, k₁, created, made⟩ := h.createThread page0 whole room 0x10FF00#32
  have own : k₁.tid (.tcb j) = newest + 1#32 := by rw [made.own, h.nextTid]
  have first : k₁.tid (.tcb t) = 1#32 := (made.older (.tcb t) (by simp)).trans h.first
  have older (i : Fin maxThreads) (listed : Slot.tcb i ∈ [Slot.pcb p, .tcb t]) :
      k₁.tid (.tcb i) ≠ k₁.tid (.tcb j) := by
    have same : i = t := by simpa using listed
    rw [same, first, own]
    intro equal
    apply unwrapped
    bv_omega
  obtain ⟨k₂, deleted, consistent, booked, ready, kept, nextTid⟩ :=
    deleted_of_last made.consistent made.booked page0 made.ready made.fresh older 0x10FF00#32
  refine ⟨[⟨.createThread none 0x100300#32, 0x10FF00#32⟩,
    ⟨.threadDelete (k₁.tid (.tcb j)), 0x10FF00#32⟩], ⟨k₂, s.processes, s.threads + 1⟩, ?_,
    consistent, booked, ready, (kept (.tcb t) (by simp)).trans first, ?_⟩
  · simp only [Identity.run, List.foldlM_cons, List.foldlM_nil, Identity.step, created, deleted,
      Option.map_some, Option.bind_eq_bind, Option.bind_some]
    rfl
  · rw [nextTid, made.nextTid, h.nextTid]

theorem OneThread.reaches {s : Identity.Counted} (h : OneThread init p t 1#32 s.kernel)
    (page0 : 0 ∉ init.freeSet) (whole : init.totalPages % 32 = 0) (room : 2 < init.freeSet.card)
    (n : Nat) (small : n < 2 ^ 32) :
    ∃ calls s', Identity.run s calls = some s' ∧
      OneThread init p t (BitVec.ofNat 32 (n + 1)) s'.kernel := by
  -- The counter comes to any value, while the first thread keeps its TID.
  induction n with
  | zero => exact ⟨[], s, rfl, h⟩
  | succ n ih =>
      obtain ⟨calls, before, ran, reached⟩ := ih (by omega)
      have unwrapped : BitVec.ofNat 32 (n + 1) ≠ 0#32 := by
        intro zero
        have value := congrArg BitVec.toNat zero
        rw [BitVec.toNat_ofNat, BitVec.toNat_ofNat] at value
        omega
      obtain ⟨more, after, continued, next⟩ := reached.cycle page0 whole room unwrapped
      refine ⟨calls ++ more, after, ?_, ?_⟩
      · rw [Identity.run, List.foldlM_append]
        exact Option.bind_eq_some_iff.mpr ⟨before, ran, continued⟩
      · rwa [← BitVec.ofNat_add] at next

end Wrapped

/-- After 2^32 - 1 threads have come and gone beside the first one, the next TID is 1 again. -/
theorem not_fresh_wrapped :
    ¬ (∀ ram mb kernelEnd fuel init, Pmm.pmmInit ram mb kernelEnd fuel = some init →
      ∀ esp idleTask memory k, (Kernel.bss init esp memory).schedulerInit idleTask = some k →
      ∀ calls s, Identity.run ⟨k, 0, 0⟩ calls = some s → s.kernel.pmm.bitmapTest 0 = true →
      ∀ l, s.kernel.Queue l → ∀ parent entryFn b k',
        s.kernel.createThread parent entryFn = some (some b, k') →
          Fresh k'.tid (l.filter Slot.isThread) b) := by
  intro all
  have evaluated : ((Pmm.pmmInit Stacks.sixtyFourPagesRam Stacks.sixtyFourPagesInfo 0x110000#32 2).bind
      fun init => ((Kernel.bss init 0x110000#32 fun _ => 0#32).schedulerInit 0x100100#32).map
        fun k => (init.totalPages % 32, init.freePages, k.nextTid)) = some (0, 48#32, 0#32) := by
    decide +kernel
  obtain ⟨init, started, evaluated⟩ := Option.bind_eq_some_iff.mp evaluated
  obtain ⟨k, booted, values⟩ := Option.map_eq_some_iff.mp evaluated
  obtain ⟨whole, values⟩ := Prod.mk.inj values
  obtain ⟨free, noTid⟩ := Prod.mk.inj values
  have wf := (Pmm.pmmInit_spec started).1
  have room : 2 < init.freeSet.card := by
    rw [← wf.counted, free]
    decide
  obtain ⟨i, _, _, _, _, alone⟩ := Kernel.schedulerInit_spec booted
  obtain ⟨page0, l, consistent, booked⟩ := Stacks.conserved_of_booted wf booted
  obtain rfl : l = [.pcb i] := consistent.queue.unique alone.queue
  obtain ⟨t, k₁, created, made⟩ := thread_of_room consistent booked page0 whole (by simp; omega)
    (i := 0) (by simp) none 0x100300#32 0x10FF00#32
  have start : Identity.step ⟨k, 0, 0⟩ ⟨.createThread none 0x100300#32, 0x10FF00#32⟩ =
      some ⟨k₁, 0, 1⟩ := by
    simp only [Identity.step, created]
    rfl
  have one : OneThread init i t 1#32 k₁ := by
    refine ⟨made.consistent, made.booked, made.ready, ?_, ?_⟩
    · rw [made.own, noTid]
      rfl
    · rw [made.nextTid, noTid]
      rfl
  obtain ⟨calls, s, ran, wrapped⟩ :=
    OneThread.reaches (s := ⟨k₁, 0, 1⟩) one page0 whole room (2 ^ 32 - 1) (by omega)
  obtain ⟨j, k₂, again, last⟩ := wrapped.createThread page0 whole room s.kernel.esp
  have fresh := all _ _ _ _ init started _ _ _ k booted
    (⟨.createThread none 0x100300#32, 0x10FF00#32⟩ :: calls) s
    (Option.bind_eq_some_iff.mpr ⟨_, start, ran⟩) (wrapped.booked.paged.used page0) _
    wrapped.consistent.queue none 0x100300#32 (.tcb j) k₂ again
  -- The counter has wrapped to 0, so the new TID is 1 again.
  have sameTid : k₂.tid (.tcb t) = k₂.tid (.tcb j) := by
    rw [last.own, wrapped.nextTid, last.older (.tcb t) (by simp), wrapped.first]
    rfl
  exact fresh.2 (.tcb t) (by simp [Slot.isThread]) sameTid

end Creation

end SoraOS
