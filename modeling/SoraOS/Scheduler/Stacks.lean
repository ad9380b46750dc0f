import SoraOS.Memory.PmmInit
import SoraOS.Scheduler.Calls
import SoraOS.Shared.Ledger
import SoraOS.Shared.Transition

set_option autoImplicit false

namespace SoraOS

namespace Kernel

section Bases

variable {B : Type}

def stackBase (k : Kernel B) (b : B) : U32 := (k.block b).stackBase

def stackPage (k : Kernel B) (b : B) : Nat := (k.stackBase b).toNat / pageSize

@[simp] theorem relink_stackBase (k : Kernel B) (next : B → Option B) (head : Option B) :
    (k.relink next head).stackBase = k.stackBase := rfl

variable [DecidableEq B]

theorem modify_stackBase (k : Kernel B) (b : B) (f : Tcb B → Tcb B)
    (kept : (f (k.block b)).stackBase = (k.block b).stackBase) :
    (k.modify b f).stackBase = k.stackBase := by
  funext c
  by_cases same : c = b
  · simp [stackBase, same, kept]
  · simp [stackBase, modify_block_other k f same]

@[simp] theorem setState_stackBase (k : Kernel B) (b : B) (s : ProcessState) :
    (k.setState b s).stackBase = k.stackBase := modify_stackBase k b _ rfl

@[simp] theorem contextSwitch_stackBase (k : Kernel B) (old new : B) :
    (k.contextSwitch old new).stackBase = k.stackBase :=
  modify_stackBase k old (fun t => { t with esp := k.esp }) rfl

@[simp] theorem switchTo_stackBase (k : Kernel B) (old next : B) :
    (k.switchTo old next).stackBase = k.stackBase := by
  have relabel (k' : Kernel B) : ({ k'.setState next .running with
      currentPcb := some next } : Kernel B).stackBase = k'.stackBase :=
    setState_stackBase k' next .running
  simp only [switchTo, contextSwitch_stackBase, relabel]
  split <;> simp

@[simp] theorem leaveToIdle_stackBase (k : Kernel B) (dying idle : B) :
    (k.leaveToIdle dying idle).stackBase = k.stackBase := by
  rw [leaveToIdle, contextSwitch_stackBase, setState_stackBase]
  rfl

theorem released_stackBase_other (k : Kernel B) {b c : B} (wipe : Tcb B → Tcb B)
    (next : B → Option B) (head : Option B) (different : c ≠ b) :
    (k.released b wipe next head).stackBase c = k.stackBase c := by
  simp [stackBase, released_block_other k b wipe next head different]

end Bases

@[simp] theorem ensurePoolInit_stackBase (k : Kernel Slot) :
    k.ensurePoolInit.stackBase = k.stackBase := by
  unfold ensurePoolInit
  split
  · rfl
  · funext b
    cases b <;> rfl

theorem withProcess_stackBase (k : Kernel Slot) (pcb : Slot) (entryFn : U32) (priority : U8)
    (next : Slot → Option Slot) (head : Option Slot) (b : Slot) :
    (k.withProcess pcb entryFn priority next head).stackBase b =
      if b = pcb then k.pmm.pmmAllocPage.1 else k.stackBase b := by
  by_cases same : b = pcb <;> simp [stackBase, withProcess_block, pcbFields, same]

theorem withThread_stackBase (k : Kernel Slot) (tcb : Slot) (parent : Option Slot) (entryFn : U32)
    (next : Slot → Option Slot) (head : Option Slot) (b : Slot) :
    (k.withThread tcb parent entryFn next head).stackBase b =
      if b = tcb then k.pmm.pmmAllocPage.1 else k.stackBase b := by
  have kept := congrFun (ensurePoolInit_stackBase k) b
  by_cases same : b = tcb
  · simp [stackBase, withThread_block, tcbFields, same]
  · simpa [stackBase, withThread_block, same] using kept

end Kernel

namespace Stacks

/-- The free pages and the stacks of the listed blocks make up what `pmm_init` left free. -/
structure Paged (init : Pmm) (k : Kernel Slot) (l : List Slot) : Prop where
  wf : k.pmm.Wf
  total : k.pmm.totalPages = init.totalPages
  address : ∀ b ∈ l, k.stackBase b = BitVec.ofNat 32 (k.stackPage b * pageSize)
  splits : Ledger.Splits init.freeSet k.pmm.freeSet (l.map k.stackPage)

theorem Paged.congr {init : Pmm} {k k' : Kernel Slot} {l : List Slot} (h : Paged init k l)
    (pmm : k'.pmm = k.pmm) (bases : ∀ b ∈ l, k'.stackBase b = k.stackBase b) : Paged init k' l := by
  have pages (b : Slot) (member : b ∈ l) : k'.stackPage b = k.stackPage b := by
    rw [Kernel.stackPage, bases b member, Kernel.stackPage]
  refine ⟨pmm ▸ h.wf, pmm ▸ h.total, ?_, ?_⟩
  · intro b member
    rw [bases b member, pages b member]
    exact h.address b member
  · rw [pmm, List.map_congr_left pages]
    exact h.splits

theorem alloc_of_page0_used {s : Pmm} (wf : s.Wf) (page0 : 0 ∉ s.freeSet) :
    s.pmmAllocPage = (0#32, s) ∨
      ∃ page ∈ s.freeSet, (BitVec.ofNat 32 (page * pageSize)).toNat / pageSize = page ∧
        s.pmmAllocPage = (BitVec.ofNat 32 (page * pageSize), s.take page) ∧
        s.pmmAllocPage.1 ≠ 0#32 := by
  -- With page 0 in use, `pmm_alloc_page` fails without taking anything or hands out a free
  -- page.
  obtain ⟨_, result⟩ | ⟨page, free, _, _, result⟩ := s.pmmAllocPage_cases
  · exact Or.inl result
  · have inside := (Pmm.mem_freeSet s page).mp free
    have value := Pmm.toNat_pageAddress page (by have := wf.bounded; omega)
    refine Or.inr ⟨page, free, ?_, result, ?_⟩
    · rw [value, Nat.mul_div_cancel _ (by decide : 0 < pageSize)]
    · intro null
      rw [result] at null
      rw [show BitVec.ofNat 32 (page * pageSize) = 0#32 from null] at value
      have zero : page = 0 := by simpa [pageSize] using value.symm
      exact page0 (zero ▸ free)

theorem Paged.page0_used {init : Pmm} {k : Kernel Slot} {l : List Slot} (h : Paged init k l)
    (page0 : 0 ∉ init.freeSet) : 0 ∉ k.pmm.freeSet :=
  fun free => page0 ((h.splits.covers 0).mpr (Or.inl free))

theorem Paged.used {init : Pmm} {k : Kernel Slot} {l : List Slot} (h : Paged init k l) {page : Nat}
    (reserved : page ∉ init.freeSet) : k.pmm.bitmapTest page = true := by
  rcases Nat.lt_or_ge page k.pmm.totalPages with inside | above
  next =>
    have unfree : page ∉ k.pmm.freeSet := fun free => reserved ((h.splits.covers page).mpr (Or.inl free))
    simpa [inside] using unfree
  next => exact h.wf.tail page above

theorem Paged.failed {init : Pmm} {k : Kernel Slot} {l : List Slot} (h : Paged init k l)
    (page0 : 0 ∉ init.freeSet) (null : k.pmm.pmmAllocPage.1 = 0#32) :
    k.pmm.pmmAllocPage.2 = k.pmm := by
  obtain result | ⟨_, _, _, _, nonNull⟩ := alloc_of_page0_used h.wf (h.page0_used page0)
  · rw [result]
  · exact absurd null nonNull

theorem Paged.create {init : Pmm} {k k' : Kernel Slot} {l : List Slot} (h : Paged init k l)
    (page0 : 0 ∉ init.freeSet) {b : Slot} (stack : k.pmm.pmmAllocPage.1 ≠ 0#32)
    (pmm : k'.pmm = k.pmm.pmmAllocPage.2) (own : k'.stackBase b = k.pmm.pmmAllocPage.1)
    (others : ∀ c ∈ l, k'.stackBase c = k.stackBase c) : Paged init k' (l ++ [b]) := by
  obtain result | ⟨page, free, index, result, _⟩ := alloc_of_page0_used h.wf (h.page0_used page0)
  · exact absurd (congrArg Prod.fst result) stack
  · rw [result] at pmm own
    have ownPage : k'.stackPage b = page := by
      rw [Kernel.stackPage, own]
      exact index
    have older (c : Slot) (member : c ∈ l) : k'.stackPage c = k.stackPage c := by
      rw [Kernel.stackPage, others c member, Kernel.stackPage]
    refine ⟨pmm ▸ h.wf.take free, pmm ▸ h.total, ?_, ?_⟩
    · intro c member
      rcases List.mem_append.mp member with old | new
      · rw [others c old, older c old]
        exact h.address c old
      · obtain rfl := List.mem_singleton.mp new
        rw [own, ownPage]
    · rw [pmm, Pmm.freeSet_take, List.map_append, List.map_congr_left older, List.map_singleton,
        ownPage]
      exact h.splits.take free

theorem Paged.release {init : Pmm} {k k' : Kernel Slot} {l : List Slot} (h : Paged init k l)
    {b : Slot} (distinct : l.Nodup) (member : b ∈ l)
    (pmm : k'.pmm = k.pmm.pmmFreePage (k.stackBase b))
    (others : ∀ c, c ≠ b → k'.stackBase c = k.stackBase c) : Paged init k' (l.erase b) := by
  have held : k.stackPage b ∈ l.map k.stackPage := List.mem_map_of_mem member
  have wasFree := (h.splits.covers _).mpr (Or.inr held)
  have inside : k.stackPage b < k.pmm.totalPages := by
    rw [h.total]
    exact ((Pmm.mem_freeSet init _).mp wasFree).1
  have used : k.pmm.bitmapTest (k.stackPage b) = true := by
    have taken := h.splits.apart _ held
    simpa [inside] using taken
  have given : k'.pmm = k.pmm.give (k.stackPage b) := by
    rw [pmm, h.address b member]
    exact Pmm.pmmFreePage_page _ inside h.wf.bounded used
  have kept (c : Slot) (left : c ∈ l.erase b) : k'.stackBase c = k.stackBase c :=
    others c (distinct.mem_erase_iff.mp left).1
  have pages (c : Slot) (left : c ∈ l.erase b) : k'.stackPage c = k.stackPage c := by
    rw [Kernel.stackPage, kept c left, Kernel.stackPage]
  refine ⟨given ▸ h.wf.give inside used, given ▸ h.total, ?_, ?_⟩
  · intro c left
    rw [kept c left, pages c left]
    exact h.address c (List.mem_of_mem_erase left)
  · rw [given, Pmm.freeSet_give _ _ inside, List.map_congr_left pages,
      ← Ledger.map_erase_of_nodup k.stackPage h.splits.nodup member]
    exact h.splits.give held

structure Booked (init : Pmm) (k : Kernel Slot) (l : List Slot) : Prop where
  paged : Paged init k l
  unlisted : k.tcbPoolInitialized = true → ∀ i, Slot.tcb i ∉ l → k.state (.tcb i) = .dead
  idlePcb : ∃ i, k.idlePcb = some (.pcb i)

theorem Booked.threads_dead {init : Pmm} {k : Kernel Slot} {l : List Slot} (h : Booked init k l)
    (i : Fin maxThreads) (absent : Slot.tcb i ∉ l) : k.ensurePoolInit.state (.tcb i) = .dead := by
  by_cases ready : k.tcbPoolInitialized = true
  · rw [Kernel.ensurePoolInit, if_pos ready]
    exact h.unlisted ready i absent
  · rw [Kernel.ensurePoolInit, if_neg ready]
    rfl

theorem Booked.ensurePoolInit {init : Pmm} {k : Kernel Slot} {l : List Slot} (h : Booked init k l) :
    Booked init k.ensurePoolInit l :=
  ⟨h.paged.congr (by simp) (by simp), fun _ i absent => h.threads_dead i absent,
    by simpa using h.idlePcb⟩

theorem Booked.noStack {init : Pmm} {k : Kernel Slot} {l : List Slot} (h : Booked init k l)
    (page0 : 0 ∉ init.freeSet) (null : k.pmm.pmmAllocPage.1 = 0#32) :
    Booked init { k with pmm := k.pmm.pmmAllocPage.2 } l :=
  ⟨h.paged.congr (h.paged.failed page0 null) (fun _ _ => rfl), h.unlisted, h.idlePcb⟩

theorem Booked.withProcess {init : Pmm} {k : Kernel Slot} {l : List Slot} (h : Booked init k l)
    (page0 : 0 ∉ init.freeSet) (entryFn : U32) (priority : U8) {i : Fin maxProcesses}
    (next : Slot → Option Slot) (head : Option Slot) (fresh : Slot.pcb i ∉ l)
    (stack : k.pmm.pmmAllocPage.1 ≠ 0#32) :
    Booked init (k.withProcess (.pcb i) entryFn priority next head) (l ++ [.pcb i]) := by
  refine ⟨?_, ?_, h.idlePcb⟩
  · refine h.paged.create page0 stack rfl (by simp [Kernel.withProcess_stackBase]) ?_
    intro c member
    have different : c ≠ Slot.pcb i := fun same => fresh (same ▸ member)
    simp [Kernel.withProcess_stackBase, different]
  · intro ready j absent
    have older : Slot.tcb j ∉ l := fun member => absent (List.mem_append_left _ member)
    simpa [Kernel.state, Kernel.withProcess_block] using h.unlisted ready j older

theorem Booked.withThread {init : Pmm} {k : Kernel Slot} {l : List Slot} (h : Booked init k l)
    (page0 : 0 ∉ init.freeSet) (parent : Option Slot) (entryFn : U32) {i : Fin maxThreads}
    (next : Slot → Option Slot) (head : Option Slot) (fresh : Slot.tcb i ∉ l)
    (stack : k.pmm.pmmAllocPage.1 ≠ 0#32) :
    Booked init (k.withThread (.tcb i) parent entryFn next head) (l ++ [.tcb i]) := by
  refine ⟨?_, ?_, h.ensurePoolInit.idlePcb⟩
  · refine h.paged.create page0 stack rfl (by simp [Kernel.withThread_stackBase]) ?_
    intro c member
    have different : c ≠ Slot.tcb i := fun same => fresh (same ▸ member)
    simp [Kernel.withThread_stackBase, different]
  · intro _ j absent
    have different : Slot.tcb j ≠ Slot.tcb i := by
      intro same
      simp [same] at absent
    have older : Slot.tcb j ∉ l := fun member => absent (List.mem_append_left _ member)
    simpa [Kernel.state, Kernel.withThread_block, different] using h.threads_dead j older

theorem Booked.setState {init : Pmm} {k : Kernel Slot} {l : List Slot} (h : Booked init k l)
    {b : Slot} (member : b ∈ l) (s : ProcessState) : Booked init (k.setState b s) l := by
  refine ⟨h.paged.congr (by simp) (by simp), ?_, h.idlePcb⟩
  intro ready i absent
  have different : Slot.tcb i ≠ b := fun same => absent (same ▸ member)
  rw [Kernel.setState_state, Function.update_of_ne different]
  exact h.unlisted ready i absent

theorem Booked.release {init : Pmm} {k : Kernel Slot} {l : List Slot} (h : Booked init k l)
    (distinct : l.Nodup) {b : Slot} (member : b ∈ l) (wipe : Tcb Slot → Tcb Slot)
    (keepsState : ∀ t, (wipe t).state = t.state) (next : Slot → Option Slot) (head : Option Slot) :
    Booked init (k.released b wipe next head) (l.erase b) := by
  refine ⟨?_, ?_, h.idlePcb⟩
  · exact h.paged.release distinct member rfl
      fun c different => Kernel.released_stackBase_other k wipe next head different
  · intro ready i absent
    rw [Kernel.released_state k b wipe next head keepsState]
    by_cases victim : Slot.tcb i = b
    · simp [victim]
    · rw [Function.update_of_ne victim]
      exact h.unlisted ready i fun listed => absent (distinct.mem_erase_iff.mpr ⟨victim, listed⟩)

theorem Booked.switchTo {init : Pmm} {k : Kernel Slot} {l : List Slot} (h : Booked init k l)
    (old : Slot) {next : Slot} (listed : next ∈ l ∨ k.idlePcb = some next) :
    Booked init (k.switchTo old next) l := by
  obtain ⟨j, idling⟩ := h.idlePcb
  refine ⟨h.paged.congr (by simp) (by simp), ?_, ⟨j, by simpa using idling⟩⟩
  intro ready i absent
  have dead : k.state (.tcb i) = .dead := h.unlisted (by simpa using ready) i absent
  have notNext : Slot.tcb i ≠ next := by
    rintro rfl
    rcases listed with member | isIdle
    · exact absent member
    · simp [idling] at isIdle
  exact Kernel.switchTo_keeps notNext dead (by decide)

theorem Booked.leaveToIdle {init : Pmm} {k : Kernel Slot} {l : List Slot} (h : Booked init k l)
    (dying : Slot) {idle : Slot} (idling : k.idlePcb = some idle) :
    Booked init (k.leaveToIdle dying idle) l := by
  obtain ⟨j, isPcb⟩ := h.idlePcb
  obtain rfl : Slot.pcb j = idle := Option.some.inj (isPcb.symm.trans idling)
  refine ⟨h.paged.congr (by simp) (by simp), ?_, ⟨j, idling⟩⟩
  intro ready i absent
  simpa using h.unlisted ready i absent

def Allowed (k : Kernel Slot) (op : Op) : Prop :=
  op = .processExit → ∃ c l, k.currentPcb = some c ∧ k.Queue l ∧ c ∈ l

theorem Booked.outcome {init : Pmm} {k k' : Kernel Slot} {l : List Slot} (h : Booked init k l)
    (consistent : k.Consistent l) (page0 : 0 ∉ init.freeSet) {op : Op} {block : Option Slot}
    (allowed : Allowed k op) (outcome : Kernel.Outcome k l op block k') :
    Booked init k' (op.edit block l) := by
  have distinct := consistent.queue.nodup
  cases outcome with
  | processPoolFull => exact h
  | processNoStack _ _ null => exact h.noStack page0 null
  | process entryFn priority i next head found stack =>
      have fresh := consistent.allocPcb_fresh found
      exact h.withProcess page0 entryFn priority next head fresh stack
  | newprocessFailed _ _ failed =>
      cases failed with
      | processPoolFull => exact h
      | processNoStack _ _ null => exact h.noStack page0 null
  | newprocess counterProcess _ _ created =>
      cases created with
      | process _ _ i next head found stack =>
          have fresh := consistent.allocPcb_fresh found
          have made := h.withProcess page0 counterProcess 1#8 next head fresh stack
          exact made.setState (List.mem_append_right l List.mem_cons_self) .blocked
  | threadPoolFull => exact h.ensurePoolInit
  | threadNoStack _ _ null =>
      have ready := h.ensurePoolInit.noStack page0 (by simpa using null)
      simpa [Op.edit] using ready
  | thread parent entryFn i next head found stack =>
      have fresh := consistent.allocTcb_fresh found
      exact h.withThread page0 parent entryFn next head fresh stack
  | schedule current idle _ running idling scheduled =>
      cases scheduled with
      | idles => exact h
      | itself => exact h
      | ready next _ listed => exact h.switchTo current (Or.inl listed)
      | fallback => exact h.switchTo current (Or.inr idling)
  | exit current idle next head running idling =>
      obtain ⟨c, l', isCurrent, queue, member⟩ := allowed rfl
      obtain rfl := consistent.queue.unique queue
      obtain rfl : current = c := Option.some.inj (running.symm.trans isCurrent)
      exact (h.release distinct member Kernel.wipeExit (fun _ => rfl) next head).leaveToIdle current
        idling
  | killNothing => exact h
  | kill name argument rest p next head first =>
      exact h.release distinct (List.mem_of_find?_eq_some first) Kernel.wipeProcess (fun _ => rfl)
        next head
  | deleteNothing => exact h.ensurePoolInit
  | delete tid i next head first =>
      have member : Slot.tcb i ∈ l := by
        by_contra absent
        exact Kernel.findTid_alive first (h.threads_dead i absent)
      exact h.ensurePoolInit.release distinct member Kernel.wipeThread (fun _ => rfl) next head

theorem Booked.withEsp {init : Pmm} {k : Kernel Slot} {l : List Slot} (h : Booked init k l)
    (esp : U32) : Booked init { k with esp := esp } l :=
  ⟨h.paged.congr rfl (fun _ _ => rfl), h.unlisted, h.idlePcb⟩

def Step (k k' : Kernel Slot) : Prop :=
  ∃ c block, Allowed k c.op ∧ k.call c = some (block, k')

def Conserved (init : Pmm) (k : Kernel Slot) : Prop :=
  ∃ l, k.Consistent l ∧ Booked init k l

theorem Conserved.step {init : Pmm} (page0 : 0 ∉ init.freeSet) {k k' : Kernel Slot}
    (h : Conserved init k) (taken : Step k k') : Conserved init k' := by
  obtain ⟨l, consistent, booked⟩ := h
  obtain ⟨c, block, allowed, ran⟩ := taken
  obtain ⟨outcome, kept⟩ := consistent.called ran
  exact ⟨_, kept,
    (booked.withEsp c.esp).outcome (consistent.withEsp c.esp) page0 allowed outcome⟩

theorem page0_used_of_alloc {s : Pmm} (stack : s.pmmAllocPage.1 ≠ 0#32) : 0 ∉ s.freeSet := by
  -- A successful `scheduler_init` took its stack above page 0, so page 0 is in use.
  obtain ⟨_, result⟩ | ⟨page, _, _, lowest, result⟩ := s.pmmAllocPage_cases
  · exact absurd (congrArg Prod.fst result) stack
  · have positive : 0 < page := by
      rcases Nat.eq_zero_or_pos page with rfl | positive
      · simp [result] at stack
      · exact positive
    simp [lowest 0 positive]

theorem conserved_of_booted {pmm : Pmm} (wf : pmm.Wf) {esp idleTask : U32} {memory : U32 → U32}
    {k : Kernel Slot} (booted : (Kernel.bss pmm esp memory).schedulerInit idleTask = some k) :
    0 ∉ pmm.freeSet ∧ Conserved pmm k := by
  obtain ⟨i, next, head, stack, shape, consistent⟩ := Kernel.schedulerInit_spec booted
  have page0 := page0_used_of_alloc stack
  have empty : Paged pmm (Kernel.bss pmm esp memory).zeroPcbPool [] :=
    ⟨wf, rfl, by simp, Ledger.splits_start _⟩
  have made : Paged pmm ((Kernel.bss pmm esp memory).zeroPcbPool.withProcess (.pcb i) idleTask 0#8
      next head) ([] ++ [.pcb i]) :=
    empty.create page0 stack rfl (by simp [Kernel.withProcess_stackBase]) (by simp)
  refine ⟨page0, [.pcb i], consistent, ?_, ?_, ⟨i, by rw [shape]; rfl⟩⟩
  · rw [shape]
    exact made.congr rfl (fun b _ => congrFun (Kernel.setState_stackBase _ _ _) b)
  · rw [shape]
    intro ready
    cases ready

/--
In every run from `pmm_init` and a successful `scheduler_init`, the pages taken from what
`pmm_init` left free are exactly the stacks of the listed blocks, one page each, and the
free-page count plus the length of the run queue never changes.
-/
theorem stack_pages_conserved (ram : Ram) (mb : MultibootInfo) (kernelEnd : U32) (fuel : Nat)
    (init : Pmm) (started : Pmm.pmmInit ram mb kernelEnd fuel = some init) (esp idleTask : U32)
    (memory : U32 → U32) (k : Kernel Slot)
    (booted : (Kernel.bss init esp memory).schedulerInit idleTask = some k) (k' : Kernel Slot)
    (run : Relation.ReflTransGen Step k k') :
    ∃ l, k'.Queue l ∧
      init.freeSet \ k'.pmm.freeSet = (l.map k'.stackPage).toFinset ∧
      (l.map k'.stackPage).Nodup ∧
      (∀ b ∈ l, k'.stackBase b = BitVec.ofNat 32 (k'.stackPage b * pageSize)) ∧
      k'.pmm.pmmGetFreePageCount.toNat + l.length = init.pmmGetFreePageCount.toNat := by
  have wf := (Pmm.pmmInit_spec started).1
  obtain ⟨page0, conserved⟩ := conserved_of_booted wf booted
  obtain ⟨l, consistent, booked⟩ :=
    Transition.reachable_invariant (fun _ _ h taken => h.step page0 taken) conserved run
  have splits := booked.paged.splits
  refine ⟨l, consistent.queue, splits.sdiff, splits.nodup, booked.paged.address, ?_⟩
  have count := splits.card
  rw [List.length_map] at count
  rw [Pmm.pmmGetFreePageCount, Pmm.pmmGetFreePageCount, booked.paged.wf.counted, wf.counted]
  exact count

/-- One AVAILABLE entry at 0x9000: base 1 MB, 0x40000 bytes. -/
def sixtyFourPagesRam : Ram := fun addr =>
  if addr = 0x9000#32 then 20#8
  else if addr = 0x9006#32 then 0x10#8
  else if addr = 0x900E#32 then 0x04#8
  else if addr = 0x9014#32 then 1#8
  else 0#8

def sixtyFourPagesInfo : MultibootInfo where
  flags := 0x41#32
  memUpper := 0x400#32
  mmapLength := 24#32
  mmapAddr := 0x9000#32

theorem stack_pages_conserved_sixtyFourPages :
    ∃ init k k', Pmm.pmmInit sixtyFourPagesRam sixtyFourPagesInfo 0x110000#32 2 = some init ∧
      (Kernel.bss init 0x110000#32 fun _ => 0#32).schedulerInit 0x100100#32 = some k ∧
      Relation.ReflTransGen Step k k' ∧ k ≠ k' ∧
      ∃ l, k'.Queue l ∧
        init.freeSet \ k'.pmm.freeSet = (l.map k'.stackPage).toFinset ∧
        (l.map k'.stackPage).Nodup ∧
        (∀ b ∈ l, k'.stackBase b = BitVec.ofNat 32 (k'.stackPage b * pageSize)) ∧
        k'.pmm.pmmGetFreePageCount.toNat + l.length = init.pmmGetFreePageCount.toNat := by
  have evaluated : ((Pmm.pmmInit sixtyFourPagesRam sixtyFourPagesInfo 0x110000#32 2).bind fun init =>
      ((Kernel.bss init 0x110000#32 fun _ => 0#32).schedulerInit 0x100100#32).bind fun k =>
        (k.call ⟨.newprocess 0x100200#32, 0x10FF00#32⟩).map fun r =>
          (k.pmm.freePages, r.2.pmm.freePages)) = some (47#32, 46#32) := by
    decide +kernel
  obtain ⟨init, started, afterInit⟩ := Option.bind_eq_some_iff.mp evaluated
  obtain ⟨k, booted, afterBoot⟩ := Option.bind_eq_some_iff.mp afterInit
  obtain ⟨⟨block, k'⟩, result, counts⟩ := Option.map_eq_some_iff.mp afterBoot
  simp only [Prod.mk.injEq] at counts
  have run : Relation.ReflTransGen Step k k' := .single ⟨_, block, by simp [Allowed], result⟩
  refine ⟨init, k, k', started, booted, run, ?_, stack_pages_conserved _ _ _ _ init started _ _ _ k
    booted k' run⟩
  rintro rfl
  rw [counts.1] at counts
  exact absurd counts.2 (by decide)

end Stacks

end SoraOS
