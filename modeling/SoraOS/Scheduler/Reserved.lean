import SoraOS.Memory.Ownership
import SoraOS.Scheduler.Stacks

set_option autoImplicit false

namespace SoraOS.Reserved

def Step (k : Kernel Slot) (c : Call) (k' : Kernel Slot) : Prop :=
  ∃ block, k.call c = some (block, k')

structure MemoryReserved (kernelEnd : U32) (k : Kernel Slot) : Prop where
  page0 : k.pmm.bitmapTest 0 = true
  kernel : ∀ page, page * pageSize < kernelEnd.toNat → k.pmm.bitmapTest page = true
  nullTakesNone : k.pmm.pmmAllocPage.1 = 0#32 → k.pmm.pmmAllocPage.2 = k.pmm
  outsideKernel : k.pmm.pmmAllocPage.1 ≠ 0#32 → kernelEnd.toNat ≤ k.pmm.pmmAllocPage.1.toNat

/-- `process_exit` is only called while the current block still has its stack. -/
def KeepsStack (k : Kernel Slot) (c : Call) : Prop :=
  c.op = .processExit → ∃ current, k.currentPcb = some current ∧ k.stackBase current ≠ 0#32

def Bare (k : Kernel Slot) (l : List Slot) : Prop := ∀ b ∉ l, k.stackBase b = 0#32

theorem Bare.congr {k k' : Kernel Slot} {l : List Slot} (h : Bare k l)
    (bases : k'.stackBase = k.stackBase) : Bare k' l := fun b absent =>
  (congrFun bases b).trans (h b absent)

theorem Bare.append {k k' : Kernel Slot} {l : List Slot} (h : Bare k l) {b : Slot}
    (others : ∀ c, c ≠ b → k'.stackBase c = k.stackBase c) : Bare k' (l ++ [b]) := by
  intro c absent
  simp only [List.mem_append, List.mem_singleton, not_or] at absent
  rw [others c absent.2]
  exact h c absent.1

theorem Bare.release {k : Kernel Slot} {l : List Slot} (h : Bare k l) (b : Slot)
    (wipe : Tcb Slot → Tcb Slot) (wipes : ∀ t, (wipe t).stackBase = 0#32)
    (next : Slot → Option Slot) (head : Option Slot) :
    Bare (k.released b wipe next head) (l.erase b) := by
  intro c absent
  by_cases victim : c = b
  next =>
    subst victim
    simp [Kernel.stackBase, Kernel.released, wipes]
  next =>
    rw [Kernel.released_stackBase_other k wipe next head victim]
    exact h c fun member => absent ((List.mem_erase_of_ne victim).mpr member)

theorem Bare.outcome {k k' : Kernel Slot} {l : List Slot} (h : Bare k l) {op : Op}
    {block : Option Slot} (outcome : Kernel.Outcome k l op block k') :
    Bare k' (op.edit block l) := by
  cases outcome with
  | processPoolFull => exact h
  | processNoStack => exact h
  | process =>
      exact h.append fun c different => by simp [Kernel.withProcess_stackBase, different]
  | newprocessFailed _ _ failed => cases failed <;> exact h
  | newprocess _ _ _ made =>
      cases made
      exact h.append fun c different => by simp [Kernel.withProcess_stackBase, different]
  | threadPoolFull => exact h.congr k.ensurePoolInit_stackBase
  | threadNoStack => exact h.congr k.ensurePoolInit_stackBase
  | thread =>
      exact h.append fun c different => by simp [Kernel.withThread_stackBase, different]
  | schedule _ _ _ _ _ scheduled => exact h.congr (by cases scheduled <;> simp)
  | exit current idle next head =>
      exact (h.release current Kernel.wipeExit (fun _ => rfl) next head).congr
        (Kernel.leaveToIdle_stackBase _ current idle)
  | killNothing => exact h
  | kill _ _ _ p next head => exact h.release p Kernel.wipeProcess (fun _ => rfl) next head
  | deleteNothing => exact h.congr k.ensurePoolInit_stackBase
  | delete _ i next head =>
      exact (h.congr k.ensurePoolInit_stackBase).release (.tcb i) Kernel.wipeThread (fun _ => rfl)
        next head

def Guarded (init : Pmm) (k : Kernel Slot) : Prop :=
  ∃ l, k.Consistent l ∧ Stacks.Booked init k l ∧ Bare k l

theorem Guarded.step {init : Pmm} (page0 : 0 ∉ init.freeSet) {k k' : Kernel Slot} {c : Call}
    (h : Guarded init k) (keeps : KeepsStack k c) (taken : Step k c k') : Guarded init k' := by
  obtain ⟨l, consistent, booked, bare⟩ := h
  obtain ⟨block, ran⟩ := taken
  obtain ⟨outcome, kept⟩ := consistent.called ran
  -- Whoever still has a stack is listed, so an exit releases a listed block.
  have allowed : Stacks.Allowed ({ k with esp := c.esp } : Kernel Slot) c.op := by
    intro exits
    obtain ⟨current, running, stack⟩ := keeps exits
    have member : current ∈ l := Classical.byContradiction fun absent => stack (bare current absent)
    exact ⟨current, l, running, consistent.queue, member⟩
  exact ⟨_, kept, (booked.withEsp c.esp).outcome (consistent.withEsp c.esp) page0 allowed outcome,
    Bare.outcome (k := { k with esp := c.esp }) bare outcome⟩

theorem Guarded.not_reserved_of_exit {init : Pmm} (page0 : 0 ∉ init.freeSet)
    (pages : 0 < init.totalPages) {kernelEnd : U32} {k k' : Kernel Slot} {c : Call}
    (h : Guarded init k) (without : ¬ KeepsStack k c) (taken : Step k c k') :
    ¬ MemoryReserved kernelEnd k' := by
  obtain ⟨l, consistent, booked, _⟩ := h
  obtain ⟨block, ran⟩ := taken
  have outcome := (consistent.called ran).1
  obtain ⟨op, esp⟩ := c
  simp only [KeepsStack, Classical.not_imp, not_exists, not_and, ne_eq, not_not] at without
  obtain ⟨rfl, none⟩ := without
  cases outcome with
  | exit current idle next head running =>
      -- The stack field is 0, and `pmm_free_page` takes that for the address of page 0.
      have stack : (k.block current).stackBase = 0#32 := none current running
      have inside : 0 < k.pmm.totalPages := booked.paged.total ▸ pages
      have used := booked.paged.used page0
      have freed : k.pmm.pmmFreePage (k.block current).stackBase = k.pmm.give 0 := by
        rw [stack]
        exact Pmm.pmmFreePage_page k.pmm inside booked.paged.wf.bounded used
      intro reserved
      have still := reserved.page0
      simp [freed] at still

theorem Guarded.reserved {init : Pmm} (page0 : 0 ∉ init.freeSet) {kernelEnd : U32}
    (outside : ∀ page ∈ init.freeSet, kernelEnd.toNat ≤ page * pageSize) {k : Kernel Slot}
    (h : Guarded init k) : MemoryReserved kernelEnd k := by
  obtain ⟨l, _, booked, _⟩ := h
  have wf := booked.paged.wf
  have ours (page : Nat) (free : page ∈ k.pmm.freeSet) : page ∈ init.freeSet :=
    (booked.paged.splits.covers page).mpr (Or.inl free)
  refine ⟨booked.paged.used page0, fun page below => booked.paged.used fun free => ?_,
    booked.paged.failed page0, fun some => ?_⟩
  · have := outside page free
    omega
  · obtain result | ⟨page, free, _, result, _⟩ :=
      Stacks.alloc_of_page0_used wf (booked.paged.page0_used page0)
    · exact absurd (congrArg Prod.fst result) some
    · rw [result, Pmm.toNat_pageAddress page (wf.page_small free)]
      exact outside page (ours page free)

theorem guarded_of_booted {pmm : Pmm} (wf : pmm.Wf) {esp idleTask : U32} {memory : U32 → U32}
    {k : Kernel Slot} (booted : (Kernel.bss pmm esp memory).schedulerInit idleTask = some k) :
    0 ∉ pmm.freeSet ∧ 0 < pmm.totalPages ∧ Guarded pmm k := by
  obtain ⟨page0, l, consistent, paged⟩ := Stacks.conserved_of_booted wf booted
  obtain ⟨i, next, head, stack, shape, alone⟩ := Kernel.schedulerInit_spec booted
  obtain rfl : l = [.pcb i] := consistent.queue.unique alone.queue
  have pages : 0 < pmm.totalPages := by
    obtain ⟨_, result⟩ | ⟨page, free, _⟩ := pmm.pmmAllocPage_cases
    · exact absurd (congrArg Prod.fst result) stack
    · have := ((Pmm.mem_freeSet pmm page).mp free).1
      omega
  refine ⟨page0, pages, _, consistent, paged, ?_⟩
  intro b absent
  have different : b ≠ Slot.pcb i := by simpa using absent
  have before := Kernel.withProcess_stackBase (Kernel.bss pmm esp memory).zeroPcbPool (.pcb i)
    idleTask 0#8 next head b
  rw [if_neg different] at before
  rw [shape, Kernel.setState_stackBase]
  refine Eq.trans before ?_
  cases b <;> rfl

/--
In every run after `pmm_init` and a successful `scheduler_init`, page 0 and the kernel's pages
stay in use throughout exactly when no block without a stack calls `process_exit`.
-/
theorem always_reserved_iff (ram : Ram) (mb : MultibootInfo) (kernelEnd : U32) (fuel : Nat)
    (init : Pmm) (started : Pmm.pmmInit ram mb kernelEnd fuel = some init)
    (linked : kernelEnd.toNat ≤ 0xFFFFF000) (esp idleTask : U32) (memory : U32 → U32)
    (k : Kernel Slot) (booted : (Kernel.bss init esp memory).schedulerInit idleTask = some k)
    (calls : List Call) :
    Transition.Always Step (MemoryReserved kernelEnd) k calls ↔
      Transition.Meets Step KeepsStack k calls := by
  obtain ⟨page0, pages, guarded⟩ := guarded_of_booted (Pmm.pmmInit_spec started).1 booted
  have outside (page : Nat) (free : page ∈ init.freeSet) : kernelEnd.toNat ≤ page * pageSize :=
    Ownership.kernelEnd_le_of_free started linked free
  exact Transition.always_iff_meets (fun _ h => h.reserved page0 outside)
    (fun _ _ _ h keeps taken => h.step page0 keeps taken)
    (fun _ _ _ h without taken => h.not_reserved_of_exit page0 pages without taken) guarded calls

/-- `killprocess 1` ends the current process, which then calls `process_exit`: page 0 is free. -/
theorem not_always_reserved_killed :
    ∃ init k, Pmm.pmmInit Stacks.sixtyFourPagesRam Stacks.sixtyFourPagesInfo 0x110000#32 2 =
        some init ∧
      (Kernel.bss init 0x110000#32 fun _ => 0#32).schedulerInit 0x100100#32 = some k ∧
      ¬ Transition.Always Step (MemoryReserved 0x110000#32) k
        [⟨.killprocess [[], [49#8]], 0x10FF00#32⟩, ⟨.processExit, 0x10FF00#32⟩] := by
  have evaluated :
      ((Pmm.pmmInit Stacks.sixtyFourPagesRam Stacks.sixtyFourPagesInfo 0x110000#32 2).bind
        fun init => ((Kernel.bss init 0x110000#32 fun _ => 0#32).schedulerInit 0x100100#32).bind
          fun k => (k.call ⟨.killprocess [[], [49#8]], 0x10FF00#32⟩).bind fun r =>
            (r.2.call ⟨.processExit, 0x10FF00#32⟩).map fun r => r.2.pmm.bitmapTest 0) =
        some false := by
    decide +kernel
  obtain ⟨init, started, afterInit⟩ := Option.bind_eq_some_iff.mp evaluated
  obtain ⟨k, booted, afterBoot⟩ := Option.bind_eq_some_iff.mp afterInit
  obtain ⟨⟨_, killed⟩, first, afterKill⟩ := Option.bind_eq_some_iff.mp afterBoot
  obtain ⟨⟨_, exited⟩, second, free⟩ := Option.map_eq_some_iff.mp afterKill
  refine ⟨init, k, started, booted, ?_⟩
  rintro ⟨_, later⟩
  have used := ((later killed ⟨_, first⟩).2 exited ⟨_, second⟩).here.page0
  exact absurd (used.symm.trans free) (by decide)

theorem always_reserved_sixtyFourPages :
    ∃ init k, Pmm.pmmInit Stacks.sixtyFourPagesRam Stacks.sixtyFourPagesInfo 0x110000#32 2 =
        some init ∧
      (Kernel.bss init 0x110000#32 fun _ => 0#32).schedulerInit 0x100100#32 = some k ∧
      Transition.Always Step (MemoryReserved 0x110000#32) k
        [⟨.createThread none 0x100300#32, 0x10FF00#32⟩, ⟨.threadDelete 1#32, 0x10FF00#32⟩,
          ⟨.processExit, 0x10FF00#32⟩] := by
  have evaluated :
      ((Pmm.pmmInit Stacks.sixtyFourPagesRam Stacks.sixtyFourPagesInfo 0x110000#32 2).bind
        fun init => ((Kernel.bss init 0x110000#32 fun _ => 0#32).schedulerInit 0x100100#32).bind
          fun k => (k.call ⟨.createThread none 0x100300#32, 0x10FF00#32⟩).bind fun r =>
            (r.2.call ⟨.threadDelete 1#32, 0x10FF00#32⟩).map fun r =>
              (r.2.currentPcb, decide (r.2.stackBase (.pcb 0) = 0#32))) =
        some (some (.pcb 0), false) := by
    decide +kernel
  obtain ⟨init, started, afterInit⟩ := Option.bind_eq_some_iff.mp evaluated
  obtain ⟨k, booted, afterBoot⟩ := Option.bind_eq_some_iff.mp afterInit
  obtain ⟨⟨_, threaded⟩, first, afterThread⟩ := Option.bind_eq_some_iff.mp afterBoot
  obtain ⟨⟨_, deleted⟩, second, values⟩ := Option.map_eq_some_iff.mp afterThread
  obtain ⟨running, stack⟩ := Prod.mk.inj values
  refine ⟨init, k, started, booted,
    (always_reserved_iff _ _ _ _ init started (by decide) _ _ _ k booted _).mpr ?_⟩
  rintro _ ⟨_, taken⟩
  obtain rfl := congrArg Prod.snd (Option.some.inj (first.symm.trans taken))
  refine ⟨by simp [KeepsStack], ?_⟩
  rintro _ ⟨_, taken⟩
  obtain rfl := congrArg Prod.snd (Option.some.inj (second.symm.trans taken))
  refine ⟨by simp [KeepsStack], fun _ _ => ⟨fun _ => ?_, trivial⟩⟩
  exact ⟨.pcb 0, running, of_decide_eq_false stack⟩

end SoraOS.Reserved
