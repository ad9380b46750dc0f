import SoraOS.Scheduler.Linked

set_option autoImplicit false

namespace SoraOS

/-- The calls that change the run queue; `thread_exit` is `process_exit`. -/
inductive Op where
  | createProcess (entryFn : U32) (priority : U8)
  | createThread (parent : Option Slot) (entryFn : U32)
  | newprocess (counterProcess : U32)
  | schedule
  | processExit
  | killprocess (argv : List (List U8))
  | threadDelete (tid : U32)

structure Call where
  op : Op
  esp : U32

namespace Kernel

/-- Runs one call to its end and returns the block it created, killed or deleted. -/
def perform (k : Kernel Slot) : Op → Option (Option Slot × Kernel Slot)
  | .createProcess entryFn priority => k.createProcess entryFn priority
  | .createThread parent entryFn => k.createThread parent entryFn
  | .newprocess counterProcess => k.cmdNewprocess counterProcess
  | .schedule => k.schedule.map fun k => (none, k)
  | .processExit => k.processExit.map fun k' => (k.currentPcb, k')
  | .killprocess argv => k.cmdKillprocess argv
  | .threadDelete tid => k.threadDelete tid

def call (k : Kernel Slot) (c : Call) : Option (Option Slot × Kernel Slot) :=
  ({ k with esp := c.esp } : Kernel Slot).perform c.op

end Kernel

/-- The abstract queue: creations append, exits and deletions erase, `schedule` does nothing. -/
def Op.edit (op : Op) (block : Option Slot) (l : List Slot) : List Slot :=
  match op, block with
  | .createProcess _ _, some b => l ++ [b]
  | .createThread _ _, some b => l ++ [b]
  | .newprocess _, some b => l ++ [b]
  | .processExit, some b => l.erase b
  | .killprocess _, some b => l.erase b
  | .threadDelete _, some b => l.erase b
  | _, _ => l

namespace Kernel

theorem Linked.cmdKillprocess {k : Kernel Slot} {l : List Slot} (h : k.Linked l)
    (argv : List (List U8)) :
    ((∀ name argument rest, argv = name :: argument :: rest →
        l.find? (fun b => (k.block b).pid = parseTarget argument 0#32) = none) ∧
      k.cmdKillprocess argv = some (none, k)) ∨
    ∃ name argument rest p next head, argv = name :: argument :: rest ∧
      l.find? (fun b => (k.block b).pid = parseTarget argument 0#32) = some p ∧
      k.cmdKillprocess argv = some (some p, k.released p wipeProcess next head) ∧
      (k.released p wipeProcess next head).Linked (l.erase p) := by
  match argv with
  | [] => exact Or.inl ⟨by simp, rfl⟩
  | [_] => exact Or.inl ⟨by simp, rfl⟩
  | name :: argument :: rest =>
      have search : k.findPid (parseTarget argument 0#32) =
          some (l.find? fun b => (k.block b).pid = parseTarget argument 0#32) :=
        PointerList.walk_eq_find _ h.queue _ h.queue.length_lt
      cases found : l.find? fun b => (k.block b).pid = parseTarget argument 0#32 with
      | none =>
          refine Or.inl ⟨?_, by simp [Kernel.cmdKillprocess, search, found]⟩
          rintro _ _ _ ⟨⟩
          exact found
      | some p =>
          obtain ⟨next, head, result, shorter⟩ :=
            h.release p wipeProcess (fun _ => rfl) (fun _ => rfl)
          refine Or.inr ⟨name, argument, rest, p, next, head, rfl, found, ?_, shorter⟩
          simp [Kernel.cmdKillprocess, search, found, result]

theorem findTid_alive {k : Kernel Slot} {tid : U32} {i : Fin maxThreads}
    (found : k.findTid tid = some i) : k.state (.tcb i) ≠ .dead := by
  have matched := List.find?_some found
  simp only [Bool.and_eq_true, decide_eq_true_eq] at matched
  exact matched.2

theorem Consistent.threadDelete {k : Kernel Slot} {l : List Slot} (h : k.Consistent l) (tid : U32) :
    (k.ensurePoolInit.findTid tid = none ∧ k.threadDelete tid = some (none, k.ensurePoolInit)) ∨
    ∃ i next head, k.ensurePoolInit.findTid tid = some i ∧
      k.threadDelete tid =
        some (some (.tcb i), k.ensurePoolInit.released (.tcb i) wipeThread next head) ∧
      (k.ensurePoolInit.released (.tcb i) wipeThread next head).Linked (l.erase (.tcb i)) := by
  cases found : k.ensurePoolInit.findTid tid with
  | none => exact Or.inl ⟨rfl, by simp only [Kernel.threadDelete, found]⟩
  | some i =>
      obtain ⟨next, head, result, shorter⟩ :=
        h.ensurePoolInit.release (.tcb i) wipeThread (fun _ => rfl) (fun _ => rfl)
      refine Or.inr ⟨i, next, head, rfl, ?_, shorter⟩
      simp only [Kernel.threadDelete, found, result]
      rfl

theorem findTid_congr {k k' : Kernel Slot} {tid : U32} (blocks : k'.block = k.block) :
    k'.findTid tid = k.findTid tid := by
  unfold findTid state
  rw [blocks]

def Names (k : Kernel Slot) (op : Op) (b : Slot) : Prop :=
  match op with
  | .killprocess (_ :: argument :: _) =>
      ∃ l, k.Queue l ∧ l.find? (fun p => (k.block p).pid = parseTarget argument 0#32) = some b
  | .threadDelete tid => ∃ i, b = .tcb i ∧ k.ensurePoolInit.findTid tid = some i
  | _ => False

theorem Names.killed {k : Kernel Slot} {l : List Slot} (queue : k.Queue l) {argv : List (List U8)}
    {b : Slot} (h : k.Names (.killprocess argv) b) :
    ∃ name argument rest, argv = name :: argument :: rest ∧
      l.find? (fun p => (k.block p).pid = parseTarget argument 0#32) = some b := by
  match argv, h with
  | name :: argument :: rest, named =>
      obtain ⟨l', queue', first⟩ := named
      obtain rfl : l = l' := queue.unique queue'
      exact ⟨name, argument, rest, rfl, first⟩

theorem Names.withEsp {k : Kernel Slot} {op : Op} {b : Slot} (h : k.Names op b) (esp : U32) :
    ({ k with esp := esp } : Kernel Slot).Names op b := by
  cases op with
  | threadDelete tid =>
      obtain ⟨i, same, first⟩ := h
      refine ⟨i, same, ?_⟩
      have blocks : ({ k with esp := esp } : Kernel Slot).ensurePoolInit.block =
          k.ensurePoolInit.block := by
        unfold ensurePoolInit
        split <;> rfl
      rw [findTid_congr blocks]
      exact first
  | killprocess argv =>
      match argv, h with
      | _ :: _ :: _, named => exact named
  | _ => exact h

inductive Outcome (k : Kernel Slot) (l : List Slot) : Op → Option Slot → Kernel Slot → Prop
  | processPoolFull (entryFn : U32) (priority : U8) (full : k.allocPcb = none) :
      Outcome k l (.createProcess entryFn priority) none k
  | processNoStack (entryFn : U32) (priority : U8) (null : k.pmm.pmmAllocPage.1 = 0#32) :
      Outcome k l (.createProcess entryFn priority) none { k with pmm := k.pmm.pmmAllocPage.2 }
  | process (entryFn : U32) (priority : U8) (i : Fin maxProcesses) (next : Slot → Option Slot)
      (head : Option Slot) (found : k.allocPcb = some (.pcb i)) (stack : k.pmm.pmmAllocPage.1 ≠ 0#32) :
      Outcome k l (.createProcess entryFn priority) (some (.pcb i))
        (k.withProcess (.pcb i) entryFn priority next head)
  | newprocessFailed (counterProcess : U32) (k' : Kernel Slot)
      (failed : Outcome k l (.createProcess counterProcess 1#8) none k') :
      Outcome k l (.newprocess counterProcess) none k'
  | newprocess (counterProcess : U32) (pcb : Slot) (k' : Kernel Slot)
      (made : Outcome k l (.createProcess counterProcess 1#8) (some pcb) k') :
      Outcome k l (.newprocess counterProcess) (some pcb) (k'.setState pcb .blocked)
  | threadPoolFull (parent : Option Slot) (entryFn : U32) (full : k.allocTcb.1 = none) :
      Outcome k l (.createThread parent entryFn) none k.ensurePoolInit
  | threadNoStack (parent : Option Slot) (entryFn : U32) (null : k.pmm.pmmAllocPage.1 = 0#32) :
      Outcome k l (.createThread parent entryFn) none
        { k.ensurePoolInit with pmm := k.pmm.pmmAllocPage.2 }
  | thread (parent : Option Slot) (entryFn : U32) (i : Fin maxThreads) (next : Slot → Option Slot)
      (head : Option Slot) (found : k.allocTcb.1 = some (.tcb i))
      (stack : k.pmm.pmmAllocPage.1 ≠ 0#32) :
      Outcome k l (.createThread parent entryFn) (some (.tcb i))
        (k.withThread (.tcb i) parent entryFn next head)
  | schedule (current idle : Slot) (k' : Kernel Slot) (running : k.currentPcb = some current)
      (idling : k.idlePcb = some idle) (scheduled : k.Scheduled l current idle k') :
      Outcome k l .schedule none k'
  | exit (current idle : Slot) (next : Slot → Option Slot) (head : Option Slot)
      (running : k.currentPcb = some current) (idling : k.idlePcb = some idle) :
      Outcome k l .processExit (some current)
        ((k.released current wipeExit next head).leaveToIdle current idle)
  | killNothing (argv : List (List U8))
      (nobody : ∀ name argument rest, argv = name :: argument :: rest →
        l.find? (fun b => (k.block b).pid = parseTarget argument 0#32) = none) :
      Outcome k l (.killprocess argv) none k
  | kill (name argument : List U8) (rest : List (List U8)) (p : Slot) (next : Slot → Option Slot)
      (head : Option Slot)
      (first : l.find? (fun b => (k.block b).pid = parseTarget argument 0#32) = some p) :
      Outcome k l (.killprocess (name :: argument :: rest)) (some p)
        (k.released p wipeProcess next head)
  | deleteNothing (tid : U32) (nobody : k.ensurePoolInit.findTid tid = none) :
      Outcome k l (.threadDelete tid) none k.ensurePoolInit
  | delete (tid : U32) (i : Fin maxThreads) (next : Slot → Option Slot) (head : Option Slot)
      (first : k.ensurePoolInit.findTid tid = some i) :
      Outcome k l (.threadDelete tid) (some (.tcb i))
        (k.ensurePoolInit.released (.tcb i) wipeThread next head)

theorem Outcome.released_of_names {k k' : Kernel Slot} {l : List Slot} {op : Op}
    {block : Option Slot} (outcome : Outcome k l op block k') (queue : k.Queue l) {p : Slot}
    (named : k.Names op p) :
    ∃ wipe next head, (∀ t, (wipe t).state = t.state) ∧ (∀ t, (wipe t).waitNext = t.waitNext) ∧
      (k' = k.released p wipe next head ∨ k' = k.ensurePoolInit.released p wipe next head) := by
  cases outcome with
  | killNothing argv nobody =>
      obtain ⟨name, argument, rest, isArgv, first⟩ := named.killed queue
      rw [nobody name argument rest isArgv] at first
      cases first
  | kill name argument rest victim next head first =>
      obtain ⟨_, _, _, ⟨⟩, first'⟩ := named.killed queue
      obtain rfl : victim = p := Option.some.inj (first.symm.trans first')
      exact ⟨wipeProcess, next, head, fun _ => rfl, fun _ => rfl, Or.inl rfl⟩
  | deleteNothing tid nobody =>
      obtain ⟨i, _, first⟩ := named
      rw [nobody] at first
      cases first
  | delete tid j next head first =>
      obtain ⟨i, rfl, first'⟩ := named
      obtain rfl : j = i := Option.some.inj (first.symm.trans first')
      exact ⟨wipeThread, next, head, fun _ => rfl, fun _ => rfl, Or.inr rfl⟩
  | _ => exact named.elim

theorem Outcome.names_dead {k k' : Kernel Slot} {l : List Slot} {op : Op} {block : Option Slot}
    (outcome : Outcome k l op block k') (queue : k.Queue l) {p : Slot} (named : k.Names op p) :
    k'.state p = .dead ∧ k'.idlePcb = k.idlePcb ∧ k'.currentPcb = k.currentPcb := by
  obtain ⟨wipe, next, head, keepsState, _, rfl | rfl⟩ := outcome.released_of_names queue named
  · refine ⟨?_, rfl, rfl⟩
    simp [released_state k p wipe next head keepsState]
  · refine ⟨?_, by simp, by simp⟩
    simp [released_state k.ensurePoolInit p wipe next head keepsState]

theorem Consistent.createProcess_outcome {k : Kernel Slot} {l : List Slot} (h : k.Consistent l)
    (entryFn : U32) (priority : U8) :
    ∃ block k', k.createProcess entryFn priority = some (block, k') ∧
      Outcome k l (.createProcess entryFn priority) block k' ∧
      k'.Consistent ((Op.createProcess entryFn priority).edit block l) := by
  rcases h.createProcess entryFn priority with ⟨full, result⟩ | ⟨null, result⟩ |
    ⟨pcb, next, head, found, _, stack, result, longer⟩
  · exact ⟨_, _, result, .processPoolFull _ _ full, h⟩
  · exact ⟨_, _, result, .processNoStack _ _ null, ⟨h.queue, h.unlinked, h.live⟩, h.poolReady,
      h.current, h.idle⟩
  · obtain ⟨⟨i, rfl⟩, _⟩ := allocPcb_some found
    exact ⟨_, _, result, .process _ _ i next head found stack, longer,
      fun fresh j => by simpa [Op.edit] using h.poolReady fresh j, h.current, h.idle⟩

theorem Consistent.perform {k : Kernel Slot} {l : List Slot} (h : k.Consistent l) (op : Op) :
    ∃ block k', k.perform op = some (block, k') ∧ Outcome k l op block k' ∧
      k'.Consistent (op.edit block l) := by
  obtain ⟨current, running⟩ := h.current
  obtain ⟨idle, idling⟩ := h.idle
  cases op with
  | createProcess entryFn priority => exact h.createProcess_outcome entryFn priority
  | createThread parent entryFn =>
      have ready := h.ensurePoolInit
      rcases h.createThread parent entryFn with ⟨full, result⟩ | ⟨null, result⟩ |
        ⟨tcb, next, head, found, _, stack, result, longer⟩
      · exact ⟨_, _, result, .threadPoolFull _ _ full, ready⟩
      · exact ⟨_, _, result, .threadNoStack _ _ null, ⟨ready.queue, ready.unlinked, ready.live⟩,
          ready.poolReady, ready.current, ready.idle⟩
      · obtain ⟨⟨i, rfl⟩, _⟩ := allocTcb_some found
        refine ⟨_, _, result, .thread _ _ i next head found stack, longer, ?_, ready.current,
          ready.idle⟩
        intro unset
        simp [withThread, fillTcb] at unset
  | newprocess counterProcess =>
      obtain ⟨block, k', made, outcome, kept⟩ := h.createProcess_outcome counterProcess 1#8
      cases block with
      | none =>
          exact ⟨none, k', by simp [Kernel.perform, cmdNewprocess, made], .newprocessFailed _ _ outcome,
            kept⟩
      | some pcb =>
          exact ⟨some pcb, _, by simp [Kernel.perform, cmdNewprocess, made],
            .newprocess _ _ _ outcome, kept.toLinked.setState _ (by decide), kept.poolReady,
            kept.current, kept.idle⟩
  | schedule =>
      obtain ⟨k', result, linked, scheduled⟩ := h.schedule running idling
      refine ⟨none, k', by simp [Kernel.perform, result],
        .schedule current idle k' running idling scheduled, linked, ?_, ?_, ?_⟩
      · cases scheduled <;> simpa [Op.edit] using h.poolReady
      · cases scheduled <;> simp [running]
      · cases scheduled <;> simp [idling]
  | processExit =>
      obtain ⟨next, head, result, shorter⟩ := h.processExit running idling
      refine ⟨some current, _, by simp [Kernel.perform, result, running],
        .exit current idle next head running idling, shorter, ?_, ⟨_, rfl⟩, ⟨idle, idling⟩⟩
      exact fun fresh i member => h.poolReady fresh i (List.mem_of_mem_erase member)
  | killprocess argv =>
      rcases h.cmdKillprocess argv with ⟨nobody, result⟩ |
        ⟨name, argument, rest, p, next, head, rfl, first, result, shorter⟩
      · exact ⟨_, _, result, .killNothing argv nobody, h⟩
      · exact ⟨_, _, result, .kill name argument rest p next head first, shorter,
          fun fresh i member => h.poolReady fresh i (List.mem_of_mem_erase member), h.current, h.idle⟩
  | threadDelete tid =>
      have ready := h.ensurePoolInit
      rcases h.threadDelete tid with ⟨nobody, result⟩ | ⟨i, next, head, first, result, shorter⟩
      · exact ⟨_, _, result, .deleteNothing tid nobody, ready⟩
      · exact ⟨_, _, result, .delete tid i next head first, shorter,
          fun fresh j member => ready.poolReady fresh j (List.mem_of_mem_erase member),
          ready.current, ready.idle⟩

theorem Consistent.withEsp {k : Kernel Slot} {l : List Slot} (h : k.Consistent l) (esp : U32) :
    ({ k with esp := esp } : Kernel Slot).Consistent l :=
  ⟨⟨h.queue, h.unlinked, h.live⟩, h.poolReady, h.current, h.idle⟩

theorem Consistent.call {k : Kernel Slot} {l : List Slot} (h : k.Consistent l) (c : Call) :
    ∃ block k', k.call c = some (block, k') ∧ Outcome { k with esp := c.esp } l c.op block k' ∧
      k'.Consistent (c.op.edit block l) :=
  (h.withEsp c.esp).perform c.op

theorem Consistent.performed {k k' : Kernel Slot} {l : List Slot} (h : k.Consistent l) {op : Op}
    {block : Option Slot} (ran : k.perform op = some (block, k')) :
    Outcome k l op block k' ∧ k'.Consistent (op.edit block l) := by
  obtain ⟨block', k'', result, outcome, kept⟩ := h.perform op
  obtain ⟨rfl, rfl⟩ : block' = block ∧ k'' = k' := by simpa using result.symm.trans ran
  exact ⟨outcome, kept⟩

theorem Consistent.called {k k' : Kernel Slot} {l : List Slot} (h : k.Consistent l) {c : Call}
    {block : Option Slot} (ran : k.call c = some (block, k')) :
    Outcome { k with esp := c.esp } l c.op block k' ∧ k'.Consistent (c.op.edit block l) :=
  (h.withEsp c.esp).performed ran

theorem schedulerInit_spec {pmm : Pmm} {esp idleTask : U32} {memory : U32 → U32} {k : Kernel Slot}
    (booted : (bss pmm esp memory).schedulerInit idleTask = some k) :
    ∃ i next head, pmm.pmmAllocPage.1 ≠ 0#32 ∧
      k = ({ (bss pmm esp memory).zeroPcbPool.withProcess (.pcb i) idleTask 0#8 next head with
            idlePcb := some (.pcb i), currentPcb := some (.pcb i) } : Kernel Slot).setState
          (.pcb i) .running ∧
      k.Consistent [.pcb i] := by
  have empty : (bss pmm esp memory).zeroPcbPool.Linked [] :=
    ⟨rfl, fun b _ => by cases b <;> rfl, by simp⟩
  rcases empty.createProcess idleTask 0#8 with ⟨_, result⟩ | ⟨_, result⟩ |
    ⟨pcb, next, head, found, _, nonNull, result, longer⟩
  · simp [schedulerInit, result] at booted
  · simp [schedulerInit, result] at booted
  · obtain ⟨⟨i, rfl⟩, _⟩ := allocPcb_some found
    simp only [schedulerInit, result, Option.bind_eq_bind, Option.bind_some, Option.pure_def,
      Option.some.injEq] at booted
    refine ⟨i, next, head, nonNull, booted.symm, ?_⟩
    subst booted
    refine ⟨?_, by simp, ⟨_, rfl⟩, ⟨_, rfl⟩⟩
    apply Linked.setState _ _ (by decide)
    exact ⟨longer.queue, longer.unlinked, longer.live⟩

end Kernel

/-- Pages 512 to 543 are free. -/
def smallPmm : Pmm where
  bitmap := fun word => if word = 16 then 0#32 else 0xFFFFFFFF#32
  totalPages := 1024
  freePages := 32#32

def smallBoot : Option (Kernel Slot) :=
  (Kernel.bss smallPmm 0x110000#32 fun _ => 0#32).schedulerInit 0x100100#32

theorem smallBoot_isSome : smallBoot.isSome = true := by decide +kernel

def smallThreads : Option (Kernel Slot) := do
  let (_, k) ← (← smallBoot).createThread none 0x100300#32
  let (_, k) ← k.createThread none 0x100300#32
  return k

end SoraOS
