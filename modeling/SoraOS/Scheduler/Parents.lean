import SoraOS.Scheduler.Identity

set_option autoImplicit false

namespace SoraOS

namespace Kernel

def parent (k : Kernel Slot) (b : Slot) : Option Slot := (k.block b).parent

section Parent

variable (k : Kernel Slot)

@[simp] theorem setState_parent (b : Slot) (s : ProcessState) :
    (k.setState b s).parent = k.parent :=
  funext (setState_field Tcb.parent (fun _ _ => rfl) k b s)

@[simp] theorem switchTo_parent (old next : Slot) : (k.switchTo old next).parent = k.parent :=
  funext (switchTo_field Tcb.parent (fun _ _ => rfl) (fun _ _ => rfl) k old next)

@[simp] theorem leaveToIdle_parent (dying idle : Slot) :
    (k.leaveToIdle dying idle).parent = k.parent :=
  funext (leaveToIdle_field Tcb.parent (fun _ _ => rfl) (fun _ _ => rfl) k dying idle)

theorem released_parent (b : Slot) (wipe : Tcb Slot → Tcb Slot) (next : Slot → Option Slot)
    (head : Option Slot) (wiped : ∀ t, (wipe t).parent = t.parent) :
    (k.released b wipe next head).parent = k.parent :=
  funext (released_field k b wipe next head Tcb.parent (fun _ _ => rfl) (fun _ _ => rfl) wiped)

@[simp] theorem ensurePoolInit_parent : k.ensurePoolInit.parent = k.parent := by
  unfold ensurePoolInit
  split
  · rfl
  · funext b
    cases b <;> rfl

@[simp] theorem withProcess_parent (pcb : Slot) (entryFn : U32) (priority : U8)
    (next : Slot → Option Slot) (head : Option Slot) :
    (k.withProcess pcb entryFn priority next head).parent = k.parent := by
  funext b
  by_cases same : b = pcb <;> simp [parent, withProcess_block, pcbFields, same]

theorem withThread_parent (tcb : Slot) (parent : Option Slot) (entryFn : U32)
    (next : Slot → Option Slot) (head : Option Slot) (b : Slot) :
    (k.withThread tcb parent entryFn next head).parent b = if b = tcb then parent else k.parent b := by
  have kept := congrFun k.ensurePoolInit_parent b
  by_cases same : b = tcb
  · simp [Kernel.parent, withThread_block, tcbFields, same]
  · simpa [Kernel.parent, withThread_block, same] using kept

theorem ensurePoolInit_pid (p : Fin maxProcesses) : k.ensurePoolInit.pid (.pcb p) = k.pid (.pcb p) := by
  rw [pid, ensurePoolInit_block_pcb, pid]

theorem ensurePoolInit_dead {i : Fin maxThreads} (dead : k.state (.tcb i) = .dead) :
    k.ensurePoolInit.state (.tcb i) = .dead := by
  unfold ensurePoolInit
  split
  next => exact dead
  next => rfl

end Parent

theorem Outcome.idlePcb {k k' : Kernel Slot} {l : List Slot} {op : Op} {block : Option Slot}
    (outcome : Outcome k l op block k') : k'.idlePcb = k.idlePcb := by
  cases outcome with
  | newprocessFailed _ _ failed => cases failed <;> rfl
  | newprocess _ _ _ made => cases made; rfl
  | threadPoolFull => exact k.ensurePoolInit_idlePcb
  | threadNoStack => exact k.ensurePoolInit_idlePcb
  | thread => exact k.ensurePoolInit_idlePcb
  | schedule _ _ _ _ _ scheduled => cases scheduled <;> simp
  | deleteNothing => exact k.ensurePoolInit_idlePcb
  | delete => exact k.ensurePoolInit_idlePcb
  | _ => rfl

end Kernel

def Op.threadMade : Op → Option Slot → Option (Fin maxThreads × Option Slot)
  | .createThread parent _, some (.tcb i) => some (i, parent)
  | _, _ => none

namespace Parents

/-- A run so far: the kernel, and for each thread the PID of the live process it was made under. -/
structure Owned where
  kernel : Kernel Slot
  owner : Fin maxThreads → Option U32

def atBoot (k : Kernel Slot) : Owned := { kernel := k, owner := fun _ => none }

def livePid (k : Kernel Slot) : Option Slot → Option U32
  | some (.pcb p) => if k.state (.pcb p) = .dead then none else some (k.pid (.pcb p))
  | _ => none

def step (s : Owned) (c : Call) : Option Owned :=
  (s.kernel.call c).map fun r =>
    { kernel := r.2
      owner := match c.op.threadMade r.1 with
        | some (i, parent) => Function.update s.owner i (livePid s.kernel parent)
        | none => s.owner }

def Owned.Tracked (s : Owned) (i : Fin maxThreads) (n : U32) : Prop :=
  s.kernel.state (.tcb i) ≠ .dead ∧ s.owner i = some n

/-- `t->parent->pid` is still the PID of the process that the thread was created under. -/
structure Faithful (s : Owned) : Prop where
  parent : ∀ i n, s.Tracked i n → (s.kernel.parent (.tcb i)).map s.kernel.pid = some n
  shown : ∀ lines,
    (s.kernel.cmdThreads = some lines ∨ ∃ processes, s.kernel.cmdLs = some (processes, lines)) →
    ∀ line ∈ lines, ∃ i, s.kernel.threadLine (.tcb i) = some line ∧
      ∀ n, s.Tracked i n → line.parent = some n

def Ends (k : Kernel Slot) (op : Op) (b : Slot) : Prop :=
  k.Names op b ∨ op = .processExit ∧ k.currentPcb = some b

def Fills (k : Kernel Slot) (op : Op) (b : Slot) : Prop :=
  ((∃ entryFn priority, op = .createProcess entryFn priority) ∨
      ∃ counterProcess, op = .newprocess counterProcess) ∧
    k.allocPcb = some b ∧ k.pmm.pmmAllocPage.1 ≠ 0#32

/--
The call neither ends the parent of a live thread nor refills its slot. (A process whose PID is 0,
after `next_pid` has wrapped, keeps that PID when it ends, and its slot may get the same PID again.)
-/
structure Spares (s : Owned) (c : Call) : Prop where
  ended : ∀ i n p, s.Tracked i n → s.kernel.parent (.tcb i) = some p →
    Ends s.kernel c.op p → n = 0#32
  refilled : ∀ i n p, s.Tracked i n → s.kernel.parent (.tcb i) = some p →
    Fills s.kernel c.op p → n = s.kernel.nextPid + 1#32

theorem released_keeps (k : Kernel Slot) (b : Slot) (wipe : Tcb Slot → Tcb Slot)
    (next : Slot → Option Slot) (head : Option Slot) (keepsParent : ∀ t, (wipe t).parent = t.parent)
    (keepsState : ∀ t, (wipe t).state = t.state) (c : Slot) :
    (k.released b wipe next head).parent c = k.parent c ∧
      (k.state c = .dead → (k.released b wipe next head).state c = .dead) := by
  refine ⟨congrFun (k.released_parent b wipe next head keepsParent) c, fun dead => ?_⟩
  rw [Kernel.released_state k b wipe next head keepsState, Function.update_apply]
  split
  next => rfl
  next => exact dead

theorem thread_of_outcome {k k' : Kernel Slot} {l : List Slot} (consistent : k.Consistent l)
    {j : Fin maxProcesses} (idle : k.idlePcb = some (.pcb j)) {op : Op} {block : Option Slot}
    (outcome : Kernel.Outcome k l op block k') (i : Fin maxThreads) :
    (∃ parent, op.threadMade block = some (i, parent) ∧ k'.parent (.tcb i) = parent) ∨
      (∀ parent, op.threadMade block ≠ some (i, parent)) ∧
        k'.parent (.tcb i) = k.parent (.tcb i) ∧
        (k.state (.tcb i) = .dead → k'.state (.tcb i) = .dead) := by
  cases outcome with
  | processPoolFull => exact .inr ⟨by simp [Op.threadMade], rfl, id⟩
  | processNoStack => exact .inr ⟨by simp [Op.threadMade], rfl, id⟩
  | process => exact .inr ⟨by simp [Op.threadMade], by simp, by simp [Kernel.withProcess_state]⟩
  | newprocessFailed _ _ failed =>
      cases failed <;> exact .inr ⟨by simp [Op.threadMade], rfl, id⟩
  | newprocess _ _ _ made =>
      cases made
      exact .inr ⟨by simp [Op.threadMade], by simp,
        by simp [Kernel.setState_state, Kernel.withProcess_state]⟩
  | threadPoolFull => exact .inr ⟨by simp [Op.threadMade], by simp, k.ensurePoolInit_dead⟩
  | threadNoStack =>
      exact .inr ⟨by simp [Op.threadMade], congrFun k.ensurePoolInit_parent _, k.ensurePoolInit_dead⟩
  | thread parent entryFn made next head =>
      by_cases same : i = made
      next =>
        subst same
        exact .inl ⟨parent, rfl, by rw [Kernel.withThread_parent, if_pos rfl]⟩
      next =>
        have different : Slot.tcb i ≠ .tcb made := fun equal => same (Slot.tcb.inj equal)
        refine .inr ⟨?_, ?_, fun dead => ?_⟩
        · intro other equal
          exact same (Prod.mk.inj (Option.some.inj equal)).1.symm
        · rw [Kernel.withThread_parent, if_neg different]
        · rw [Kernel.withThread_state, Function.update_of_ne different]
          exact k.ensurePoolInit_dead dead
  | schedule current idle' _ running idling scheduled =>
      -- Whoever gets the CPU is listed, hence live, or it is idle.
      have switched (next : Slot) (chosen : next ∈ l ∨ next = .pcb j)
          (dead : k.state (.tcb i) = .dead) : (k.switchTo current next).state (.tcb i) = .dead := by
        have notNext : Slot.tcb i ≠ next := by
          rintro rfl
          rcases chosen with listed | isIdle
          next => exact consistent.live _ listed dead
          next => cases isIdle
        exact Kernel.switchTo_keeps notNext dead (by decide)
      obtain rfl : idle' = Slot.pcb j := Option.some.inj (idling.symm.trans idle)
      refine .inr ⟨by simp [Op.threadMade], ?_, ?_⟩
      · cases scheduled <;> simp
      · cases scheduled with
        | idles => exact id
        | itself => exact id
        | ready next _ listed => exact switched next (.inl listed)
        | fallback => exact switched (.pcb j) (.inr rfl)
  | exit current idle' next head running idling =>
      obtain rfl : idle' = Slot.pcb j := Option.some.inj (idling.symm.trans idle)
      obtain ⟨parent, dies⟩ := released_keeps k current Kernel.wipeExit next head (fun _ => rfl)
        (fun _ => rfl) (.tcb i)
      refine .inr ⟨by simp [Op.threadMade], by simpa using parent, fun dead => ?_⟩
      rw [Kernel.leaveToIdle_state, Function.update_of_ne (by simp)]
      exact dies dead
  | killNothing => exact .inr ⟨by simp [Op.threadMade], rfl, id⟩
  | kill _ _ _ p next head =>
      exact .inr ⟨by simp [Op.threadMade],
        released_keeps k p Kernel.wipeProcess next head (fun _ => rfl) (fun _ => rfl) (.tcb i)⟩
  | deleteNothing => exact .inr ⟨by simp [Op.threadMade], by simp, k.ensurePoolInit_dead⟩
  | delete _ victim next head =>
      obtain ⟨parent, dies⟩ := released_keeps k.ensurePoolInit (.tcb victim) Kernel.wipeThread next
        head (fun _ => rfl) (fun _ => rfl) (.tcb i)
      exact .inr ⟨by simp [Op.threadMade], by simpa using parent,
        fun dead => dies (k.ensurePoolInit_dead dead)⟩

theorem pid_of_outcome {k k' : Kernel Slot} {l : List Slot} (queue : k.Queue l) {op : Op}
    {block : Option Slot} (outcome : Kernel.Outcome k l op block k') (p : Fin maxProcesses)
    (lives : ¬ Ends k op (.pcb p)) (kept : ¬ Fills k op (.pcb p)) :
    k'.pid (.pcb p) = k.pid (.pcb p) := by
  -- Only the end of a process and a creation in its slot write its PID.
  have other (k : Kernel Slot) {b : Slot} (wipe : Tcb Slot → Tcb Slot) (next : Slot → Option Slot)
      (head : Option Slot) (different : Slot.pcb p ≠ b) :
      (k.released b wipe next head).pid (.pcb p) = k.pid (.pcb p) := by
    rw [Kernel.pid, Kernel.released_block_other k b wipe next head different, Kernel.pid]
  cases outcome with
  | processPoolFull => rfl
  | processNoStack => rfl
  | process entryFn priority i next head found stack =>
      rw [Kernel.withProcess_pid, if_neg]
      intro same
      exact kept ⟨.inl ⟨entryFn, priority, rfl⟩, same ▸ found, stack⟩
  | newprocessFailed _ _ failed => cases failed <;> rfl
  | newprocess counterProcess _ _ made =>
      cases made with
      | process _ _ i next head found stack =>
          rw [Kernel.setState_pid, Kernel.withProcess_pid, if_neg]
          intro same
          exact kept ⟨.inr ⟨counterProcess, rfl⟩, same ▸ found, stack⟩
  | threadPoolFull => exact k.ensurePoolInit_pid p
  | threadNoStack => exact k.ensurePoolInit_pid p
  | thread => rw [Kernel.withThread_pid, if_neg (by simp), k.ensurePoolInit_pid]
  | schedule _ _ _ _ _ scheduled => cases scheduled <;> simp
  | exit current idle next head running =>
      rw [Kernel.leaveToIdle_pid]
      apply other
      intro same
      exact lives (.inr ⟨rfl, same ▸ running⟩)
  | killNothing => rfl
  | kill name argument rest victim next head first =>
      apply other
      intro same
      exact lives (.inl ⟨l, queue, same ▸ first⟩)
  | deleteNothing => exact k.ensurePoolInit_pid p
  | delete => rw [other _ _ _ _ (by simp), k.ensurePoolInit_pid]

theorem released_pid_self (k : Kernel Slot) (b : Slot) {wipe : Tcb Slot → Tcb Slot}
    (next : Slot → Option Slot) (head : Option Slot) (wipes : ∀ t, (wipe t).pid = 0#32) :
    (k.released b wipe next head).pid b = 0#32 := by
  simp [Kernel.pid, Kernel.released, wipes]

theorem Ends.outcome {k k' : Kernel Slot} {l : List Slot} (queue : k.Queue l) {j : Fin maxProcesses}
    (idle : k.idlePcb = some (.pcb j)) {op : Op} {block : Option Slot}
    (outcome : Kernel.Outcome k l op block k') {p : Fin maxProcesses} (ends : Ends k op (.pcb p)) :
    op.threadMade block = none ∧ k'.pid (.pcb p) = 0#32 ∧
      ∀ i, k'.state (.tcb i) = k.state (.tcb i) := by
  rcases ends with named | ⟨rfl, isCurrent⟩
  next =>
    cases outcome with
    | killNothing argv nobody =>
        obtain ⟨name, argument, rest, isArgv, first⟩ := named.killed queue
        rw [nobody name argument rest isArgv] at first
        cases first
    | kill name argument rest victim next head first =>
        obtain ⟨_, _, _, ⟨⟩, first'⟩ := named.killed queue
        obtain rfl : victim = .pcb p := Option.some.inj (first.symm.trans first')
        refine ⟨rfl, released_pid_self k _ next head fun _ => rfl, fun i => ?_⟩
        rw [Kernel.released_state k _ Kernel.wipeProcess next head fun _ => rfl,
          Function.update_of_ne (by simp)]
    | deleteNothing =>
        obtain ⟨i, same, _⟩ := named
        cases same
    | delete =>
        obtain ⟨i, same, _⟩ := named
        cases same
    | _ => exact named.elim
  next =>
    cases outcome with
    | exit current idle' next head running idling =>
        obtain rfl : current = .pcb p := Option.some.inj (running.symm.trans isCurrent)
        obtain rfl : idle' = .pcb j := Option.some.inj (idling.symm.trans idle)
        refine ⟨rfl, ?_, fun i => ?_⟩
        · rw [Kernel.leaveToIdle_pid]
          exact released_pid_self k _ next head fun _ => rfl
        · rw [Kernel.leaveToIdle_state, Function.update_of_ne (by simp),
            Kernel.released_state k _ Kernel.wipeExit next head fun _ => rfl,
            Function.update_of_ne (by simp)]

theorem Fills.outcome {k k' : Kernel Slot} {l : List Slot} {op : Op} {block : Option Slot}
    (outcome : Kernel.Outcome k l op block k') {p : Fin maxProcesses} (fills : Fills k op (.pcb p)) :
    op.threadMade block = none ∧ k'.pid (.pcb p) = k.nextPid + 1#32 ∧
      ∀ i, k'.state (.tcb i) = k.state (.tcb i) := by
  have filled (entryFn : U32) (priority : U8) {block : Option Slot} {k' : Kernel Slot}
      (outcome : Kernel.Outcome k l (.createProcess entryFn priority) block k') :
      block = some (.pcb p) ∧ k'.pid (.pcb p) = k.nextPid + 1#32 ∧
        ∀ i, k'.state (.tcb i) = k.state (.tcb i) := by
    cases outcome with
    | processPoolFull _ _ full => exact absurd (full.symm.trans fills.2.1) (by simp)
    | processNoStack _ _ null => exact absurd null fills.2.2
    | process _ _ i next head found =>
        obtain rfl : i = p := Slot.pcb.inj (Option.some.inj (found.symm.trans fills.2.1))
        refine ⟨rfl, by rw [Kernel.withProcess_pid, if_pos rfl], fun i => ?_⟩
        rw [Kernel.withProcess_state, Function.update_of_ne (by simp)]
  rcases fills.1 with ⟨entryFn, priority, rfl⟩ | ⟨counterProcess, rfl⟩
  next => exact ⟨rfl, (filled entryFn priority outcome).2⟩
  next =>
    cases outcome with
    | newprocessFailed _ _ failed => cases (filled counterProcess 1#8 failed).1
    | newprocess _ pcb k' made =>
        obtain ⟨same, pid, states⟩ := filled counterProcess 1#8 made
        obtain rfl := Option.some.inj same
        refine ⟨rfl, by rw [Kernel.setState_pid, pid], fun i => ?_⟩
        rw [Kernel.setState_state, Function.update_of_ne (by simp), states]

/-- Every tracked thread's parent is a process that still has the PID the thread was made under. -/
def Attached (s : Owned) : Prop :=
  (∃ l, s.kernel.Consistent l) ∧ (∃ j, s.kernel.idlePcb = some (.pcb j)) ∧
    ∀ i n, s.Tracked i n →
      ∃ p, s.kernel.parent (.tcb i) = some (.pcb p) ∧ s.kernel.pid (.pcb p) = n

theorem Attached.faithful {s : Owned} (h : Attached s) : Faithful s := by
  obtain ⟨_, _, attached⟩ := h
  have parent (i : Fin maxThreads) (n : U32) (tracked : s.Tracked i n) :
      (s.kernel.parent (.tcb i)).map s.kernel.pid = some n := by
    obtain ⟨p, given, pid⟩ := attached i n tracked
    rw [given, Option.map_some, pid]
  refine ⟨parent, ?_⟩
  intro lines listed line member
  have threads : s.kernel.cmdThreads = some lines := by
    rcases listed with threads | ⟨processes, both⟩
    next => exact threads
    next => exact Kernel.cmdLs_threads both
  obtain ⟨i, shown⟩ := Kernel.cmdThreads_line threads member
  refine ⟨i, shown, fun n tracked => ?_⟩
  obtain rfl := Option.some.inj shown
  exact parent i n tracked

theorem livePid_some {k : Kernel Slot} {parent : Option Slot} {n : U32}
    (live : livePid k parent = some n) : ∃ p, parent = some (.pcb p) ∧ k.pid (.pcb p) = n := by
  cases parent with
  | none => cases live
  | some b =>
      cases b with
      | tcb i => cases live
      | pcb p =>
          simp only [livePid] at live
          split at live
          next => cases live
          next => exact ⟨p, rfl, Option.some.inj live⟩

theorem Ends.withEsp {k : Kernel Slot} {op : Op} {b : Slot} (h : Ends k op b) (esp : U32) :
    Ends { k with esp := esp } op b := h.imp (·.withEsp esp) id

theorem Attached.taken {s t : Owned} {c : Call} (h : Attached s) (taken : step s c = some t) :
    ∃ l block, (∃ l', t.kernel.Consistent l') ∧ (∃ j, t.kernel.idlePcb = some (.pcb j)) ∧
      t.owner = (match c.op.threadMade block with
        | some (i, parent) => Function.update s.owner i (livePid s.kernel parent)
        | none => s.owner) ∧
      ({ s.kernel with esp := c.esp } : Kernel Slot).Consistent l ∧
      Kernel.Outcome { s.kernel with esp := c.esp } l c.op block t.kernel := by
  obtain ⟨⟨l, consistent⟩, ⟨j, idle⟩, _⟩ := h
  obtain ⟨block, k, result, outcome, kept⟩ := consistent.call c
  simp only [step, result, Option.map_some, Option.some.injEq] at taken
  subst taken
  exact ⟨l, block, ⟨_, kept⟩, ⟨j, outcome.idlePcb.trans idle⟩, rfl, consistent.withEsp c.esp, outcome⟩

theorem Attached.step {s t : Owned} {c : Call} (h : Attached s) (spares : Spares s c)
    (taken : step s c = some t) : Attached t := by
  obtain ⟨l, block, consistent', idle', owner, consistent, outcome⟩ := h.taken taken
  obtain ⟨_, ⟨j, idle⟩, attached⟩ := h
  refine ⟨consistent', idle', fun i n tracked => ?_⟩
  obtain ⟨alive, owned⟩ := tracked
  rcases thread_of_outcome consistent idle outcome i with ⟨parent, made, given⟩ | ⟨other, kept, dead⟩
  next =>
    -- A new thread: its parent is alive, and a `create_thread` writes no process's PID.
    simp only [owner, made, Function.update_self] at owned
    obtain ⟨p, rfl, pid⟩ := livePid_some owned
    refine ⟨p, given, ?_⟩
    rw [← pid]
    apply pid_of_outcome consistent.queue outcome p
    · intro ends
      rw [(Ends.outcome consistent.queue idle outcome ends).1] at made
      cases made
    · intro fills
      rw [(Fills.outcome outcome fills).1] at made
      cases made
  next =>
    have before : s.owner i = some n := by
      rw [owner] at owned
      cases made : c.op.threadMade block with
      | none =>
          rw [made] at owned
          exact owned
      | some pair =>
          obtain ⟨i', parent⟩ := pair
          have different : i ≠ i' := by
            rintro rfl
            exact other parent made
          rw [made] at owned
          exact (Function.update_of_ne different _ _).symm.trans owned
    have tracked : s.Tracked i n := ⟨fun died => alive (dead died), before⟩
    obtain ⟨p, given, pid⟩ := attached i n tracked
    refine ⟨p, kept.trans given, ?_⟩
    by_cases ends : Ends { s.kernel with esp := c.esp } c.op (.pcb p)
    next =>
      rw [(Ends.outcome consistent.queue idle outcome ends).2.1]
      exact (spares.ended i n _ tracked given (ends.withEsp s.kernel.esp)).symm
    next =>
      by_cases fills : Fills { s.kernel with esp := c.esp } c.op (.pcb p)
      next =>
        rw [(Fills.outcome outcome fills).2.1]
        exact (spares.refilled i n _ tracked given fills).symm
      next => exact (pid_of_outcome consistent.queue outcome p ends fills).trans pid

theorem Attached.spares_of_faithful {s t : Owned} {c : Call} (h : Attached s)
    (taken : Parents.step s c = some t) (faithful : Faithful t) : Spares s c := by
  obtain ⟨l, block, _, _, owner, consistent, outcome⟩ := h.taken taken
  obtain ⟨_, ⟨j, idle⟩, attached⟩ := h
  -- The thread is still tracked after the call, so its parent still has its PID.
  have still {i : Fin maxThreads} {n : U32} {p : Fin maxProcesses} (tracked : s.Tracked i n)
      (given : s.kernel.parent (.tcb i) = some (.pcb p)) (none : c.op.threadMade block = none)
      (states : t.kernel.state (.tcb i) = s.kernel.state (.tcb i)) : t.kernel.pid (.pcb p) = n := by
    have tracked' : t.Tracked i n := by
      refine ⟨fun dead => tracked.1 (states.symm.trans dead), ?_⟩
      rw [owner, none]
      exact tracked.2
    have parent := faithful.parent i n tracked'
    rcases thread_of_outcome consistent idle outcome i with ⟨_, made, _⟩ | ⟨_, kept, _⟩
    next =>
      rw [none] at made
      cases made
    next =>
      rw [kept.trans given] at parent
      exact Option.some.inj parent
  constructor
  next =>
    intro i n b tracked given ends
    obtain ⟨p, given', _⟩ := attached i n tracked
    obtain rfl := Option.some.inj (given.symm.trans given')
    obtain ⟨none, zero, states⟩ := Ends.outcome consistent.queue idle outcome (ends.withEsp c.esp)
    exact (still tracked given none (states i)).symm.trans zero
  next =>
    intro i n b tracked given fills
    obtain ⟨p, given', _⟩ := attached i n tracked
    obtain rfl := Option.some.inj (given.symm.trans given')
    obtain ⟨none, filled, states⟩ :=
      Fills.outcome (k := { s.kernel with esp := c.esp }) outcome fills
    exact (still tracked given none (states i)).symm.trans filled

theorem attached_of_booted {pmm : Pmm} {esp idleTask : U32} {memory : U32 → U32} {k : Kernel Slot}
    (booted : (Kernel.bss pmm esp memory).schedulerInit idleTask = some k) :
    Attached (atBoot k) := by
  obtain ⟨i, next, head, _, shape, consistent⟩ := Kernel.schedulerInit_spec booted
  refine ⟨⟨_, consistent⟩, ⟨i, by rw [shape]; rfl⟩, ?_⟩
  rintro i n ⟨_, owned⟩
  cases owned

/--
In every run after `scheduler_init`, each live thread's parent keeps the PID that it had when the
thread was created exactly when no call ends a live thread's parent or refills its slot.
-/
theorem always_faithful_iff (pmm : Pmm) (esp idleTask : U32) (memory : U32 → U32) (k : Kernel Slot)
    (booted : (Kernel.bss pmm esp memory).schedulerInit idleTask = some k) (calls : List Call) :
    Transition.Always (fun s c t => step s c = some t) Faithful (atBoot k) calls ↔
      Transition.Meets (fun s c t => step s c = some t) Spares (atBoot k) calls :=
  Transition.always_iff_meets (fun _ h => h.faithful) (fun _ _ _ h spares taken => h.step spares taken)
    (fun _ _ _ h unspared taken faithful => unspared (h.spares_of_faithful taken faithful))
    (attached_of_booted booted) calls

def threadAfterProcess (process : Slot) : List Call :=
  [⟨.createProcess 0x100200#32 1#8, 0x10FF00#32⟩,
    ⟨.createThread (some process) 0x100300#32, 0x10FF00#32⟩]

def killParent : Call := ⟨.killprocess [[], [50#8]], 0x10FF00#32⟩

/-- `killprocess 2` ends the thread's parent, and `threads` shows the parent PID 0. -/
theorem not_always_faithful_killed :
    ∃ k, smallBoot = some k ∧
      ¬ Transition.Always (fun s c t => step s c = some t) Faithful (atBoot k)
        (threadAfterProcess (.pcb 1) ++ [killParent]) := by
  have evaluated : (smallBoot.bind fun k =>
      ((threadAfterProcess (.pcb 1) ++ [killParent]).foldlM step (atBoot k)).map fun s =>
        (decide (s.kernel.state (.tcb 0) = .dead), s.owner 0,
          (s.kernel.parent (.tcb 0)).map s.kernel.pid)) = some (false, some 2#32, some 0#32) := by
    decide +kernel
  obtain ⟨k, booted, evaluated⟩ := Option.bind_eq_some_iff.mp evaluated
  obtain ⟨s, ran, values⟩ := Option.map_eq_some_iff.mp evaluated
  obtain ⟨alive, values⟩ := Prod.mk.inj values
  obtain ⟨owner, parent⟩ := Prod.mk.inj values
  refine ⟨k, booted, fun always => ?_⟩
  have shown := (always.of_run ran).parent 0 2#32 ⟨of_decide_eq_false alive, owner⟩
  exact absurd (parent.symm.trans shown) (by decide)

-- The call ends and fills nothing, or all tracked threads are dead.
def harmless (s : Owned) (c : Call) : Bool :=
  match c.op with
  | .createThread _ _ | .threadDelete _ => true
  | _ => ∀ i, s.owner i = none ∨ s.kernel.state (.tcb i) = .dead

theorem Attached.spares_of_harmless {s : Owned} (h : Attached s) {c : Call}
    (checked : harmless s c = true) : Spares s c := by
  obtain ⟨_, _, attached⟩ := h
  obtain ⟨op, esp⟩ := c
  have nobody (dead : ∀ i, s.owner i = none ∨ s.kernel.state (.tcb i) = .dead) :
      Spares s ⟨op, esp⟩ := by
    have gone (i : Fin maxThreads) (n : U32) (tracked : s.Tracked i n) : False := by
      rcases dead i with unowned | isDead
      next => cases unowned.symm.trans tracked.2
      next => exact tracked.1 isDead
    exact ⟨fun i n _ tracked => (gone i n tracked).elim, fun i n _ tracked => (gone i n tracked).elim⟩
  cases op with
  | createThread parent entryFn =>
      constructor
      · rintro i n p _ _ (named | ⟨exits, _⟩)
        next => exact named.elim
        next => cases exits
      · rintro i n p _ _ ⟨⟨_, _, creates⟩ | ⟨_, creates⟩, _⟩ <;> cases creates
  | threadDelete tid =>
      constructor
      · rintro i n p tracked given (⟨_, rfl, _⟩ | ⟨exits, _⟩)
        next =>
          -- Parents are processes.
          obtain ⟨_, given', _⟩ := attached i n tracked
          cases given.symm.trans given'
        next => cases exits
      · rintro i n p _ _ ⟨⟨_, _, creates⟩ | ⟨_, creates⟩, _⟩ <;> cases creates
  | _ => exact nobody (of_decide_eq_true checked)

def deletedBefore (process : Slot) : List Call :=
  threadAfterProcess process ++ [⟨.threadDelete 1#32, 0x10FF00#32⟩, killParent]

theorem always_faithful_threadDeleted :
    ∃ k s, smallBoot = some k ∧
      (threadAfterProcess (.pcb 1)).foldlM step (atBoot k) = some s ∧ s.Tracked 0 2#32 ∧
      Transition.Meets (fun s c t => step s c = some t) Spares (atBoot k)
        (deletedBefore (.pcb 1)) ∧
      Transition.Always (fun s c t => step s c = some t) Faithful (atBoot k)
        (deletedBefore (.pcb 1)) := by
  have evaluated : (smallBoot.bind fun k => ((threadAfterProcess (.pcb 1)).foldlM step
      (atBoot k)).bind fun s => ((deletedBefore (.pcb 1)).foldlM (fun s c =>
        if harmless s c = true then step s c else none) (atBoot k)).map fun t =>
          (decide (s.kernel.state (.tcb 0) = .dead), s.owner 0, t.kernel.state (.pcb 1))) =
            some (false, some 2#32, .dead) := by
    decide +kernel
  obtain ⟨k, booted, afterBoot⟩ := Option.bind_eq_some_iff.mp evaluated
  obtain ⟨s, ran, afterThread⟩ := Option.bind_eq_some_iff.mp afterBoot
  obtain ⟨t, ran', values⟩ := Option.map_eq_some_iff.mp afterThread
  obtain ⟨alive, values⟩ := Prod.mk.inj values
  have met : Transition.Meets (fun s c t => step s c = some t) Spares (atBoot k)
      (deletedBefore (.pcb 1)) :=
    Transition.Meets.of_checked (fun _ _ h => h.spares_of_harmless)
      (fun _ _ _ h spares taken => h.step spares taken) (attached_of_booted booted) (.of_run ran')
  exact ⟨k, s, booted, ran, ⟨of_decide_eq_false alive, (Prod.mk.inj values).1⟩, met,
    (always_faithful_iff _ _ _ _ k booted _).mpr met⟩

end Parents

end SoraOS
