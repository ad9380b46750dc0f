import SoraOS.Scheduler.Protection

set_option autoImplicit false

namespace SoraOS

section Roles

variable {B : Type} [DecidableEq B]

/--
One block runs, it is in the queue and so is idle, which could run; of the blocks in use as such
exactly the queue entries are alive.
-/
structure Roles (state : B → ProcessState) (inUse : B → Prop) (l : List B) (current idle : B) :
    Prop where
  running : ∀ b, state b = .running ↔ b = current
  alive : ∀ b, inUse b → (b ∈ l ↔ state b ≠ .dead)
  currentListed : current ∈ l
  idleListed : idle ∈ l
  idleAwake : state idle = .ready ∨ state idle = .running

namespace Roles

variable {state : B → ProcessState} {inUse : B → Prop} {l : List B} {current idle b : B}

theorem create (h : Roles state inUse l current idle) (fresh : b ∉ l) {s : ProcessState}
    (waiting : s = .ready ∨ s = .blocked) :
    Roles (Function.update state b s) inUse (l ++ [b]) current idle := by
  have notCurrent : current ≠ b := fun same => fresh (same ▸ h.currentListed)
  have notIdle : idle ≠ b := fun same => fresh (same ▸ h.idleListed)
  constructor
  · intro c
    by_cases same : c = b
    · rcases waiting with rfl | rfl <;> simp [same, notCurrent.symm]
    · rw [Function.update_of_ne same]
      exact h.running c
  · intro c used
    by_cases same : c = b
    · rcases waiting with rfl | rfl <;> simp [same]
    · simpa [same] using h.alive c used
  · exact List.mem_append_left _ h.currentListed
  · exact List.mem_append_left _ h.idleListed
  · rw [Function.update_of_ne notIdle]
    exact h.idleAwake

theorem erase (h : Roles state inUse l current idle) (distinct : l.Nodup) (notCurrent : current ≠ b)
    (notIdle : idle ≠ b) : Roles (Function.update state b .dead) inUse (l.erase b) current idle := by
  constructor
  · intro c
    by_cases same : c = b
    · simp [same, notCurrent.symm]
    · rw [Function.update_of_ne same]
      exact h.running c
  · intro c used
    by_cases same : c = b
    · simp [same, distinct.mem_erase_iff]
    · rw [Function.update_of_ne same, distinct.mem_erase_iff, h.alive c used]
      exact and_iff_right same
  · exact distinct.mem_erase_iff.mpr ⟨notCurrent, h.currentListed⟩
  · exact distinct.mem_erase_iff.mpr ⟨notIdle, h.idleListed⟩
  · rw [Function.update_of_ne notIdle]
    exact h.idleAwake

theorem switch (h : Roles state inUse l current idle) {next : B} (listed : next ∈ l)
    (ready : state next = .ready) :
    Roles (Function.update (Function.update state current .ready) next .running) inUse l next idle := by
  have wasRunning := (h.running current).mpr rfl
  have awake (c : B) (notNext : c ≠ next) :
      Function.update (Function.update state current .ready) next .running c =
        if c = current then .ready else state c := by
    rw [Function.update_of_ne notNext, Function.update_apply]
  constructor
  · intro c
    by_cases isNext : c = next
    · simp [isNext]
    · rw [awake c isNext]
      split
      next => simp [isNext]
      next notCurrent => simp [isNext, h.running, notCurrent]
  · intro c used
    rw [h.alive c used]
    by_cases isNext : c = next
    · simp [isNext, ready]
    · rw [awake c isNext]
      split
      next isCurrent => simp [isCurrent, wasRunning]
      next => exact Iff.rfl
  · exact listed
  · exact h.idleListed
  · by_cases isNext : idle = next
    · simp [isNext]
    · rw [awake idle isNext]
      split
      next => exact .inl rfl
      next => exact h.idleAwake

theorem exit (h : Roles state inUse l current idle) (distinct : l.Nodup) (different : current ≠ idle) :
    Roles (Function.update (Function.update state current .dead) idle .running) inUse
      (l.erase current) idle idle := by
  have idleStays : idle ∈ l.erase current := distinct.mem_erase_iff.mpr ⟨different.symm, h.idleListed⟩
  constructor
  · intro c
    by_cases isIdle : c = idle
    · simp [isIdle]
    · rw [Function.update_of_ne isIdle]
      by_cases isCurrent : c = current
      · simp [isCurrent, different]
      · simp [isCurrent, h.running, isIdle]
  · intro c used
    rw [distinct.mem_erase_iff, h.alive c used]
    by_cases isIdle : c = idle
    · have alive : state idle ≠ .dead := by
        rcases h.idleAwake with ready | running <;> simp [*]
      simp [isIdle, different.symm, alive]
    · rw [Function.update_of_ne isIdle]
      by_cases isCurrent : c = current <;> simp [isCurrent]
  · exact idleStays
  · exact idleStays
  · exact .inr (Function.update_self idle _ _)

end Roles

end Roles

namespace Running

/-- Every slot of `pcb_pool`, and of `tcb_pool` once `ensure_pool_init` has run. -/
def InUse (k : Kernel Slot) : Slot → Prop
  | .pcb _ => True
  | .tcb _ => k.tcbPoolInitialized = true

def Permitted (k : Kernel Slot) (c : Call) : Prop :=
  Protection.Spares k c ∧ (c.op = .processExit → k.currentPcb ≠ k.idlePcb)

def Step (k k' : Kernel Slot) : Prop := ∃ c block, Permitted k c ∧ k.call c = some (block, k')

structure Single (k : Kernel Slot) : Prop where
  running : ∃ c, k.currentPcb = some c ∧ (∀ b, k.state b = .running ↔ b = c) ∧ k.Listed c
  idle : ∃ i, k.idlePcb = some i ∧ k.Listed i ∧ (k.state i = .ready ∨ k.state i = .running)
  alive : ∀ b, InUse k b → (k.Listed b ↔ k.state b ≠ .dead)

structure Solo (k : Kernel Slot) (l : List Slot) (current idle : Slot) : Prop where
  consistent : k.Consistent l
  isCurrent : k.currentPcb = some current
  isIdle : k.idlePcb = some idle
  roles : Roles k.state (InUse k) l current idle

theorem Solo.single {k : Kernel Slot} {l : List Slot} {current idle : Slot}
    (h : Solo k l current idle) : Single k where
  running := ⟨current, h.isCurrent, h.roles.running,
    (h.consistent.queue.listed current).mpr h.roles.currentListed⟩
  idle := ⟨idle, h.isIdle, (h.consistent.queue.listed idle).mpr h.roles.idleListed, h.roles.idleAwake⟩
  alive b used := (h.consistent.queue.listed b).trans (h.roles.alive b used)

theorem Solo.ensurePoolInit {k : Kernel Slot} {l : List Slot} {current idle : Slot}
    (h : Solo k l current idle) : Solo k.ensurePoolInit l current idle := by
  have kept (b : Slot) (member : b ∈ l) : k.ensurePoolInit.state b = k.state b :=
    congrArg (fun t : Tcb Slot => t.state) (h.consistent.ensurePoolInit_block member)
  -- A thread outside the queue is DEAD: already, or now that the pool is set up.
  have outside (b : Slot) (absent : b ∉ l) : k.ensurePoolInit.state b = .dead := by
    cases b with
    | pcb i =>
        have same : k.ensurePoolInit.state (.pcb i) = k.state (.pcb i) :=
          congrArg (fun t : Tcb Slot => t.state) (Kernel.ensurePoolInit_block_pcb k i)
        rw [same]
        simpa [absent] using h.roles.alive (.pcb i) trivial
    | tcb i =>
        rw [Kernel.ensurePoolInit]
        split
        next ready => simpa [absent] using h.roles.alive (.tcb i) ready
        next => rfl
  refine ⟨h.consistent.ensurePoolInit, by simpa using h.isCurrent, by simpa using h.isIdle, ?_⟩
  constructor
  · intro b
    by_cases member : b ∈ l
    · rw [kept b member]
      exact h.roles.running b
    · have notCurrent : b ≠ current := fun same => member (same ▸ h.roles.currentListed)
      simp [outside b member, notCurrent]
  · intro b _
    by_cases member : b ∈ l
    · simp [member, kept b member, h.consistent.live b member]
    · simp [member, outside b member]
  · exact h.roles.currentListed
  · exact h.roles.idleListed
  · rw [kept idle h.roles.idleListed]
    exact h.roles.idleAwake

theorem Solo.withEsp {k : Kernel Slot} {l : List Slot} {current idle : Slot}
    (h : Solo k l current idle) (esp : U32) : Solo { k with esp := esp } l current idle :=
  ⟨h.consistent.withEsp esp, h.isCurrent, h.isIdle, h.roles⟩

theorem Solo.switchTo {k : Kernel Slot} {l : List Slot} {current idle next : Slot}
    (h : Solo k l current idle) (listed : next ∈ l) (ready : k.state next = .ready)
    (kept : (k.switchTo current next).Consistent l) :
    Solo (k.switchTo current next) l next idle := by
  refine ⟨kept, by simp, by simpa using h.isIdle, ?_⟩
  have wasRunning := (h.roles.running current).mpr rfl
  have inUse : InUse (k.switchTo current next) = InUse k := by
    funext b
    cases b <;> simp [InUse]
  rw [Kernel.switchTo_state, if_pos wasRunning, inUse]
  exact h.roles.switch listed ready

theorem Solo.outcome {k k' : Kernel Slot} {l : List Slot} {current idle : Slot}
    (h : Solo k l current idle) {op : Op} {esp : U32} {block : Option Slot}
    (permitted : Permitted k ⟨op, esp⟩) (outcome : Kernel.Outcome k l op block k')
    (kept : k'.Consistent (op.edit block l)) :
    ∃ current', Solo k' (op.edit block l) current' idle := by
  have distinct := h.consistent.queue.nodup
  have spared {p : Slot} (named : k.Names op p) : current ≠ p ∧ idle ≠ p := by
    obtain ⟨notIdle, notCurrent⟩ := permitted.1 p named
    exact ⟨fun same => notCurrent (same ▸ h.isCurrent), fun same => notIdle (same ▸ h.isIdle)⟩
  cases outcome with
  | processPoolFull => exact ⟨current, h⟩
  | processNoStack => exact ⟨current, kept, h.isCurrent, h.isIdle, h.roles⟩
  | process entryFn priority i next head found _ =>
      have fresh := h.consistent.allocPcb_fresh found
      refine ⟨current, kept, h.isCurrent, h.isIdle, ?_⟩
      rw [Kernel.withProcess_state]
      exact h.roles.create fresh (.inl rfl)
  | newprocessFailed _ _ failed =>
      cases failed with
      | processPoolFull => exact ⟨current, h⟩
      | processNoStack => exact ⟨current, kept, h.isCurrent, h.isIdle, h.roles⟩
  | newprocess counterProcess _ _ created =>
      cases created with
      | process _ _ i next head found _ =>
          have fresh := h.consistent.allocPcb_fresh found
          refine ⟨current, kept, h.isCurrent, h.isIdle, ?_⟩
          rw [Kernel.setState_state, Kernel.withProcess_state, Function.update_idem]
          exact h.roles.create fresh (.inr rfl)
  | threadPoolFull => exact ⟨current, h.ensurePoolInit⟩
  | threadNoStack =>
      have ready := h.ensurePoolInit
      exact ⟨current, kept, ready.isCurrent, ready.isIdle, ready.roles⟩
  | thread parent entryFn i next head found _ =>
      have ready := h.ensurePoolInit
      have fresh := h.consistent.allocTcb_fresh found
      refine ⟨current, kept, ready.isCurrent, ready.isIdle, ?_⟩
      rw [Kernel.withThread_state]
      exact ready.roles.create fresh (.inl rfl)
  | schedule current' idle' _ running idling scheduled =>
      obtain rfl : current = current' := Option.some.inj (h.isCurrent.symm.trans running)
      obtain rfl : idle = idle' := Option.some.inj (h.isIdle.symm.trans idling)
      cases scheduled with
      | idles => exact ⟨current, h⟩
      | itself => exact ⟨current, h⟩
      | ready next _ listed isReady => exact ⟨next, h.switchTo listed isReady kept⟩
      | fallback different nobody =>
          have notRunning := mt (h.roles.running idle).mp different
          have isReady := h.roles.idleAwake.resolve_right notRunning
          exact absurd isReady (nobody idle h.roles.idleListed)
  | exit current' idle' next head running idling =>
      obtain rfl : current = current' := Option.some.inj (h.isCurrent.symm.trans running)
      obtain rfl : idle = idle' := Option.some.inj (h.isIdle.symm.trans idling)
      have different : current ≠ idle := by
        rintro rfl
        exact permitted.2 rfl (running.trans idling.symm)
      refine ⟨idle, kept, rfl, idling, ?_⟩
      rw [Kernel.leaveToIdle_state, Kernel.released_state k current Kernel.wipeExit next head fun _ => rfl]
      exact h.roles.exit distinct different
  | killNothing => exact ⟨current, h⟩
  | kill name argument rest p next head first =>
      obtain ⟨notCurrent, notIdle⟩ := spared (p := p) ⟨l, h.consistent.queue, first⟩
      refine ⟨current, kept, h.isCurrent, h.isIdle, ?_⟩
      rw [Kernel.released_state k p Kernel.wipeProcess next head fun _ => rfl]
      exact h.roles.erase distinct notCurrent notIdle
  | deleteNothing => exact ⟨current, h.ensurePoolInit⟩
  | delete tid i next head first =>
      obtain ⟨notCurrent, notIdle⟩ := spared (p := .tcb i) ⟨i, rfl, first⟩
      have ready := h.ensurePoolInit
      refine ⟨current, kept, ready.isCurrent, ready.isIdle, ?_⟩
      rw [Kernel.released_state _ (.tcb i) Kernel.wipeThread next head fun _ => rfl]
      exact ready.roles.erase distinct notCurrent notIdle

theorem Solo.step {k k' : Kernel Slot} (h : ∃ l current idle, Solo k l current idle)
    (taken : Step k k') : ∃ l current idle, Solo k' l current idle := by
  obtain ⟨l, current, idle, h⟩ := h
  obtain ⟨⟨op, esp⟩, block, permitted, ran⟩ := taken
  have placed := h.withEsp esp
  obtain ⟨outcome, kept⟩ := h.consistent.called ran
  have permitted' : Permitted { k with esp := esp } ⟨op, esp⟩ :=
    ⟨fun b named => permitted.1 b (named.withEsp k.esp), permitted.2⟩
  obtain ⟨current', final⟩ := placed.outcome permitted' outcome kept
  exact ⟨_, current', idle, final⟩

theorem solo_of_booted {pmm : Pmm} {esp idleTask : U32} {memory : U32 → U32} {k : Kernel Slot}
    (booted : (Kernel.bss pmm esp memory).schedulerInit idleTask = some k) :
    ∃ l current idle, Solo k l current idle := by
  obtain ⟨i, next, head, _, shape, consistent⟩ := Kernel.schedulerInit_spec booted
  have states : k.state =
      Function.update (Kernel.bss pmm esp memory).zeroPcbPool.state (.pcb i) .running := by
    have made := Kernel.withProcess_state (Kernel.bss pmm esp memory).zeroPcbPool (.pcb i) idleTask
      0#8 next head
    rw [shape, Kernel.setState_state]
    exact (congrArg (Function.update · (.pcb i) .running) made).trans (Function.update_idem _ _ _)
  refine ⟨[.pcb i], .pcb i, .pcb i, consistent, by rw [shape]; rfl, by rw [shape]; rfl, ?_⟩
  rw [states]
  constructor
  · intro b
    by_cases same : b = .pcb i
    · simp [same]
    · cases b <;> simp [same, Kernel.state, Kernel.zeroPcbPool, Kernel.bss]
  · intro b used
    by_cases same : b = .pcb i
    · simp [same]
    · cases b with
      | pcb j => simp [same, Kernel.state, Kernel.zeroPcbPool]
      | tcb j =>
          rw [shape] at used
          cases used
  · exact List.mem_singleton_self _
  · exact List.mem_singleton_self _
  · exact .inr (Function.update_self _ _ _)

/--
In every run from `scheduler_init` in which idle does not exit and no kill or delete command hits
idle or the current block, exactly one block runs: the current one, listed as is all that is alive.
-/
theorem exactly_one_running (pmm : Pmm) (esp idleTask : U32) (memory : U32 → U32) (k : Kernel Slot)
    (booted : (Kernel.bss pmm esp memory).schedulerInit idleTask = some k) (k' : Kernel Slot)
    (run : Relation.ReflTransGen Step k k') : Single k' := by
  have keeps (s t : Kernel Slot) (held : ∃ l current idle, Solo s l current idle)
      (taken : Step s t) : ∃ l current idle, Solo t l current idle := Solo.step held taken
  obtain ⟨l, current, idle, final⟩ :=
    Transition.reachable_invariant keeps (solo_of_booted booted) run
  exact final.single

theorem exactly_one_running_boot :
    ∃ k k', smallBoot = some k ∧ Relation.ReflTransGen Step k k' ∧ k'.state (.pcb 1) = .dead ∧
      Single k' := by
  have evaluated : (smallBoot.bind fun k =>
      (k.call ⟨.createProcess 0x100200#32 1#8, 0x10FF00#32⟩).bind fun r =>
        (r.2.call ⟨.schedule, 0x10FF00#32⟩).bind fun r' =>
          (r'.2.call ⟨.processExit, 0x200F00#32⟩).map fun r'' =>
            (r'.2.currentPcb, r'.2.idlePcb, r''.2.state (.pcb 1))) =
      some (some (.pcb 1), some (.pcb 0), .dead) := by
    decide +kernel
  obtain ⟨k, booted, evaluated⟩ := Option.bind_eq_some_iff.mp evaluated
  obtain ⟨⟨block, k₁⟩, created, evaluated⟩ := Option.bind_eq_some_iff.mp evaluated
  obtain ⟨⟨block', k₂⟩, scheduled, evaluated⟩ := Option.bind_eq_some_iff.mp evaluated
  obtain ⟨⟨block'', k₃⟩, exited, values⟩ := Option.map_eq_some_iff.mp evaluated
  simp only [Prod.mk.injEq] at values
  obtain ⟨current, idle, dead⟩ := values
  have first : Step k k₁ := by
    refine ⟨_, block, ⟨?_, by simp⟩, created⟩
    exact fun _ named => named.elim
  have second : Step k₁ k₂ := by
    refine ⟨_, block', ⟨?_, by simp⟩, scheduled⟩
    exact fun _ named => named.elim
  have third : Step k₂ k₃ := by
    refine ⟨_, block'', ⟨?_, fun _ => ?_⟩, exited⟩
    · exact fun _ named => named.elim
    · rw [current, idle]
      decide
  have run : Relation.ReflTransGen Step k k₃ := ((Relation.ReflTransGen.single first).tail second).tail third
  exact ⟨k, k₃, booted, run, dead, exactly_one_running _ _ _ _ k booted k₃ run⟩

end Running

end SoraOS
