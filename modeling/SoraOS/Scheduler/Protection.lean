import SoraOS.Scheduler.Calls
import SoraOS.Shared.Transition

set_option autoImplicit false

namespace SoraOS.Protection

/-- The calls of a system without threads that a process or the shell makes. -/
def ofProcesses : Op → Prop
  | .createProcess _ _ => True
  | .newprocess _ => True
  | .schedule => True
  | .killprocess _ => True
  | _ => False

def Step (k : Kernel Slot) (c : Call) (k' : Kernel Slot) : Prop :=
  ofProcesses c.op ∧ ∃ block, k.call c = some (block, k')

structure Protected (k : Kernel Slot) : Prop where
  idleLive : ∃ i, k.idlePcb = some i ∧ k.state i ≠ .dead ∧ k.Listed i
  currentLive : ∃ c, k.currentPcb = some c ∧ k.state c ≠ .dead ∧ k.Listed c
  notReused : ∀ entryFn priority b k', k.createProcess entryFn priority = some (some b, k') →
    k.idlePcb ≠ some b ∧ k.currentPcb ≠ some b

def Spares (k : Kernel Slot) (c : Call) : Prop :=
  ∀ b, k.Names c.op b → k.idlePcb ≠ some b ∧ k.currentPcb ≠ some b

def Anchored (k : Kernel Slot) : Prop :=
  ∃ l idle current, k.Consistent l ∧ k.idlePcb = some idle ∧ k.currentPcb = some current ∧
    idle ∈ l ∧ current ∈ l

theorem Anchored.protected {k : Kernel Slot} (h : Anchored k) : Protected k := by
  obtain ⟨l, idle, current, consistent, idling, running, idleListed, currentListed⟩ := h
  refine ⟨⟨idle, idling, consistent.live idle idleListed, l, consistent.queue, idleListed⟩,
    ⟨current, running, consistent.live current currentListed, l, consistent.queue, currentListed⟩, ?_⟩
  intro entryFn priority b k' made
  have fresh := consistent.created_unlisted made
  rw [idling, running]
  constructor
  · rintro ⟨⟩
    exact fresh idleListed
  · rintro ⟨⟩
    exact fresh currentListed

theorem Anchored.step {k k' : Kernel Slot} {c : Call} (h : Anchored k) (taken : Step k c k')
    (spares : Spares k c) : Anchored k' := by
  obtain ⟨l, idle, current, consistent, idling, running, idleListed, currentListed⟩ := h
  obtain ⟨allowed, block, ran⟩ := taken
  obtain ⟨outcome, kept⟩ := consistent.called ran
  obtain ⟨op, esp⟩ := c
  cases outcome with
  | processPoolFull => exact ⟨l, idle, current, kept, idling, running, idleListed, currentListed⟩
  | processNoStack => exact ⟨l, idle, current, kept, idling, running, idleListed, currentListed⟩
  | process => exact ⟨_, idle, current, kept, idling, running, List.mem_append_left _ idleListed,
      List.mem_append_left _ currentListed⟩
  | newprocessFailed _ _ failed =>
      cases failed <;>
        exact ⟨l, idle, current, kept, idling, running, idleListed, currentListed⟩
  | newprocess _ _ _ made =>
      cases made
      exact ⟨_, idle, current, kept, idling, running, List.mem_append_left _ idleListed,
        List.mem_append_left _ currentListed⟩
  | schedule current' idle' _ running' idling' scheduled =>
      obtain rfl : idle = idle' := Option.some.inj (idling.symm.trans idling')
      cases scheduled with
      | idles => exact ⟨l, idle, current, kept, idling, running, idleListed, currentListed⟩
      | itself => exact ⟨l, idle, current, kept, idling, running, idleListed, currentListed⟩
      | ready next _ listed =>
          exact ⟨l, idle, next, kept, by simpa using idling, by simp, idleListed, listed⟩
      | fallback => exact ⟨l, idle, idle, kept, by simpa using idling, by simp, idleListed, idleListed⟩
  | killNothing => exact ⟨l, idle, current, kept, idling, running, idleListed, currentListed⟩
  | kill name argument rest p next head first =>
      have named : k.Names (.killprocess (name :: argument :: rest)) p :=
        ⟨l, consistent.queue, first⟩
      obtain ⟨notIdle, notCurrent⟩ := spares p named
      have distinct := consistent.queue.nodup
      refine ⟨_, idle, current, kept, idling, running, ?_, ?_⟩
      · exact (List.Nodup.mem_erase_iff distinct).mpr
          ⟨fun same => notIdle (same ▸ idling), idleListed⟩
      · exact (List.Nodup.mem_erase_iff distinct).mpr
          ⟨fun same => notCurrent (same ▸ running), currentListed⟩
  | threadPoolFull => exact allowed.elim
  | threadNoStack => exact allowed.elim
  | thread => exact allowed.elim
  | exit => exact allowed.elim
  | deleteNothing => exact allowed.elim
  | delete => exact allowed.elim

theorem Anchored.not_protected_of_named {k k' : Kernel Slot} {c : Call} (h : Anchored k)
    (taken : Step k c k') (unspared : ¬ Spares k c) : ¬ Protected k' := by
  -- A kill that names idle or the current process leaves that block DEAD.
  obtain ⟨l, idle, current, consistent, idling, running, idleListed, currentListed⟩ := h
  obtain ⟨allowed, block, ran⟩ := taken
  simp only [Spares, not_forall] at unspared
  obtain ⟨victim, named, hit⟩ := unspared
  have outcome := (consistent.called ran).1
  obtain ⟨dead, sameIdle, sameCurrent⟩ := outcome.names_dead consistent.queue (named.withEsp c.esp)
  intro safe
  obtain ⟨i, isIdle, idleLive, _⟩ := safe.idleLive
  obtain ⟨r, isRunning, currentLive, _⟩ := safe.currentLive
  apply hit
  constructor
  · intro same
    have equal : i = victim := Option.some.inj (isIdle.symm.trans (sameIdle.trans same))
    exact idleLive (equal ▸ dead)
  · intro same
    have equal : r = victim := Option.some.inj (isRunning.symm.trans (sameCurrent.trans same))
    exact currentLive (equal ▸ dead)

theorem anchored_of_booted {pmm : Pmm} {esp idleTask : U32} {memory : U32 → U32} {k : Kernel Slot}
    (booted : (Kernel.bss pmm esp memory).schedulerInit idleTask = some k) : Anchored k := by
  obtain ⟨i, next, head, _, shape, consistent⟩ := Kernel.schedulerInit_spec booted
  exact ⟨_, .pcb i, .pcb i, consistent, by rw [shape]; rfl, by rw [shape]; rfl, by simp, by simp⟩

/--
In every run of process and shell calls after `scheduler_init`, idle and current
stay protected throughout exactly when no kill command names one of them.
-/
theorem always_protected_iff (pmm : Pmm) (esp idleTask : U32) (memory : U32 → U32) (k : Kernel Slot)
    (booted : (Kernel.bss pmm esp memory).schedulerInit idleTask = some k) (calls : List Call) :
    Transition.Always Step Protected k calls ↔ Transition.Meets Step Spares k calls :=
  Transition.always_iff_meets (fun _ h => h.protected)
    (fun _ _ _ h spares taken => h.step taken spares)
    (fun _ _ _ h unspared taken => h.not_protected_of_named taken unspared)
    (anchored_of_booted booted) calls

def newprocessKilled : List Call :=
  [⟨.newprocess 0x100200#32, 0x10FF00#32⟩, ⟨.killprocess [[], [50#8]], 0x10FF00#32⟩]

theorem newprocessKilled_spares :
    ∃ k, smallBoot = some k ∧ Transition.Meets Step Spares k newprocessKilled := by
  have evaluated : (smallBoot.bind fun k => (k.call ⟨.newprocess 0x100200#32, 0x10FF00#32⟩).map
      fun r => decide (r.2.Queue [.pcb 0, .pcb 1] ∧ r.2.idlePcb = some (.pcb 0) ∧
        r.2.currentPcb = some (.pcb 0) ∧ [Slot.pcb 0, .pcb 1].find? (fun p =>
          (r.2.block p).pid = Kernel.parseTarget [50#8] 0#32) = some (.pcb 1))) = some true := by
    decide +kernel
  obtain ⟨k, booted, created⟩ := Option.bind_eq_some_iff.mp evaluated
  obtain ⟨⟨block, made⟩, ran, values⟩ := Option.map_eq_some_iff.mp created
  obtain ⟨queue, idling, running, first⟩ := of_decide_eq_true values
  refine ⟨k, booted, fun t taken => ⟨fun b named => named.elim, fun u _ => ⟨?_, trivial⟩⟩⟩
  obtain ⟨-, block', again⟩ := taken
  obtain ⟨-, rfl⟩ := Prod.mk.inj (Option.some.inj (ran.symm.trans again))
  intro b named
  obtain ⟨_, _, _, ⟨⟩, found⟩ := named.killed queue
  obtain rfl := Option.some.inj (first.symm.trans found)
  rw [idling, running]
  exact ⟨by decide, by decide⟩

theorem always_protected_smallBoot :
    ∃ k, smallBoot = some k ∧ Transition.Meets Step Spares k newprocessKilled ∧
      Transition.Always Step Protected k newprocessKilled := by
  obtain ⟨k, booted, spares⟩ := newprocessKilled_spares
  exact ⟨k, booted, spares, (always_protected_iff _ _ _ _ k booted _).mpr spares⟩

/-- `killprocess 1` right after `scheduler_init` destroys idle, which is also current. -/
theorem not_always_protected_killprocess_one :
    ∃ k, smallBoot = some k ∧
      ¬ Transition.Always Step Protected k [⟨.killprocess [[], [49#8]], 0x10FF00#32⟩] := by
  have evaluated : (smallBoot.bind fun k =>
      (k.call ⟨.killprocess [[], [49#8]], 0x10FF00#32⟩).map fun r =>
        (r.2.idlePcb, r.2.idlePcb.map r.2.state)) =
      some (some (.pcb 0), some .dead) := by
    decide +kernel
  obtain ⟨k, booted, killed⟩ := Option.bind_eq_some_iff.mp evaluated
  obtain ⟨⟨block, k'⟩, result, values⟩ := Option.map_eq_some_iff.mp killed
  simp only [Prod.mk.injEq] at values
  refine ⟨k, booted, ?_⟩
  rintro ⟨_, later⟩
  obtain ⟨i, isIdle, idleLive, _⟩ := (later k' ⟨trivial, block, result⟩).here.idleLive
  rw [isIdle] at values
  exact idleLive (Option.some.inj values.2)

end SoraOS.Protection
