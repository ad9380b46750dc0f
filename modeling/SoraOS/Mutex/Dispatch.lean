import SoraOS.Mutex.WaitList

set_option autoImplicit false

namespace SoraOS.Dispatch

structure State (M : Type) where
  kernel : Kernel Slot
  mutex : M → Mutex Slot

inductive Action (M : Type) where
  | lock (m : M)
  | unlock (m : M)
  | call (op : Op)

structure Event (M : Type) where
  action : Action M
  esp : U32

variable {M : Type} [DecidableEq M]

/-- `none` when the call never returns; a lock is one turn of the loop in `mutex_lock`. -/
def step (s : State M) (e : Event M) : Option (State M) :=
  let k := { s.kernel with esp := e.esp }
  match e.action with
  | .lock m =>
      (k.lockAttempt (s.mutex m)).map fun r =>
        { kernel := r.2.1, mutex := Function.update s.mutex m r.2.2 }
  | .unlock m =>
      let r := k.mutexUnlock (s.mutex m)
      some { kernel := r.1, mutex := Function.update s.mutex m r.2 }
  | .call op => (k.perform op).map fun r => { s with kernel := r.2 }

/-- The kernel just before the step's call of `schedule()`, if it makes one. -/
def atSchedule (s : State M) (e : Event M) : Option (Kernel Slot) :=
  let k := { s.kernel with esp := e.esp }
  match e.action with
  | .lock m =>
      let (old, mutex) := (s.mutex m).testAndSet
      if old = 0#32 then none
      else
        match k.currentPcb with
        | some cur => some (k.blockOn mutex cur).1
        | none => some k
  | .call .schedule => some k
  | _ => none

def Reachable (s t : State M) : Prop :=
  Relation.ReflTransGen (fun s t => ∃ e, step s e = some t) s t

def booted (M : Type) (k : Kernel Slot) : State M := { kernel := k, mutex := fun _ => mutexInit }

theorem step_schedule {s t : State M} {e : Event M} {before : Kernel Slot}
    (scheduling : atSchedule s e = some before) (taken : step s e = some t) :
    before.schedule = some t.kernel := by
  obtain ⟨action, esp⟩ := e
  cases action with
  | lock m =>
      obtain ⟨⟨acquired, k', m'⟩, attempt, rfl⟩ := Option.map_eq_some_iff.mp taken
      simp only [atSchedule, Mutex.testAndSet] at scheduling
      by_cases free : (s.mutex m).lock = 0#32
      next => simp [free] at scheduling
      next =>
        simp only [Kernel.lockAttempt, Mutex.testAndSet, free, if_false] at attempt scheduling
        cases current : s.kernel.currentPcb <;>
          simp_all
  | unlock m => cases scheduling
  | call op =>
      cases op <;> try cases scheduling
      obtain ⟨⟨block, k'⟩, ran, rfl⟩ := Option.map_eq_some_iff.mp taken
      obtain ⟨k, result, same⟩ := Option.map_eq_some_iff.mp ran
      simp only [Prod.mk.injEq] at same
      rw [result, same.2]

def Sound (s : State M) : Prop := ∃ l, s.kernel.Consistent l

theorem mutexUnlock_consistent {k : Kernel Slot} {l : List Slot} (h : k.Consistent l)
    (m : Mutex Slot) : (k.mutexUnlock m).1.Consistent l := by
  unfold Kernel.mutexUnlock
  cases m.waiters with
  | none => exact h
  | some w =>
      refine ⟨?_, h.poolReady, h.current, h.idle⟩
      apply Kernel.Linked.setState _ w (by decide)
      exact h.toLinked.congr (by simp) rfl (by simp)

theorem Sound.step {s t : State M} (h : Sound s) {e : Event M}
    (taken : step s e = some t) : Sound t := by
  obtain ⟨l, consistent⟩ := h
  obtain ⟨action, esp⟩ := e
  have placed := consistent.withEsp esp
  cases action with
  | lock m =>
      obtain ⟨⟨acquired, k', m'⟩, attempt, rfl⟩ := Option.map_eq_some_iff.mp taken
      rcases WaitList.lockAttempt_cases placed attempt with ⟨_, rfl, _⟩ | ⟨_, _, _, _, _, _, _, kept⟩
      · exact ⟨l, placed⟩
      · exact ⟨l, kept⟩
  | unlock m =>
      obtain rfl := Option.some.inj taken
      exact ⟨l, mutexUnlock_consistent placed (s.mutex m)⟩
  | call op =>
      obtain ⟨⟨block, k'⟩, ran, rfl⟩ := Option.map_eq_some_iff.mp taken
      exact ⟨_, (placed.performed ran).2⟩

omit [DecidableEq M] in
theorem Sound.atSchedule {s : State M} (h : Sound s) {e : Event M} {before : Kernel Slot}
    (scheduling : atSchedule s e = some before) : ∃ l, before.Consistent l := by
  obtain ⟨l, consistent⟩ := h
  obtain ⟨action, esp⟩ := e
  have placed := consistent.withEsp esp
  cases action with
  | lock m =>
      simp only [Dispatch.atSchedule, Mutex.testAndSet] at scheduling
      obtain ⟨current, running⟩ := consistent.current
      by_cases free : (s.mutex m).lock = 0#32
      next => simp [free] at scheduling
      next =>
        have blocked := WaitList.blockOn_consistent
          (m := { s.mutex m with lock := 1#32 }) placed current
        simp only [running] at blocked
        simp only [free, if_false, running, Option.some.injEq] at scheduling
        exact ⟨l, scheduling ▸ blocked⟩
  | unlock m => cases scheduling
  | call op =>
      cases op <;> try cases scheduling
      exact ⟨l, placed⟩

theorem Sound.reachable {s t : State M} (h : Sound s) (reached : Reachable s t) : Sound t := by
  apply Transition.reachable_invariant _ h reached
  intro s t sound ⟨_, taken⟩
  exact sound.step taken

theorem dispatched_of_consistent {k k' : Kernel Slot} {l : List Slot} (h : k.Consistent l)
    (result : k.schedule = some k') {next : Slot} (now : k'.currentPcb = some next)
    (changed : k.currentPcb ≠ some next) :
    k.Listed next ∧ k.state next = .ready ∨
      k.idlePcb = some next ∧ ∀ b, k.Listed b → k.state b ≠ .ready := by
  obtain ⟨current, running⟩ := h.current
  obtain ⟨idle, idling⟩ := h.idle
  obtain ⟨k'', again, _, scheduled⟩ := h.schedule running idling
  obtain rfl : k'' = k' := Option.some.inj (again.symm.trans result)
  cases scheduled with
  | idles => exact absurd now changed
  | itself => exact absurd now changed
  | ready target different listed isReady =>
      obtain rfl : target = next := by simpa using now
      exact .inl ⟨(h.queue.listed target).mpr listed, isReady⟩
  | fallback different nobody =>
      obtain rfl : idle = next := by simpa using now
      exact .inr ⟨idling, fun b listed => nobody b ((h.queue.listed b).mp listed)⟩

/-- A thread holds the mutex and idle waits for it, RUNNING and BLOCKED, when the timer ticks. -/
def idleWaits : List (Event Unit) :=
  [⟨.call (.createThread none 0x100300#32), 0x10FF00#32⟩,
    ⟨.call .schedule, 0x10FF00#32⟩,
    ⟨.lock (), 0x201F00#32⟩,
    ⟨.call .schedule, 0x201F00#32⟩,
    ⟨.lock (), 0x10FF00#32⟩]

def tick : Event Unit := ⟨.call .schedule, 0x201F00#32⟩

theorem idleWaits_dispatched :
    ∃ k s t, smallBoot = some k ∧ Reachable (booted Unit k) s ∧ step s tick = some t ∧
      s.kernel.currentPcb = some (.tcb 0) ∧ s.kernel.state (.tcb 0) = .running ∧
      s.kernel.state (.pcb 0) = .blocked ∧ t.kernel.currentPcb = some (.pcb 0) := by
  have evaluated : (smallBoot.bind fun k => (idleWaits.foldlM step (booted Unit k)).bind fun s =>
      (step s tick).map fun t => decide (s.kernel.currentPcb = some (.tcb 0) ∧
        s.kernel.state (.tcb 0) = .running ∧ s.kernel.state (.pcb 0) = .blocked ∧
        t.kernel.currentPcb = some (.pcb 0))) = some true := by
    decide +kernel
  obtain ⟨k, initialized, afterBoot⟩ := Option.bind_eq_some_iff.mp evaluated
  obtain ⟨s, ran, last⟩ := Option.bind_eq_some_iff.mp afterBoot
  obtain ⟨t, taken, values⟩ := Option.map_eq_some_iff.mp last
  exact ⟨k, s, t, initialized, Transition.reachable_of_run ran, taken, of_decide_eq_true values⟩

end SoraOS.Dispatch
