import SoraOS.Mutex.Mutex
import SoraOS.Scheduler.ScheduleStatements

set_option autoImplicit false

namespace SoraOS

/-- Where a context is in `mutex.c`, with the locals that are live there. -/
inductive MutexPc (B : Type) where
  | outside
  | testAndSet
  | getCurrent
  | setBlocked (cur : B)
  | setWaitNext (tcb : B)
  | pushWaiter (tcb : B)
  | schedule (pc : SchedulePc B)
  | returning
  -- between the return of `mutex_lock` and the call of `mutex_unlock`
  | holding
  | storeLock
  | testWaiters
  | readWaiter
  | popWaiter (waiter : Option B)
  | clearWaitNext (waiter : Option B)
  | setReady (waiter : Option B)
  deriving DecidableEq

/-- Contexts sharing one mutex; a context is named by the block whose stack it runs on. -/
structure MutexMachine (B : Type) where
  kernel : Kernel B
  mutex : Mutex B
  pc : B → MutexPc B

namespace MutexMachine

variable {B : Type}

def start (k : Kernel B) : MutexMachine B :=
  { kernel := k, mutex := mutexInit, pc := fun _ => .outside }

variable [DecidableEq B]

def goto (m : MutexMachine B) (t : B) (pc : MutexPc B) : MutexMachine B :=
  { m with pc := Function.update m.pc t pc }

@[simp] theorem goto_kernel (m : MutexMachine B) (t : B) (pc : MutexPc B) :
    (m.goto t pc).kernel = m.kernel := rfl
@[simp] theorem goto_mutex (m : MutexMachine B) (t : B) (pc : MutexPc B) :
    (m.goto t pc).mutex = m.mutex := rfl
@[simp] theorem goto_pc (m : MutexMachine B) (t : B) (pc : MutexPc B) :
    (m.goto t pc).pc = Function.update m.pc t pc := rfl

-- After a return of `schedule()` the loop of `mutex_lock` tries again.
def inSchedule : Option (SchedulePc B) → MutexPc B
  | some pc => .schedule pc
  | none => .testAndSet

/--
One statement of context `t`. Outside and while holding, the step modelled is the call of
`mutex_lock` or `mutex_unlock`. A store through `NULL` hits no block.
-/
def statement (m : MutexMachine B) (t : B) : Option (MutexMachine B) :=
  match m.pc t with
  | .outside => some (m.goto t .testAndSet)
  | .testAndSet =>
      let (old, mutex) := m.mutex.testAndSet
      some ({ m with mutex := mutex }.goto t (if old = 0#32 then .returning else .getCurrent))
  | .getCurrent =>
      match m.kernel.currentPcb with
      | some cur => some (m.goto t (.setBlocked cur))
      | none => some (m.goto t (.schedule .testCurrent))
  | .setBlocked cur =>
      some ({ m with kernel := m.kernel.setState cur .blocked }.goto t (.setWaitNext cur))
  | .setWaitNext tcb =>
      some ({ m with kernel := m.kernel.setWaitNext tcb m.mutex.waiters }.goto t (.pushWaiter tcb))
  | .pushWaiter tcb =>
      some ({ m with mutex := { m.mutex with waiters := some tcb } }.goto t
        (.schedule .testCurrent))
  | .schedule pc => (m.kernel.scheduleStatement pc).map fun r =>
      { m with kernel := r.1 }.goto t (inSchedule r.2)
  | .returning => some (m.goto t .holding)
  | .holding => some (m.goto t .storeLock)
  | .storeLock => some ({ m with mutex := { m.mutex with lock := 0#32 } }.goto t .testWaiters)
  | .testWaiters => some (m.goto t (if m.mutex.waiters.isSome then .readWaiter else .outside))
  | .readWaiter => some (m.goto t (.popWaiter m.mutex.waiters))
  | .popWaiter waiter =>
      some ({ m with mutex := { m.mutex with waiters := m.kernel.loadWaitNext waiter } }.goto t
        (.clearWaitNext waiter))
  | .clearWaitNext waiter =>
      let k := match waiter with
        | some w => m.kernel.setWaitNext w none
        | none => m.kernel
      some ({ m with kernel := k }.goto t (.setReady waiter))
  | .setReady waiter =>
      let k := match waiter with
        | some w => m.kernel.setState w .ready
        | none => m.kernel
      some ({ m with kernel := k }.goto t .outside)

def statements (m : MutexMachine B) (t : B) : Nat → Option (MutexMachine B)
  | 0 => some m
  | n + 1 => (m.statement t).bind fun m => m.statements t n

theorem statements_add (m : MutexMachine B) (t : B) (i j : Nat) :
    m.statements t (i + j) = (m.statements t i).bind fun m => m.statements t j := by
  induction i generalizing m with
  | zero => simp [statements]
  | succ i ih =>
      rw [Nat.succ_add, statements, statements, Option.bind_assoc]
      simp only [ih]

theorem statements_scheduleRun {t : B} {s s' : Kernel B × Option (SchedulePc B)}
    (ran : Kernel.ScheduleRun s s') {m : MutexMachine B} (kernel : m.kernel = s.1)
    (at_ : m.pc t = inSchedule s.2) :
    ∃ n, m.statements t n = some ({ m with kernel := s'.1 }.goto t (inSchedule s'.2)) := by
  induction ran using Relation.ReflTransGen.head_induction_on generalizing m with
  | refl =>
      refine ⟨0, ?_⟩
      simp [statements, goto, ← at_, ← kernel]
  | head first _ ih =>
      obtain ⟨pc, inside, taken⟩ := first
      rename_i s s₁ _
      have moved : m.statement t = some ({ m with kernel := s₁.1 }.goto t (inSchedule s₁.2)) := by
        simp only [statement, at_, inside, inSchedule, kernel, taken, Option.map_some]
      obtain ⟨n, later⟩ := ih (m := { m with kernel := s₁.1 }.goto t (inSchedule s₁.2)) rfl
        (by simp)
      refine ⟨n + 1, ?_⟩
      rw [statements, moved, Option.bind_some, later]
      simp [goto]

theorem statements_schedule [Fintype B] {m : MutexMachine B} {t : B}
    (called : m.pc t = .schedule .testCurrent) {k : Kernel B} (scheduled : m.kernel.schedule = some k) :
    ∃ n, m.statements t n = some ({ m with kernel := k }.goto t .testAndSet) :=
  statements_scheduleRun (Kernel.schedule_run scheduled) rfl called

theorem statements_lockAttempt [Fintype B] (m : MutexMachine B) {t : B}
    (inLock : m.pc t = .testAndSet) {acquired : Bool} {k : Kernel B} {mutex : Mutex B}
    (attempt : m.kernel.lockAttempt m.mutex = some (acquired, k, mutex)) :
    ∃ n, m.statements t n = some
      { kernel := k
        mutex := mutex
        pc := Function.update m.pc t (if acquired then .returning else .testAndSet) } := by
  -- Uninterrupted, the statements of one turn of `mutex_lock`'s loop add up to `lockAttempt`.
  by_cases free : m.mutex.lock = 0#32
  · simp only [Kernel.lockAttempt, Mutex.testAndSet, free, if_true, Option.some.injEq,
      Prod.mk.injEq] at attempt
    obtain ⟨rfl, rfl, rfl⟩ := attempt
    exact ⟨1, by simp [statements, statement, inLock, Mutex.testAndSet, free, goto]⟩
  · simp only [Kernel.lockAttempt, Mutex.testAndSet, free, if_false, Option.map_eq_some_iff,
      Prod.mk.injEq] at attempt
    obtain ⟨k', scheduled, rfl, rfl, rfl⟩ := attempt
    obtain ⟨i, waits, called, inside, kernel, mutex, others⟩ : ∃ i waits,
        m.statements t i = some waits ∧ waits.pc t = .schedule .testCurrent ∧
        waits.kernel.schedule = some k' ∧
        waits.mutex = (match m.kernel.currentPcb with
          | some cur => m.kernel.blockOn { m.mutex with lock := 1#32 } cur
          | none => (m.kernel, { m.mutex with lock := 1#32 })).2 ∧
        waits.pc = Function.update m.pc t (.schedule .testCurrent) := by
      cases running : m.kernel.currentPcb with
      | none =>
          simp only [running] at scheduled
          refine ⟨2, { m with mutex := { m.mutex with lock := 1#32 } }.goto t
            (.schedule .testCurrent), ?_, by simp, scheduled, rfl, rfl⟩
          simp [statements, statement, inLock, Mutex.testAndSet, free, goto, running]
      | some cur =>
          simp only [running] at scheduled
          refine ⟨5, { m with
            kernel := (m.kernel.blockOn { m.mutex with lock := 1#32 } cur).1
            mutex := (m.kernel.blockOn { m.mutex with lock := 1#32 } cur).2 }.goto t
              (.schedule .testCurrent), ?_, by simp, scheduled, rfl, rfl⟩
          simp [statements, statement, inLock, Mutex.testAndSet, free, goto, running,
            Kernel.blockOn]
    obtain ⟨n, rest⟩ := statements_schedule inside kernel
    refine ⟨i + n, ?_⟩
    rw [statements_add, called, Option.bind_some, rest]
    cases running : m.kernel.currentPcb with
    | none => simp [goto, others, mutex, running]
    | some cur => simp [goto, others, mutex, running]

theorem statements_mutexUnlock (m : MutexMachine B) {t : B} (unlocking : m.pc t = .storeLock) :
    ∃ n, m.statements t n = some
      { kernel := (m.kernel.mutexUnlock m.mutex).1
        mutex := (m.kernel.mutexUnlock m.mutex).2
        pc := Function.update m.pc t .outside } := by
  cases waiting : m.mutex.waiters with
  | none =>
      refine ⟨2, ?_⟩
      simp [statements, statement, unlocking, waiting, goto, Kernel.mutexUnlock]
  | some w =>
      refine ⟨6, ?_⟩
      simp [statements, statement, unlocking, waiting, goto, Kernel.mutexUnlock,
        Kernel.loadWaitNext]

end MutexMachine

end SoraOS
