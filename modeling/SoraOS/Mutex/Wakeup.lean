import SoraOS.Mutex.Exclusion
import SoraOS.Scheduler.Linked

set_option autoImplicit false

namespace SoraOS.Wakeup

variable {B : Type}

def InLock : MutexPc B → Prop
  | .testAndSet | .getCurrent | .setBlocked _ | .setWaitNext _ | .pushWaiter _ | .schedule _
  | .returning => True
  | _ => False

def InUnlock : MutexPc B → Prop
  | .storeLock | .testWaiters | .readWaiter | .popWaiter _ | .clearWaitNext _ | .setReady _ => True
  | _ => False

/-- The XCHG failed and the context is not on the wait list yet. -/
def Missed : MutexPc B → Prop
  | .getCurrent | .setBlocked _ | .setWaitNext _ | .pushWaiter _ => True
  | _ => False

instance : DecidablePred (@Missed B)
  | .getCurrent | .setBlocked _ | .setWaitNext _ | .pushWaiter _ => isTrue trivial
  | .outside | .testAndSet | .schedule _ | .returning | .holding | .storeLock | .testWaiters
  | .readWaiter | .popWaiter _ | .clearWaitNext _ | .setReady _ => isFalse id

/-- Marked BLOCKED and not on the wait list yet. -/
def Exposed : MutexPc B → Prop
  | .setWaitNext _ | .pushWaiter _ => True
  | _ => False

instance : DecidablePred (@Exposed B)
  | .setWaitNext _ | .pushWaiter _ => isTrue trivial
  | .outside | .testAndSet | .getCurrent | .setBlocked _ | .schedule _ | .returning | .holding
  | .storeLock | .testWaiters | .readWaiter | .popWaiter _ | .clearWaitNext _ | .setReady _ =>
      isFalse id

def Waking : MutexPc B → Prop
  | .testWaiters | .readWaiter | .popWaiter _ | .clearWaitNext _ | .setReady _ => True
  | _ => False

def Scheduling : MutexPc B → Prop
  | .schedule _ => True
  | _ => False

/-- `next` is RUNNING and the CPU is not switched to it yet. -/
def switchingTo : MutexPc B → Option B
  | .schedule (.setCurrent _ next) | .schedule (.contextSwitch _ next) => some next
  | _ => none

def Retrying : MutexPc B → Prop
  | .testAndSet | .schedule _ => True
  | _ => False

def popped : MutexPc B → Option B
  | .clearWaitNext waiter | .setReady waiter => waiter
  | _ => none

/-- Statements at which no block is half-way onto the list or off it. -/
def Plain : MutexPc B → Prop
  | .outside | .testAndSet | .getCurrent | .returning | .holding | .storeLock | .testWaiters
  | .readWaiter | .popWaiter _ => True
  | _ => False

def blocking : MutexPc B → Option B
  | .setBlocked cur => some cur
  | .setWaitNext tcb | .pushWaiter tcb => some tcb
  | _ => none

/-- What `current_pcb` is while context `b` has the CPU. -/
def currentOf (b : B) : MutexPc B → B
  | .schedule (.contextSwitch _ next) => next
  | _ => b

def Runnable (k : Kernel B) (b : B) : Prop := k.state b = .ready ∨ k.state b = .running

/-- With the lock free, a thread blocked in `mutex_lock` has somebody left to wake it. -/
def NoLostWakeup (m : MutexMachine B) : Prop :=
  m.mutex.lock = 0#32 → (∃ b, InLock (m.pc b) ∧ m.kernel.state b = .blocked) →
    ∃ t, Exclusion.Owns (m.pc t) ∨ InUnlock (m.pc t) ∨ InLock (m.pc t) ∧ Runnable m.kernel t

/-- What context `b` knows in `schedule()` of the block that it has picked. -/
def Picks (k : Kernel B) (l : List B) (b : B) : SchedulePc B → Prop
  | .testReady _ next | .testFound next => ∀ n ∈ next, n ∈ l
  | .advance _ next => next ∈ l
  | .testSame next => next ∈ l ∧ (next = b → k.state b ≠ .blocked)
  | .loadOld next => next ∈ l ∧ next ≠ b
  | .testRunning old next | .setRunning old next => old = b ∧ next ∈ l ∧ next ≠ b
  | .setReady old next => old = b ∧ next ∈ l ∧ next ≠ b ∧ k.state b ≠ .blocked
  | .setCurrent old next | .contextSwitch old next =>
      old = b ∧ next ∈ l ∧ next ≠ b ∧ k.state next = .running ∧ k.state b ≠ .running
  | .testCurrent | .loadNext | .loadHead | .wrap _ | .testIdle | .loadIdle => True

def Asleep (m : MutexMachine B) (r b : B) : Prop :=
  m.kernel.state b = .blocked ∧ (Scheduling (m.pc b) ∨ m.pc b = .testAndSet ∧ b ≠ r)

/--
Context `r` has the CPU, and every thread blocked in `mutex_lock` is about to push itself, on the
list, or just popped.
-/
structure Parked (m : MutexMachine B) (r : B) (l ws : List B) : Prop where
  linked : m.kernel.Linked l
  idle : ∃ i ∈ l, m.kernel.idlePcb = some i ∧ m.pc i = .outside ∧ m.kernel.state i ≠ .blocked
  listed : r ∈ l
  current : m.kernel.currentPcb = some (currentOf r (m.pc r))
  alone : ∀ b, m.kernel.state b = .running → b = r ∨ switchingTo (m.pc r) = some b
  runs : m.kernel.state r = .blocked → Exposed (m.pc r) ∨ Scheduling (m.pc r)
  reads : PointerList.Reads m.kernel.waitLinks m.mutex.waiters ws
  self : ∀ b c, blocking (m.pc b) = some c → c = b
  exposed : ∀ b, Exposed (m.pc b) → m.kernel.state b = .blocked ∧ b = r
  switching : ∀ b, switchingTo (m.pc b) ≠ none → b = r
  picks : ∀ b pc, m.pc b = .schedule pc → Picks m.kernel l b pc
  pushing : ∀ b c, m.pc b = .pushWaiter c → m.kernel.waitLinks b = m.mutex.waiters
  waiting : ∀ b ∈ ws, Asleep m r b
  taken : ∀ t w, popped (m.pc t) = some w → Asleep m r w ∧ w ∉ ws
  distinct : ∀ t u w, popped (m.pc t) = some w → popped (m.pc u) = some w → t = u
  found : ∀ b, m.pc b ≠ .outside → m.kernel.state b = .blocked →
    Exposed (m.pc b) ∨ b ∈ ws ∨ ∃ t, popped (m.pc t) = some b
  real : ∀ t, m.pc t ≠ .clearWaitNext none ∧ m.pc t ≠ .setReady none

def Alert (m : MutexMachine B) : Prop :=
  m.mutex.lock = 1#32 ∨ (∃ t, Waking (m.pc t)) ∨ ∃ t, Retrying (m.pc t) ∧ Runnable m.kernel t

def Watched (m : MutexMachine B) (ws : List B) : Prop :=
  (ws ≠ [] ∨ ∃ b, Missed (m.pc b)) → Alert m

section Statements

variable [DecidableEq B] {m : MutexMachine B} {r : B} {l ws : List B}

omit [DecidableEq B] in
theorem Parked.runner (h : Parked m r l ws) (working : ¬ Scheduling (m.pc r)) :
    r ∉ ws ∧ ∀ u, popped (m.pc u) ≠ some r := by
  -- The context with the CPU is neither on the list nor popped, but for its `schedule()`.
  have notAsleep : ¬ Asleep m r r := by
    rintro ⟨_, scheduling | ⟨_, other⟩⟩
    · exact working scheduling
    · exact other rfl
  exact ⟨fun member => notAsleep (h.waiting r member), fun u took => notAsleep (h.taken u r took).1⟩

omit [DecidableEq B] in
theorem Parked.runnable (h : Parked m r l ws) (hidden : ¬ Exposed (m.pc r))
    (working : ¬ Scheduling (m.pc r)) : Runnable m.kernel r := by
  have live := h.linked.live r h.listed
  have notBlocked : m.kernel.state r ≠ .blocked := fun blocked =>
    (h.runs blocked).elim hidden working
  unfold Runnable
  cases held : m.kernel.state r <;> simp_all

omit [DecidableEq B] in
theorem Parked.notIdle (h : Parked m r l ws) {t : B} (inside : m.pc t ≠ .outside) :
    m.kernel.idlePcb ≠ some t := by
  obtain ⟨i, -, isIdle, outside, -⟩ := h.idle
  intro same
  obtain rfl := Option.some.inj (isIdle.symm.trans same)
  exact inside outside

/-- A statement of another context leaves idle where it is. -/
theorem Parked.idle_goto (h : Parked m r l ws) (pc : MutexPc B)
    (notIdle : m.kernel.idlePcb ≠ some r) {k : Kernel B} (idlePcb : k.idlePcb = m.kernel.idlePcb)
    (awake : ∀ b, b ≠ r → m.kernel.state b ≠ .blocked → k.state b ≠ .blocked) :
    ∃ i ∈ l, k.idlePcb = some i ∧ (m.goto r pc).pc i = .outside ∧ k.state i ≠ .blocked := by
  obtain ⟨i, listed, isIdle, outside, notBlocked⟩ := h.idle
  have other : i ≠ r := by
    rintro rfl
    exact notIdle isIdle
  exact ⟨i, listed, idlePcb.trans isIdle, by simp [other, outside], awake i other notBlocked⟩

theorem Parked.picks_goto (h : Parked m r l ws) {pc : MutexPc B} {k : Kernel B}
    (awake : ∀ b, b ≠ r → m.kernel.state b ≠ .blocked → k.state b ≠ .blocked)
    (own : ∀ place, pc = .schedule place → Picks k l r place) (b : B) (place : SchedulePc B)
    (at_ : (m.goto r pc).pc b = .schedule place) : Picks k l b place := by
  by_cases same : b = r
  next =>
    subst same
    exact own place (by simpa using at_)
  next =>
    rw [MutexMachine.goto_pc, Function.update_of_ne same] at at_
    have before := h.picks b place at_
    have steady : switchingTo (.schedule place) = none := by
      by_contra switches
      exact same (h.switching b (by rwa [at_]))
    cases place with
    | testSame next => exact ⟨before.1, fun itself => awake b same (before.2 itself)⟩
    | setReady old next => exact ⟨before.1, before.2.1, before.2.2.1, awake b same before.2.2.2⟩
    | setCurrent old next => cases steady
    | contextSwitch old next => cases steady
    | _ => exact before

theorem setState_awake {k : Kernel B} (p : B) {s : ProcessState} (awake : s ≠ .blocked) (b : B)
    (before : k.state b ≠ .blocked) : (k.setState p s).state b ≠ .blocked := by
  rw [Kernel.setState_state, Function.update_apply]
  split
  next => exact awake
  next => exact before

theorem Parked.move (h : Parked m r l ws) {pc : MutexPc B} (notIdle : m.kernel.idlePcb ≠ some r)
    (plain : Plain (m.pc r)) (target : Plain pc ∨ pc = .setBlocked r) (lock : U32) :
    Parked ({ m with mutex := { m.mutex with lock := lock } }.goto r pc) r l ws := by
  have working : ¬ Scheduling (m.pc r) := by
    intro isScheduling
    cases here : m.pc r <;> simp_all [Scheduling, Plain]
  have hidden : ¬ Exposed (m.pc r) := by
    intro isExposed
    cases here : m.pc r <;> simp_all [Exposed, Plain]
  have empty : popped (m.pc r) = none := by
    cases here : m.pc r <;> simp_all [popped, Plain]
  have steady : switchingTo (m.pc r) = none := by
    cases here : m.pc r <;> simp_all [switchingTo, Plain]
  have at_ : currentOf r (m.pc r) = r := by
    cases here : m.pc r <;> simp_all [currentOf, Plain]
  have stays : ¬ Exposed pc := by
    intro isExposed
    cases pc <;> simp_all [Exposed, Plain]
  have nothing : popped pc = none := by
    cases pc <;> simp_all [popped, Plain]
  have leaves : ∀ place, pc ≠ .schedule place := by
    rintro place rfl
    simp [Plain] at target
  have remains : switchingTo pc = none ∧ currentOf r pc = r := by
    cases pc <;> simp_all [switchingTo, currentOf]
  have own (c : B) (owned : blocking pc = some c) : c = r := by
    cases pc <;> simp_all [blocking, Plain]
  have nonNull : pc ≠ .clearWaitNext none ∧ pc ≠ .setReady none := by
    cases pc <;> simp_all [Plain]
  obtain ⟨unlisted, untaken⟩ := h.runner working
  have awake := h.runnable hidden working
  constructor
  case idle => exact h.idle_goto pc notIdle rfl fun _ _ => id
  case picks => exact h.picks_goto (fun _ _ => id) fun place inside => absurd inside (leaves place)
  all_goals
    obtain ⟨linked, -, listed, current, alone, runs, reads, self, exposed, switching, -, pushing,
      waiting, taken, distinct, found, real⟩ := h
    simp only [MutexMachine.goto, Function.update_apply, Asleep, Runnable] at *
    grind [Exposed, popped, blocking]

theorem Parked.setBlocked (h : Parked m r l ws) (here : m.pc r = .setBlocked r) :
    Parked ({ m with kernel := m.kernel.setState r .blocked }.goto r (.setWaitNext r)) r l ws := by
  -- `cur->state = PROCESS_BLOCKED`
  have others (b : B) (other : b ≠ r) (awake : m.kernel.state b ≠ .blocked) :
      (m.kernel.setState r .blocked).state b ≠ .blocked := by
    simpa [Kernel.setState_state, other] using awake
  obtain ⟨unlisted, untaken⟩ := h.runner (by simp [here, Scheduling])
  constructor
  case linked => exact h.linked.setState r (by decide)
  case idle => exact h.idle_goto _ (h.notIdle (by simp [here])) rfl others
  case picks => exact h.picks_goto others nofun
  all_goals
    obtain ⟨linked, -, listed, current, alone, runs, reads, self, exposed, switching, -, pushing,
      waiting, taken, distinct, found, real⟩ := h
    simp only [MutexMachine.goto, Kernel.setState_currentPcb, Kernel.setState_state,
      Kernel.setState_waitLinks, Function.update_apply, Asleep] at *
    grind [Exposed, popped, blocking, switchingTo, currentOf]

theorem Parked.setWaitNext (h : Parked m r l ws) (here : m.pc r = .setWaitNext r) :
    Parked ({ m with kernel := m.kernel.setWaitNext r m.mutex.waiters }.goto r (.pushWaiter r)) r l
      ws := by
  -- `tcb->wait_next = m->waiters`
  obtain ⟨unlisted, untaken⟩ := h.runner (by simp [here, Scheduling])
  constructor
  case linked => exact h.linked.congr (by simp) rfl (by simp)
  case idle => exact h.idle_goto _ (h.notIdle (by simp [here])) rfl (by simp)
  case reads => simpa using h.reads.update_outside unlisted m.mutex.waiters
  case picks => exact h.picks_goto (by simp) nofun
  all_goals
    obtain ⟨linked, -, listed, current, alone, runs, reads, self, exposed, switching, -, pushing,
      waiting, taken, distinct, found, real⟩ := h
    simp only [MutexMachine.goto, Kernel.setWaitNext_currentPcb, Kernel.setWaitNext_state,
      Kernel.setWaitNext_waitLinks, Function.update_apply, Asleep] at *
    grind [Exposed, popped, blocking, switchingTo, currentOf]

theorem Parked.pushWaiter (h : Parked m r l ws) (here : m.pc r = .pushWaiter r) :
    Parked ({ m with mutex := { m.mutex with waiters := some r } }.goto r
      (.schedule .testCurrent)) r l (r :: ws) := by
  -- `m->waiters = tcb`
  obtain ⟨unlisted, untaken⟩ := h.runner (by simp [here, Scheduling])
  have link := h.pushing r r here
  constructor
  case idle => exact h.idle_goto _ (h.notIdle (by simp [here])) rfl fun _ _ => id
  case reads => exact ⟨rfl, by simpa [link] using h.reads⟩
  case picks =>
    refine h.picks_goto (fun _ _ => id) ?_
    rintro _ ⟨⟩
    exact trivial
  all_goals
    obtain ⟨linked, -, listed, current, alone, runs, reads, self, exposed, switching, -, pushing,
      waiting, taken, distinct, found, real⟩ := h
    simp only [MutexMachine.goto, Function.update_apply, Asleep] at *
    grind [Exposed, popped, blocking, switchingTo, currentOf, Scheduling]

theorem Parked.popWaiter {w : B} (h : Parked m r l (w :: ws)) (here : m.pc r = .popWaiter (some w)) :
    Parked ({ m with mutex := { m.mutex with waiters := m.kernel.waitLinks w } }.goto r
      (.clearWaitNext (some w))) r l ws := by
  -- `m->waiters = waiter->wait_next`, when `waiter` is still the head
  obtain ⟨unlisted, untaken⟩ := h.runner (by simp [here, Scheduling])
  have awake := h.runnable (by simp [here, Exposed]) (by simp [here, Scheduling])
  have nodup := List.nodup_cons.mp h.reads.nodup
  constructor
  case idle => exact h.idle_goto _ (h.notIdle (by simp [here])) rfl fun _ _ => id
  case reads => exact h.reads.2
  case picks => exact h.picks_goto (fun _ _ => id) nofun
  all_goals
    obtain ⟨linked, -, listed, current, alone, runs, reads, self, exposed, switching, -, pushing,
      waiting, taken, distinct, found, real⟩ := h
    simp only [MutexMachine.goto, Function.update_apply, Asleep, Runnable] at *
    grind [Exposed, popped, blocking, switchingTo, currentOf]

theorem Parked.clearWaitNext (h : Parked m r l ws) {w : B} (here : m.pc r = .clearWaitNext (some w)) :
    Parked ({ m with kernel := m.kernel.setWaitNext w none }.goto r (.setReady (some w))) r l
      ws := by
  -- `waiter->wait_next = NULL`
  obtain ⟨unlisted, untaken⟩ := h.runner (by simp [here, Scheduling])
  have awake := h.runnable (by simp [here, Exposed]) (by simp [here, Scheduling])
  obtain ⟨asleep, off⟩ := h.taken r w (by simp [here, popped])
  constructor
  case linked => exact h.linked.congr (by simp) rfl (by simp)
  case idle => exact h.idle_goto _ (h.notIdle (by simp [here])) rfl (by simp)
  case reads => simpa using h.reads.update_outside off none
  case picks => exact h.picks_goto (by simp) nofun
  all_goals
    obtain ⟨linked, -, listed, current, alone, runs, reads, self, exposed, switching, -, pushing,
      waiting, taken, distinct, found, real⟩ := h
    simp only [MutexMachine.goto, Kernel.setWaitNext_currentPcb, Kernel.setWaitNext_state,
      Kernel.setWaitNext_waitLinks, Function.update_apply, Asleep, Runnable] at *
    grind [Exposed, popped, blocking, switchingTo, currentOf]

theorem Parked.setReady (h : Parked m r l ws) {w : B} (here : m.pc r = .setReady (some w)) :
    Parked ({ m with kernel := m.kernel.setState w .ready }.goto r .outside) r l ws := by
  -- `waiter->base.state = PROCESS_READY`
  obtain ⟨unlisted, untaken⟩ := h.runner (by simp [here, Scheduling])
  have awake := h.runnable (by simp [here, Exposed]) (by simp [here, Scheduling])
  obtain ⟨asleep, off⟩ := h.taken r w (by simp [here, popped])
  constructor
  case linked => exact h.linked.setState w (by decide)
  case idle =>
    exact h.idle_goto _ (h.notIdle (by simp [here])) rfl fun b _ => setState_awake w (by decide) b
  case picks => exact h.picks_goto (fun b _ => setState_awake w (by decide) b) nofun
  all_goals
    obtain ⟨linked, -, listed, current, alone, runs, reads, self, exposed, switching, -, pushing,
      waiting, taken, distinct, found, real⟩ := h
    simp only [MutexMachine.goto, Kernel.setState_currentPcb, Kernel.setState_state,
      Kernel.setState_waitLinks, Function.update_apply, Asleep, Runnable] at *
    grind [Exposed, popped, blocking, switchingTo, currentOf]

theorem Parked.walk (h : Parked m r l ws) {place next : SchedulePc B}
    (here : m.pc r = .schedule place) (before : switchingTo (.schedule place) = none)
    (after : switchingTo (.schedule next) = none) (fits : Picks m.kernel l r next) :
    Parked (m.goto r (.schedule next)) r l ws := by
  have at_ : currentOf r (m.pc r) = r ∧ currentOf r (.schedule next) = r := by
    rw [here]
    constructor
    next => cases place <;> simp_all [switchingTo, currentOf]
    next => cases next <;> simp_all [switchingTo, currentOf]
  constructor
  case idle => exact h.idle_goto _ (h.notIdle (by simp [here])) rfl fun _ _ => id
  case picks =>
    refine h.picks_goto (fun _ _ => id) ?_
    rintro _ ⟨⟩
    exact fits
  all_goals
    obtain ⟨linked, -, listed, current, alone, runs, reads, self, exposed, switching, -, pushing,
      waiting, taken, distinct, found, real⟩ := h
    simp only [MutexMachine.goto, Function.update_apply, Asleep] at *
    grind [Exposed, popped, blocking, Scheduling]

theorem Parked.returns (h : Parked m r l ws) {place : SchedulePc B}
    (here : m.pc r = .schedule place) (before : switchingTo (.schedule place) = none)
    (awake : m.kernel.state r ≠ .blocked) : Parked (m.goto r .testAndSet) r l ws := by
  have at_ : currentOf r (m.pc r) = r := by
    rw [here]
    cases place <;> simp_all [switchingTo, currentOf]
  constructor
  case idle => exact h.idle_goto _ (h.notIdle (by simp [here])) rfl fun _ _ => id
  case picks => exact h.picks_goto (fun _ _ => id) nofun
  all_goals
    obtain ⟨linked, -, listed, current, alone, runs, reads, self, exposed, switching, -, pushing,
      waiting, taken, distinct, found, real⟩ := h
    simp only [MutexMachine.goto, Function.update_apply, Asleep] at *
    grind [Exposed, popped, blocking, Scheduling, switchingTo, currentOf]

theorem Parked.ageOld (h : Parked m r l ws) {next : B}
    (here : m.pc r = .schedule (.setReady r next)) :
    Parked ({ m with kernel := m.kernel.setState r .ready }.goto r (.schedule (.setRunning r next))) r
      l ws := by
  -- `if (old->state == PROCESS_RUNNING) old->state = PROCESS_READY;`
  have fits := h.picks r _ here
  constructor
  case linked => exact h.linked.setState r (by decide)
  case idle =>
    exact h.idle_goto _ (h.notIdle (by simp [here])) rfl fun b _ => setState_awake r (by decide) b
  case picks =>
    refine h.picks_goto (fun b _ => setState_awake r (by decide) b) ?_
    rintro _ ⟨⟩
    exact ⟨rfl, fits.2.1, fits.2.2.1⟩
  all_goals
    obtain ⟨linked, -, listed, current, alone, runs, reads, self, exposed, switching, -, pushing,
      waiting, taken, distinct, found, real⟩ := h
    simp only [Picks] at fits
    simp only [MutexMachine.goto, Kernel.setState_currentPcb, Kernel.setState_state,
      Kernel.setState_waitLinks, Function.update_apply, Asleep] at *
    grind [Exposed, popped, blocking, Scheduling, switchingTo, currentOf]

theorem Parked.setRunning (h : Parked m r l ws) {next : B}
    (here : m.pc r = .schedule (.setRunning r next)) (awake : m.kernel.state next ≠ .blocked)
    (aged : m.kernel.state r ≠ .running) :
    Parked ({ m with kernel := m.kernel.setState next .running }.goto r
      (.schedule (.setCurrent r next))) r l ws := by
  -- `next->state = PROCESS_RUNNING`, where the choice still holds
  obtain ⟨-, nextListed, different⟩ := h.picks r _ here
  constructor
  case linked => exact h.linked.setState next (by decide)
  case idle =>
    exact h.idle_goto _ (h.notIdle (by simp [here])) rfl fun b _ => setState_awake next (by decide) b
  case picks =>
    refine h.picks_goto (fun b _ => setState_awake next (by decide) b) ?_
    rintro _ ⟨⟩
    exact ⟨rfl, nextListed, different, by simp [Kernel.setState_state],
      by simp [Kernel.setState_state, Ne.symm different, aged]⟩
  all_goals
    obtain ⟨linked, -, listed, current, alone, runs, reads, self, exposed, switching, -, pushing,
      waiting, taken, distinct, found, real⟩ := h
    simp only [MutexMachine.goto, Kernel.setState_currentPcb, Kernel.setState_state,
      Kernel.setState_waitLinks, Function.update_apply, Asleep] at *
    grind [Exposed, popped, blocking, Scheduling, switchingTo, currentOf]

theorem Parked.setCurrent (h : Parked m r l ws) {next : B}
    (here : m.pc r = .schedule (.setCurrent r next)) :
    Parked ({ m with kernel := { m.kernel with currentPcb := some next } }.goto r
      (.schedule (.contextSwitch r next))) r l ws := by
  -- `current_pcb = next`
  have fits := h.picks r _ here
  have states : ({ m.kernel with currentPcb := some next } : Kernel B).state = m.kernel.state := rfl
  have waits : ({ m.kernel with currentPcb := some next } : Kernel B).waitLinks =
      m.kernel.waitLinks := rfl
  constructor
  case linked => exact h.linked.congr rfl rfl fun _ _ => id
  case idle => exact h.idle_goto _ (h.notIdle (by simp [here])) rfl fun _ _ => id
  case picks =>
    refine h.picks_goto (fun _ _ => id) ?_
    rintro _ ⟨⟩
    exact fits
  all_goals
    obtain ⟨linked, -, listed, current, alone, runs, reads, self, exposed, switching, -, pushing,
      waiting, taken, distinct, found, real⟩ := h
    simp only [MutexMachine.goto, states, waits, Function.update_apply, Asleep] at *
    grind [Exposed, popped, blocking, Scheduling, switchingTo, currentOf]

theorem Parked.contextSwitch (h : Parked m r l ws) {next : B}
    (here : m.pc r = .schedule (.contextSwitch r next)) :
    Parked ({ m with kernel := m.kernel.contextSwitch r next }.goto r .testAndSet) next l ws := by
  -- `next` has the CPU; `r` goes on with another turn when it is resumed.
  obtain ⟨-, nextListed, different, isRunning, aged⟩ := h.picks r _ here
  have steady : switchingTo (m.pc next) = none := by
    by_contra switches
    exact different (h.switching next switches)
  have at_ : currentOf next (m.pc next) = next := by
    cases place : m.pc next with
    | schedule pc =>
        rw [place] at steady
        cases pc <;> simp_all [switchingTo, currentOf]
    | _ => rfl
  constructor
  case linked => exact h.linked.congr (by simp) rfl (by simp)
  case idle => exact h.idle_goto _ (h.notIdle (by simp [here])) (by simp) (by simp)
  case picks => exact h.picks_goto (by simp) nofun
  all_goals
    obtain ⟨linked, -, listed, current, alone, runs, reads, self, exposed, switching, -, pushing,
      waiting, taken, distinct, found, real⟩ := h
    simp only [MutexMachine.goto, Kernel.contextSwitch_currentPcb, Kernel.contextSwitch_state,
      Kernel.contextSwitch_waitLinks, Function.update_apply, Asleep] at *
    grind [Exposed, popped, blocking, Scheduling, switchingTo, currentOf]

/-- What `schedule()` has picked still stands when it is marked: READY or idle, and `old` aged. -/
def StillPicked (k : Kernel B) : SchedulePc B → Prop
  | .setRunning old next =>
      (k.state next = .ready ∨ k.idlePcb = some next) ∧ k.state old ≠ .running
  | _ => True

instance (k : Kernel B) : DecidablePred (StillPicked k)
  | .setRunning old next => inferInstanceAs
      (Decidable ((k.state next = .ready ∨ k.idlePcb = some next) ∧ k.state old ≠ .running))
  | .testCurrent | .loadNext | .loadHead | .testReady _ _ | .advance _ _ | .wrap _ | .testFound _
  | .testIdle | .loadIdle | .testSame _ | .loadOld _ | .testRunning _ _ | .setReady _ _
  | .setCurrent _ _ | .contextSwitch _ _ => isTrue trivial

def runnerAfter (b : B) : MutexPc B → B
  | .schedule (.contextSwitch _ next) => next
  | _ => b

theorem Parked.scheduleStatement (h : Parked m r l ws) {place : SchedulePc B}
    (here : m.pc r = .schedule place) (still : StillPicked m.kernel place) {k : Kernel B}
    {next : Option (SchedulePc B)} (ran : m.kernel.scheduleStatement place = some (k, next)) :
    Parked ({ m with kernel := k }.goto r (MutexMachine.inSchedule next))
      (runnerAfter r (.schedule place)) l ws := by
  obtain ⟨i, idleListed, isIdle, -, idleAwake⟩ := h.idle
  have notIdle := h.notIdle (t := r) (by simp [here])
  have fits := h.picks r place here
  have current := h.current
  rw [here] at current
  -- A round of the loop ends at a listed block or at none.
  have round (start following : Option B) (listed : ∀ n ∈ following, n ∈ l)
      (steady : switchingTo (.schedule place) = none) :
      Parked (m.goto r (.schedule (Kernel.roundLoop start following))) r l ws := by
    rw [Kernel.roundLoop]
    split
    next => exact h.walk here steady rfl (by simp [Picks])
    next => exact h.walk here steady rfl listed
  cases place with
  | testCurrent =>
      simp only [Kernel.scheduleStatement, current, Option.map_some, Option.some.injEq,
        Prod.mk.injEq] at ran
      obtain ⟨rfl, rfl⟩ := ran
      exact h.walk here rfl rfl trivial
  | loadNext =>
      simp only [Kernel.scheduleStatement, current, Option.map_some, Option.some.injEq,
        Prod.mk.injEq] at ran
      obtain ⟨rfl, rfl⟩ := ran
      cases link : m.kernel.links (currentOf r (.schedule .loadNext)) with
      | none => exact h.walk here rfl rfl trivial
      | some following =>
          refine h.walk here rfl rfl ?_
          rintro _ ⟨⟩
          exact h.linked.queue.next_mem h.listed link
  | loadHead =>
      obtain ⟨rfl, rfl⟩ : m.kernel = k ∧ _ = next := by simpa [Kernel.scheduleStatement] using ran
      refine h.walk here rfl rfl ?_
      intro n isHead
      rw [h.linked.queue.head_eq] at isHead
      exact List.mem_of_mem_head? isHead
  | testReady start found =>
      cases found with
      | none =>
          obtain ⟨rfl, rfl⟩ : m.kernel = k ∧ _ = next := by simpa [Kernel.scheduleStatement] using ran
          exact h.walk here rfl rfl (by simp [Picks])
      | some n =>
          have listed : n ∈ l := fits n rfl
          obtain ⟨rfl, rfl⟩ : m.kernel = k ∧ _ = next := by simpa [Kernel.scheduleStatement] using ran
          split
          next => exact h.walk here rfl rfl fits
          next => exact h.walk here rfl rfl listed
  | advance start n =>
      obtain ⟨rfl, rfl⟩ : m.kernel = k ∧ _ = next := by simpa [Kernel.scheduleStatement] using ran
      cases link : m.kernel.links n with
      | none => exact h.walk here rfl rfl trivial
      | some following =>
          refine round start (some following) ?_ rfl
          rintro _ ⟨⟩
          exact h.linked.queue.next_mem fits link
  | wrap start =>
      obtain ⟨rfl, rfl⟩ : m.kernel = k ∧ _ = next := by simpa [Kernel.scheduleStatement] using ran
      refine round start m.kernel.runQueue ?_ rfl
      intro n isHead
      rw [h.linked.queue.head_eq] at isHead
      exact List.mem_of_mem_head? isHead
  | testFound found =>
      cases found with
      | none =>
          obtain ⟨rfl, rfl⟩ : m.kernel = k ∧ _ = next := by simpa [Kernel.scheduleStatement] using ran
          exact h.walk here rfl rfl trivial
      | some n =>
          obtain ⟨rfl, rfl⟩ : m.kernel = k ∧ _ = next := by simpa [Kernel.scheduleStatement] using ran
          split
          next isReady =>
            refine h.walk here rfl rfl ⟨fits n rfl, ?_⟩
            rintro rfl
            simp [isReady]
          next => exact h.walk here rfl rfl trivial
  | testIdle =>
      have different : m.kernel.currentPcb ≠ m.kernel.idlePcb := by
        rw [current, isIdle]
        exact fun same => notIdle (isIdle.trans same.symm)
      obtain ⟨rfl, rfl⟩ : m.kernel = k ∧ _ = next := by
        simpa [Kernel.scheduleStatement, different] using ran
      exact h.walk here rfl rfl trivial
  | loadIdle =>
      obtain ⟨rfl, rfl⟩ : m.kernel = k ∧ _ = next := by
        simpa [Kernel.scheduleStatement, isIdle] using ran
      exact h.walk here rfl rfl ⟨idleListed, fun same => absurd (same ▸ isIdle) notIdle⟩
  | testSame n =>
      obtain ⟨rfl, rfl⟩ : m.kernel = k ∧ _ = next := by simpa [Kernel.scheduleStatement] using ran
      split
      next same =>
        obtain rfl : r = n := Option.some.inj (current.symm.trans same)
        exact h.returns here rfl (fits.2 rfl)
      next different =>
        refine h.walk here rfl rfl ⟨fits.1, ?_⟩
        rintro rfl
        exact different current
  | loadOld n =>
      simp only [Kernel.scheduleStatement, current, Option.map_some, Option.some.injEq,
        Prod.mk.injEq] at ran
      obtain ⟨rfl, rfl⟩ := ran
      exact h.walk here rfl rfl ⟨rfl, fits⟩
  | testRunning old n =>
      obtain ⟨rfl, listed, different⟩ := fits
      obtain ⟨rfl, rfl⟩ : m.kernel = k ∧ _ = next := by simpa [Kernel.scheduleStatement] using ran
      split
      next isRunning => exact h.walk here rfl rfl ⟨rfl, listed, different, by simp [isRunning]⟩
      next => exact h.walk here rfl rfl ⟨rfl, listed, different⟩
  | setReady old n =>
      obtain ⟨rfl, -, -⟩ := fits
      obtain ⟨rfl, rfl⟩ : _ = k ∧ _ = next := by simpa [Kernel.scheduleStatement] using ran
      exact h.ageOld here
  | setRunning old n =>
      obtain ⟨rfl, -, -⟩ := fits
      obtain ⟨rfl, rfl⟩ : _ = k ∧ _ = next := by simpa [Kernel.scheduleStatement] using ran
      refine h.setRunning here ?_ still.2
      rcases still.1 with isReady | chosen
      · simp [isReady]
      · obtain rfl : i = n := Option.some.inj (isIdle.symm.trans chosen)
        exact idleAwake
  | setCurrent old n =>
      obtain ⟨rfl, -, -⟩ := fits
      obtain ⟨rfl, rfl⟩ : _ = k ∧ _ = next := by simpa [Kernel.scheduleStatement] using ran
      exact h.setCurrent here
  | contextSwitch old n =>
      obtain ⟨rfl, -, -⟩ := fits
      obtain ⟨rfl, rfl⟩ : _ = k ∧ _ = next := by simpa [Kernel.scheduleStatement] using ran
      exact h.contextSwitch here

theorem switchTo_state_cases (k : Kernel B) (old next b : B) :
    (b = next ∧ (k.switchTo old next).state b = .running) ∨
    b ≠ next ∧ ((k.switchTo old next).state b = k.state b ∨
      k.state b = .running ∧ (k.switchTo old next).state b = .ready) := by
  rw [Kernel.switchTo_state]
  by_cases isNext : b = next
  · simp [isNext]
  · rw [Function.update_of_ne isNext]
    by_cases running : k.state old = .running
    · by_cases isOld : b = old
      · subst isOld
        simp [running, isNext]
      · simp [running, isOld, isNext]
    · simp [running, isNext]

structure Rescheduled (k : Kernel B) (l : List B) (c : B) (k' : Kernel B) (c' : B) : Prop where
  waitLinks : k'.waitLinks = k.waitLinks
  idlePcb : k'.idlePcb = k.idlePcb
  listed : c' ∈ l
  current : k'.currentPcb = some c'
  moved : k' = k ∧ c' = c ∨ k'.state c' = .running
  blocked : ∀ b, k'.state b = .blocked ↔ k.state b = .blocked
  runnable : ∀ b, Runnable k b → Runnable k' b
  running : ∀ b, k'.state b = .running → b = c' ∨ k.state b = .running ∧ b ≠ c
  leaves : k.state c = .blocked → c' ≠ c

theorem rescheduled_switchTo {k : Kernel B} {c next : B} (different : next ≠ c) (listed : next ∈ l)
    (awake : k.state next ≠ .blocked) : Rescheduled k l c (k.switchTo c next) next := by
  have effect := switchTo_state_cases k c next
  have aged : (k.switchTo c next).state c ≠ .running := by
    rw [Kernel.switchTo_state, Function.update_of_ne different.symm]
    split
    next => simp
    next idles => exact idles
  refine ⟨by simp, by simp, listed, by simp, Or.inr ?_, ?_, ?_, ?_, fun _ => different⟩
  · grind
  · grind
  · simp only [Runnable]
    grind
  · grind

theorem rescheduled {k k' : Kernel B} {c i : B} (scheduled : k.Scheduled l c i k')
    (isCurrent : k.currentPcb = some c) (listed : c ∈ l) (idleListed : i ∈ l)
    (idleAwake : k.state i ≠ .blocked) : ∃ c', Rescheduled k l c k' c' := by
  have stay (awake : k.state c ≠ .blocked) : Rescheduled k l c k c :=
    ⟨rfl, rfl, listed, isCurrent, Or.inl ⟨rfl, rfl⟩, fun _ => Iff.rfl, fun _ => id,
      fun b isRunning => (em (b = c)).imp_right fun other => ⟨isRunning, other⟩,
      fun blocked => absurd blocked awake⟩
  cases scheduled with
  | idles isIdle => exact ⟨c, stay (isIdle ▸ idleAwake)⟩
  | itself _ isReady => exact ⟨c, stay (by simp [isReady])⟩
  | ready next different nextListed isReady =>
      exact ⟨next, rescheduled_switchTo different nextListed (by simp [isReady])⟩
  | fallback different => exact ⟨i, rescheduled_switchTo different idleListed idleAwake⟩

omit [DecidableEq B] in
theorem Parked.rescheduled (h : Parked m r l ws) (hidden : ¬ Exposed (m.pc r))
    (steady : switchingTo (m.pc r) = none) {k : Kernel B} {c : B} (linked' : k.Linked l)
    (effect : Rescheduled m.kernel l r k c) : Parked { m with kernel := k } c l ws := by
  -- The CPU goes from `r` to `c`, which sleeps in nobody's list.
  obtain ⟨i, idleListed, isIdle, idleOut, idleAwake⟩ := h.idle
  have nobody : ∀ b, switchingTo (m.pc b) = none := by
    intro b
    by_contra switches
    exact switches (h.switching b switches ▸ steady)
  have at_ : currentOf c (m.pc c) = c := by
    have quiet := nobody c
    cases place : m.pc c with
    | schedule pc =>
        rw [place] at quiet
        cases pc <;> simp_all [switchingTo, currentOf]
    | _ => rfl
  have picks : ∀ b place, m.pc b = .schedule place → Picks k l b place := by
    intro b place inside
    have before := h.picks b place inside
    have quiet := nobody b
    rw [inside] at quiet
    have awake : m.kernel.state b ≠ .blocked → k.state b ≠ .blocked := mt (effect.blocked b).mp
    cases place with
    | testSame next => exact ⟨before.1, fun same => awake (before.2 same)⟩
    | setReady old next => exact ⟨before.1, before.2.1, before.2.2.1, awake before.2.2.2⟩
    | setCurrent old next => cases quiet
    | contextSwitch old next => cases quiet
    | _ => exact before
  obtain ⟨waitLinks, idlePcb, listed', isCurrent', moved, blocked, runnable, running, leaves⟩ := effect
  obtain ⟨linked, -, listed, current, alone, runs, reads, self, exposed, switching, -, pushing,
    waiting, taken, distinct, found, real⟩ := h
  constructor
  case linked => exact linked'
  case idle => exact ⟨i, idleListed, idlePcb.trans isIdle, idleOut, by simpa [blocked] using idleAwake⟩
  case listed => exact listed'
  case current => rw [isCurrent', at_]
  case reads => simpa [waitLinks] using reads
  case picks => exact picks
  all_goals
    simp only [Asleep] at *
    grind [Exposed, popped, blocking]

omit [DecidableEq B] in
theorem Alert.carry {m' : MutexMachine B} (h : Alert m) {t : B} (lock : m'.mutex.lock = m.mutex.lock)
    (others : ∀ b, b ≠ t → m'.pc b = m.pc b)
    (runnable : ∀ b, b ≠ t → Runnable m.kernel b → Runnable m'.kernel b)
    (quiet : ¬ Waking (m.pc t))
    (still : Retrying (m.pc t) → Runnable m.kernel t →
      Retrying (m'.pc t) ∧ Runnable m'.kernel t) : Alert m' := by
  rcases h with held | ⟨u, waking⟩ | ⟨u, retrying, canRun⟩
  · exact Or.inl (lock.trans held)
  · have different : u ≠ t := fun same => quiet (same ▸ waking)
    exact Or.inr (Or.inl ⟨u, by rwa [others u different]⟩)
  · refine Or.inr (Or.inr ⟨u, ?_⟩)
    by_cases same : u = t
    next =>
      subst same
      exact still retrying canRun
    next => exact ⟨by rwa [others u same], runnable u same canRun⟩

theorem alert_waking {t : B} {pc : MutexPc B} (waking : Waking pc) : Alert (m.goto t pc) :=
  Or.inr (Or.inl ⟨t, by simpa using waking⟩)

theorem scheduleStatement_runnable {k k' : Kernel B} {place : SchedulePc B}
    {next : Option (SchedulePc B)} (ran : k.scheduleStatement place = some (k', next)) (b : B)
    (canRun : Runnable k b) : Runnable k' b := by
  rw [Runnable] at canRun ⊢
  rcases Kernel.scheduleStatement_state ran b with same | isReady | isRunning
  · rwa [same]
  · exact Or.inl isReady
  · exact Or.inr isRunning

structure Sound (m : MutexMachine B) (r : B) (l ws : List B) : Prop where
  exclusive : Exclusion.Exclusive m
  parked : Parked m r l ws
  watched : Watched m ws

end Statements

structure Machine (B : Type) extends MutexMachine B where
  running : Option B

inductive Event where
  | statement
  | tick

section Run

variable [DecidableEq B] {l ws : List B}

def start (k : Kernel B) : Machine B :=
  { toMutexMachine := MutexMachine.start k, running := k.currentPcb }

variable [Fintype B]

/--
`idle_pcb` is no thread and never calls `mutex_lock`. A tick that takes the CPU from a context
while `current_pcb` is another block would save its ESP there; this is not modelled.
-/
def step (m : Machine B) : Event → Option (Machine B)
  | .statement => do
      let r ← m.running
      if m.kernel.idlePcb = some r ∧ m.pc r = .outside then none
      else
        let m' ← m.statement r
        return { toMutexMachine := m', running := some (runnerAfter r (m.pc r)) }
  | .tick => do
      let k ← m.kernel.schedule
      if k.currentPcb = m.kernel.currentPcb then
        return { m with toMutexMachine := { m.toMutexMachine with kernel := k } }
      else if m.running = m.kernel.currentPcb then
        return { toMutexMachine := { m.toMutexMachine with kernel := k }, running := k.currentPcb }
      else none

def Step (m : Machine B) (e : Event) (m' : Machine B) : Prop := step m e = some m'

/--
No tick arrives between `cur->state = PROCESS_BLOCKED` and the end of the push, nor between
`next->state = PROCESS_RUNNING` and the context switch; where `schedule()` marks a block RUNNING
its choice still stands; no unlock finds the list empty and the lock free while somebody is between
a failed XCHG and its push; and the head an unlock reads and pops is still the head it saw.
-/
def Calm (m : MutexMachine B) : Event → MutexPc B → Prop
  | .tick, pc => ¬ Exposed pc ∧ switchingTo pc = none
  | .statement, .schedule place => StillPicked m.kernel place
  | .statement, .testWaiters =>
      m.mutex.waiters = none → m.mutex.lock = 0#32 → ∀ u, ¬ Missed (m.pc u)
  | .statement, .readWaiter => m.mutex.waiters ≠ none
  | .statement, .popWaiter waiter => waiter ≠ none ∧ m.mutex.waiters = waiter
  | .statement, _ => True

def Undisturbed (m : Machine B) (e : Event) : Prop :=
  ∀ r, m.running = some r → Calm m.toMutexMachine e (m.pc r)

instance (m : MutexMachine B) : ∀ e pc, Decidable (Calm m e pc)
  | .tick, pc => inferInstanceAs (Decidable (¬ Exposed pc ∧ switchingTo pc = none))
  | .statement, .schedule place => inferInstanceAs (Decidable (StillPicked m.kernel place))
  | .statement, .testWaiters => inferInstanceAs
      (Decidable (m.mutex.waiters = none → m.mutex.lock = 0#32 → ∀ u, ¬ Missed (m.pc u)))
  | .statement, .readWaiter => inferInstanceAs (Decidable (m.mutex.waiters ≠ none))
  | .statement, .popWaiter waiter =>
      inferInstanceAs (Decidable (waiter ≠ none ∧ m.mutex.waiters = waiter))
  | .statement, .outside | .statement, .testAndSet | .statement, .getCurrent
  | .statement, .setBlocked _ | .statement, .setWaitNext _ | .statement, .pushWaiter _
  | .statement, .returning | .statement, .holding | .statement, .storeLock
  | .statement, .clearWaitNext _ | .statement, .setReady _ => isTrue trivial

instance (m : Machine B) (e : Event) : Decidable (Undisturbed m e) :=
  inferInstanceAs (Decidable (∀ r, m.running = some r → Calm m.toMutexMachine e (m.pc r)))

def RunningHasCpu (m : Machine B) : Prop :=
  ∀ b, m.kernel.state b = .running →
    ∃ r, m.running = some r ∧ (b = r ∨ switchingTo (m.pc r) = some b)

omit [Fintype B] in
theorem Sound.statement {m : Machine B} {m' : MutexMachine B} {r : B}
    (h : Sound m.toMutexMachine r l ws) (running : m.running = some r)
    (thread : ¬ (m.kernel.idlePcb = some r ∧ m.pc r = .outside))
    (undisturbed : Undisturbed m .statement) (ran : m.statement r = some m') :
    ∃ ws', Sound m' (runnerAfter r (m.pc r)) l ws' := by
  have exclusive : Exclusion.Exclusive m' := h.exclusive.step (.statement r ran)
  have parked := h.parked
  have notIdle : m.kernel.idlePcb ≠ some r := by
    intro isIdle
    obtain ⟨i, _, isIdle', out, _⟩ := parked.idle
    obtain rfl := Option.some.inj (isIdle.symm.trans isIdle')
    exact thread ⟨isIdle, out⟩
  have condition := undisturbed r running
  -- A context that has failed its XCHG leaves alert whoever was.
  have missed (pc : MutexPc B) (k' : Kernel B) (waiters : Option B) (isMissed : Missed (m.pc r))
      (runnable : ∀ b, b ≠ r → Runnable m.kernel b → Runnable k' b) :
      Alert ({ m.toMutexMachine with
        kernel := k', mutex := { m.mutex with waiters := waiters } }.goto r pc) := by
    have alert := h.watched (Or.inr ⟨r, isMissed⟩)
    refine alert.carry (t := r) rfl (fun b different => by simp [different]) runnable ?_ ?_
    · cases here : m.pc r <;> simp_all [Waking, Missed]
    · cases here : m.pc r <;> simp_all [Retrying, Missed]
  have owned (owns : Exclusion.Owns (m.pc r)) : m.mutex.lock = 1#32 := by
    rcases h.exclusive with ⟨_, nobody⟩ | ⟨held, _⟩
    · exact absurd owns (nobody r)
    · exact held
  unfold MutexMachine.statement at ran
  cases here : m.pc r with
  | outside =>
      simp only [here, Option.some.injEq] at ran
      subst ran
      have canRun := parked.runnable (by simp [here, Exposed]) (by simp [here, Scheduling])
      refine ⟨ws, exclusive, parked.move notIdle (by simp [here, Plain]) (Or.inl (by simp [Plain]))
        m.mutex.lock, fun _ => ?_⟩
      exact Or.inr (Or.inr ⟨r, by simp [Retrying], canRun⟩)
  | testAndSet =>
      simp only [here, Mutex.testAndSet, Option.some.injEq] at ran
      subst ran
      refine ⟨ws, exclusive, parked.move notIdle (by simp [here, Plain]) ?_ 1#32,
        fun _ => Or.inl rfl⟩
      by_cases free : m.mutex.lock = 0#32 <;> simp [free, Plain]
  | getCurrent =>
      have current := parked.current
      rw [here] at current
      simp only [here, current, Option.some.injEq] at ran
      subst ran
      exact ⟨ws, exclusive, parked.move notIdle (by simp [here, Plain]) (Or.inr rfl)
        m.mutex.lock, fun _ => missed _ _ _ (by simp [here, Missed]) (fun _ _ => id)⟩
  | setBlocked cur =>
      obtain rfl : cur = r := parked.self r cur (by simp [here, blocking])
      simp only [here, Option.some.injEq] at ran
      subst ran
      refine ⟨ws, exclusive, parked.setBlocked here,
        fun _ => missed _ _ _ (by simp [here, Missed]) ?_⟩
      intro b different canRun
      simpa [Runnable, Kernel.setState_state, different] using canRun
  | setWaitNext tcb =>
      obtain rfl : tcb = r := parked.self r tcb (by simp [here, blocking])
      simp only [here, Option.some.injEq] at ran
      subst ran
      exact ⟨ws, exclusive, parked.setWaitNext here,
        fun _ => missed _ _ _ (by simp [here, Missed]) (fun b _ => by simp [Runnable])⟩
  | pushWaiter tcb =>
      obtain rfl : tcb = r := parked.self r tcb (by simp [here, blocking])
      simp only [here, Option.some.injEq] at ran
      subst ran
      exact ⟨tcb :: ws, exclusive, parked.pushWaiter here,
        fun _ => missed _ _ _ (by simp [here, Missed]) (fun _ _ => id)⟩
  | schedule place =>
      simp only [here, Option.map_eq_some_iff] at ran condition
      obtain ⟨⟨k', next⟩, scheduled, rfl⟩ := ran
      refine ⟨ws, exclusive, parked.scheduleStatement here condition scheduled, ?_⟩
      intro premise
      have before : ws ≠ [] ∨ ∃ b, Missed (m.pc b) := by
        refine premise.imp_right ?_
        rintro ⟨b, isMissed⟩
        by_cases same : b = r
        · subst same
          cases next <;> simp [Missed, MutexMachine.inSchedule] at isMissed
        · exact ⟨b, by simpa [same] using isMissed⟩
      have runnable := scheduleStatement_runnable scheduled
      refine (h.watched before).carry (t := r) rfl (fun b different => by simp [different])
        (fun b _ => runnable b) (by simp [here, Waking]) (fun _ canRun => ⟨?_, runnable r canRun⟩)
      cases next <;> simp [Retrying, MutexMachine.inSchedule]
  | returning =>
      simp only [here, Option.some.injEq] at ran
      subst ran
      exact ⟨ws, exclusive, parked.move notIdle (by simp [here, Plain]) (Or.inl (by simp [Plain]))
        m.mutex.lock, fun _ => Or.inl (owned (by simp [here, Exclusion.Owns]))⟩
  | holding =>
      simp only [here, Option.some.injEq] at ran
      subst ran
      exact ⟨ws, exclusive, parked.move notIdle (by simp [here, Plain]) (Or.inl (by simp [Plain]))
        m.mutex.lock, fun _ => Or.inl (owned (by simp [here, Exclusion.Owns, Exclusion.InCritical]))⟩
  | storeLock =>
      simp only [here, Option.some.injEq] at ran
      subst ran
      exact ⟨ws, exclusive, parked.move notIdle (by simp [here, Plain]) (Or.inl (by simp [Plain]))
        0#32, fun _ => alert_waking trivial⟩
  | testWaiters =>
      simp only [here, Option.some.injEq] at ran condition
      subst ran
      refine ⟨ws, exclusive, parked.move notIdle (by simp [here, Plain]) ?_ m.mutex.lock, ?_⟩
      · cases m.mutex.waiters <;> simp [Plain]
      · cases waiters : m.mutex.waiters with
        | some w => exact fun _ => alert_waking (by simp [Waking])
        | none =>
            -- Nobody waits; with the lock free nobody is about to wait either.
            have nobody : ws = [] := PointerList.Reads.head_none (waiters ▸ parked.reads)
            rintro (nonempty | ⟨b, isMissed⟩)
            · exact absurd nobody nonempty
            · rcases h.exclusive with ⟨free, _⟩ | ⟨held, _⟩
              · have others := condition waiters free b
                by_cases same : b = r
                · subst same
                  simp [Missed] at isMissed
                · exact absurd (by simpa [same] using isMissed) others
              · exact Or.inl held
  | readWaiter =>
      simp only [here, Option.some.injEq] at ran
      subst ran
      exact ⟨ws, exclusive, parked.move notIdle (by simp [here, Plain]) (Or.inl (by simp [Plain]))
        m.mutex.lock, fun _ => alert_waking trivial⟩
  | popWaiter waiter =>
      simp only [here, Option.some.injEq] at ran condition
      subst ran
      obtain ⟨nonNull, isHead⟩ := condition
      obtain ⟨w, rfl⟩ := Option.ne_none_iff_exists'.mp nonNull
      obtain ⟨rest, rfl, _⟩ := (isHead ▸ parked.reads).head_some
      exact ⟨rest, exclusive, parked.popWaiter here, fun _ => alert_waking trivial⟩
  | clearWaitNext waiter =>
      obtain ⟨w, rfl⟩ : ∃ w, waiter = some w :=
        Option.ne_none_iff_exists'.mp fun null => (parked.real r).1 (null ▸ here)
      simp only [here, Option.some.injEq] at ran
      subst ran
      exact ⟨ws, exclusive, parked.clearWaitNext here, fun _ => alert_waking trivial⟩
  | setReady waiter =>
      obtain ⟨w, rfl⟩ : ∃ w, waiter = some w :=
        Option.ne_none_iff_exists'.mp fun null => (parked.real r).2 (null ▸ here)
      simp only [here, Option.some.injEq] at ran
      subst ran
      refine ⟨ws, exclusive, parked.setReady here, fun _ => ?_⟩
      -- The woken waiter is on its way back to the XCHG.
      obtain ⟨⟨_, place⟩, _⟩ := parked.taken r w (by simp [here, popped])
      have different : w ≠ r := by
        rintro rfl
        simp [here, Scheduling] at place
      refine Or.inr (Or.inr ⟨w, ?_, Or.inl (by simp [Kernel.setState_state])⟩)
      simp only [MutexMachine.goto_pc, Function.update_of_ne different]
      rcases place with inside | ⟨at_, _⟩
      · cases there : m.pc w <;> simp_all [Scheduling, Retrying]
      · simp [at_, Retrying]

theorem Sound.tick {m m' : Machine B} {r : B} (h : Sound m.toMutexMachine r l ws)
    (running : m.running = some r) (undisturbed : Undisturbed m .tick)
    (ran : step m .tick = some m') :
    ∃ c, m'.running = some c ∧ Sound m'.toMutexMachine c l ws := by
  obtain ⟨k, scheduled, rest⟩ := Option.bind_eq_some_iff.mp ran
  obtain ⟨hidden, steady⟩ : ¬ Exposed (m.pc r) ∧ switchingTo (m.pc r) = none :=
    undisturbed r running
  have isCurrent : m.kernel.currentPcb = some r := by
    rw [h.parked.current]
    cases place : m.pc r with
    | schedule pc =>
        rw [place] at steady
        cases pc <;> simp_all [switchingTo, currentOf]
    | _ => rfl
  obtain ⟨i, idleListed, isIdle, _, idleAwake⟩ := h.parked.idle
  obtain ⟨k', again, linked', scheduled'⟩ := h.parked.linked.schedule isCurrent isIdle
  obtain rfl : k' = k := Option.some.inj (again.symm.trans scheduled)
  obtain ⟨c, effect⟩ := Wakeup.rescheduled scheduled' isCurrent h.parked.listed idleListed idleAwake
  have sound : Sound { m.toMutexMachine with kernel := k' } c l ws := by
    refine ⟨h.exclusive, h.parked.rescheduled hidden steady linked' effect, fun premise => ?_⟩
    rcases h.watched premise with held | waking | ⟨u, retrying, canRun⟩
    · exact Or.inl held
    · exact Or.inr (Or.inl waking)
    · exact Or.inr (Or.inr ⟨u, retrying, effect.runnable u canRun⟩)
  refine ⟨c, ?_⟩
  rw [effect.current, isCurrent, running] at rest
  by_cases same : c = r
  next =>
    subst same
    obtain rfl := Option.some.inj ((if_pos rfl).symm.trans rest)
    exact ⟨rfl, sound⟩
  next =>
    rw [if_neg (by simpa using same), if_pos rfl] at rest
    obtain rfl := Option.some.inj rest
    exact ⟨rfl, sound⟩

omit [DecidableEq B] [Fintype B] in
theorem Sound.noLostWakeup {m : MutexMachine B} {r : B} (h : Sound m r l ws) : NoLostWakeup m := by
  rintro free ⟨b, inLock, blocked⟩
  have inside : m.pc b ≠ .outside := by
    intro out
    simp [out, InLock] at inLock
  have premise : (∃ t, popped (m.pc t) = some b) ∨ ws ≠ [] ∨ ∃ b, Missed (m.pc b) := by
    rcases h.parked.found b inside blocked with isExposed | waiting | took
    · refine Or.inr (Or.inr ⟨b, ?_⟩)
      cases here : m.pc b <;> simp_all [Exposed, Missed]
    · exact Or.inr (Or.inl (List.ne_nil_of_mem waiting))
    · exact Or.inl took
  rcases premise with ⟨t, took⟩ | premise
  · refine ⟨t, Or.inr (Or.inl ?_)⟩
    cases here : m.pc t <;> simp_all [popped, InUnlock]
  · rcases h.watched premise with held | ⟨t, waking⟩ | ⟨t, retrying, canRun⟩
    · simp [free] at held
    · refine ⟨t, Or.inr (Or.inl ?_)⟩
      cases here : m.pc t <;> simp_all [Waking, InUnlock]
    · refine ⟨t, Or.inr (Or.inr ⟨?_, canRun⟩)⟩
      cases here : m.pc t <;> simp_all [Retrying, InLock]

structure Dispatching (k : Kernel B) (l : List B) : Prop where
  linked : k.Linked l
  idle : ∃ i ∈ l, k.idlePcb = some i ∧ k.state i ≠ .blocked
  current : ∃ c ∈ l, k.currentPcb = some c ∧ k.state c ≠ .blocked
  alone : ∀ b, k.state b = .running → k.currentPcb = some b

def Safe (l : List B) (m : Machine B) : Prop :=
  ∃ r ws, m.running = some r ∧ Sound m.toMutexMachine r l ws

omit [DecidableEq B] [Fintype B] in
theorem safe_start {k : Kernel B} (h : Dispatching k l) : Safe l (start k) := by
  obtain ⟨i, idleListed, isIdle, idleAwake⟩ := h.idle
  obtain ⟨c, listed, isCurrent, awake⟩ := h.current
  have out (b : B) : (MutexMachine.start k).pc b = .outside := rfl
  have sound : Sound (MutexMachine.start k) c l [] := by
    refine ⟨Or.inl ⟨rfl, fun _ => id⟩, ⟨h.linked, ⟨i, idleListed, isIdle, rfl, idleAwake⟩,
      listed, isCurrent, ?_, fun blocked => absurd blocked awake, rfl, ?_, ?_, ?_, ?_, ?_, by simp,
      ?_, ?_, ?_, ?_⟩, ?_⟩
    · intro b isRunning
      exact Or.inl (Option.some.inj ((h.alone b isRunning).symm.trans isCurrent))
    · simp [out, blocking]
    · simp [out, Exposed]
    · simp [out, switchingTo]
    · simp [out]
    · simp [out]
    · simp [out, popped]
    · simp [out, popped]
    · simp [out]
    · simp [out]
    · simp [Watched, out, Missed]
  exact ⟨c, [], isCurrent, sound⟩

theorem Safe.step {m m' : Machine B} {e : Event} (h : Safe l m) (undisturbed : Undisturbed m e)
    (taken : Step m e m') : Safe l m' := by
  obtain ⟨r, ws, running, h⟩ := h
  cases e with
  | tick =>
      obtain ⟨c, next, sound⟩ := h.tick running undisturbed taken
      exact ⟨c, ws, next, sound⟩
  | statement =>
      obtain ⟨r', running', rest⟩ := Option.bind_eq_some_iff.mp taken
      obtain rfl : r = r' := Option.some.inj (running.symm.trans running')
      split at rest
      next => cases rest
      next thread =>
        obtain ⟨moved, ran, result⟩ := Option.bind_eq_some_iff.mp rest
        obtain rfl := Option.some.inj result
        obtain ⟨ws', sound⟩ := h.statement running thread undisturbed ran
        exact ⟨_, ws', rfl, sound⟩

/--
In every undisturbed run of any number of threads over one mutex, no state has the lock
free and a blocked thread that nobody is left to wake.
-/
theorem always_noLostWakeup (k : Kernel B) (l : List B) (dispatching : Dispatching k l)
    (events : List Event) (undisturbed : Transition.Meets Step Undisturbed (start k) events) :
    Transition.Always Step (fun m => NoLostWakeup m.toMutexMachine ∧ RunningHasCpu m) (start k)
      events := by
  refine Transition.always_of_meets ?_ (fun _ _ _ h calm taken => h.step calm taken)
    (safe_start dispatching) events undisturbed
  rintro m ⟨r, ws, running, sound⟩
  exact ⟨sound.noLostWakeup, fun b isRunning => ⟨r, running, sound.parked.alone b isRunning⟩⟩

end Run

def contended : List Event :=
  [.tick] ++ List.replicate 3 .statement ++ [.tick] ++ List.replicate 17 .statement ++
    [.tick] ++ List.replicate 7 .statement ++ [.tick] ++ List.replicate 2 .statement

theorem always_noLostWakeup_smallThreads :
    ∃ k, smallThreads = some k ∧
      (contended.foldlM step (start k)).map (fun m => m.pc (.tcb 1)) = some .holding ∧
      Transition.Meets Step Undisturbed (start k) contended ∧
      Transition.Always Step (fun m => NoLostWakeup m.toMutexMachine ∧ RunningHasCpu m) (start k)
        contended := by
  have evaluated : smallThreads.map (fun k =>
      (decide (PointerList.Reads k.links k.runQueue [.pcb 0, .tcb 0, .tcb 1] ∧
        (∀ b, b ∉ [Slot.pcb 0, .tcb 0, .tcb 1] → k.links b = none) ∧
        k.idlePcb = some (.pcb 0) ∧ k.currentPcb = some (.pcb 0) ∧ k.state (.pcb 0) = .running ∧
        k.state (.tcb 0) = .ready ∧ k.state (.tcb 1) = .ready ∧
        ∀ b, k.state b = .running → b = .pcb 0),
      (contended.foldlM step (start k)).map fun m => m.pc (.tcb 1),
      (contended.foldlM (fun m e => if Undisturbed m e then step m e else none)
        (start k)).isSome)) = some (true, some .holding, true) := by
    decide +kernel
  obtain ⟨k, made, values⟩ := Option.map_eq_some_iff.mp evaluated
  simp only [Prod.mk.injEq, decide_eq_true_eq] at values
  obtain ⟨⟨queue, unlinked, idling, running, idleState, first, second, alone⟩, ends, checked⟩ :=
    values
  have live : ∀ b ∈ [Slot.pcb 0, .tcb 0, .tcb 1], k.state b ≠ .dead := by
    simp [idleState, first, second]
  have dispatching : Dispatching k [.pcb 0, .tcb 0, .tcb 1] :=
    ⟨⟨queue, unlinked, live⟩, ⟨.pcb 0, by simp, idling, by simp [idleState]⟩,
      ⟨.pcb 0, by simp, running, by simp [idleState]⟩,
      fun b isRunning => (alone b isRunning) ▸ running⟩
  obtain ⟨m, ran⟩ := Option.isSome_iff_exists.mp checked
  have undisturbed : Transition.Meets Step Undisturbed (start k) contended :=
    Transition.Meets.of_run ran
  exact ⟨k, made, ends, undisturbed, always_noLostWakeup k _ dispatching _ undisturbed⟩

def sleepAfterUnlock : List Event :=
  [.tick, .statement, .statement, .statement,
    .tick, .statement, .statement,
    .tick, .tick, .statement, .statement, .statement,
    .tick, .statement, .statement, .statement, .statement]

theorem not_always_noLostWakeup_sleepAfterUnlock :
    ∃ k, smallThreads = some k ∧
      ¬ Transition.Always Step (fun m => NoLostWakeup m.toMutexMachine) (start k)
        sleepAfterUnlock := by
  have evaluated : (smallThreads.bind fun k =>
      (sleepAfterUnlock.foldlM step (start k)).map fun m =>
        (m.mutex.lock, m.kernel.state (.tcb 1), m.pc (.tcb 1),
          decide (∀ t, t ≠ .tcb 1 → m.pc t = .outside))) =
      some (0#32, .blocked, .schedule .testCurrent, true) := by
    decide +kernel
  obtain ⟨k, made, afterBoot⟩ := Option.bind_eq_some_iff.mp evaluated
  obtain ⟨m, ran, values⟩ := Option.map_eq_some_iff.mp afterBoot
  simp only [Prod.mk.injEq, decide_eq_true_eq] at values
  obtain ⟨free, blocked, at_, others⟩ := values
  refine ⟨k, made, fun always => ?_⟩
  obtain ⟨t, awake⟩ := (always.of_run ran) free ⟨.tcb 1, by simp [at_, InLock], blocked⟩
  by_cases same : t = .tcb 1
  · subst same
    simp [at_, blocked, Exclusion.Owns, Exclusion.InCritical, InUnlock, Runnable] at awake
  · simp [others t same, Exclusion.Owns, Exclusion.InCritical, InUnlock, InLock] at awake

end SoraOS.Wakeup
