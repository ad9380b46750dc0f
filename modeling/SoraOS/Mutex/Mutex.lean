import SoraOS.Scheduler.Schedule

set_option autoImplicit false

namespace SoraOS

structure Mutex (B : Type) where
  lock : U32
  waiters : Option B

def mutexInit {B : Type} : Mutex B := { lock := 0#32, waiters := none }

/-- `xchgl`: the old value comes back and 1 is left behind. -/
def Mutex.testAndSet {B : Type} (m : Mutex B) : U32 × Mutex B := (m.lock, { m with lock := 1#32 })

namespace Kernel

variable {B : Type}

def waitLinks (k : Kernel B) (b : B) : Option B := (k.block b).waitNext

/-- `p->wait_next`; what lies at address 0 is outside the model, a load from it gives `NULL`. -/
def loadWaitNext (k : Kernel B) (p : Option B) : Option B := p.bind k.waitLinks

variable [DecidableEq B]

def setWaitNext (k : Kernel B) (b : B) (link : Option B) : Kernel B :=
  k.modify b fun t => { t with waitNext := link }

/-- The body of `if (cur)` in `mutex_lock`; `Layout.blockOn` has the byte offsets of the cast. -/
def blockOn (k : Kernel B) (m : Mutex B) (cur : B) : Kernel B × Mutex B :=
  let k := k.setState cur .blocked
  let k := k.setWaitNext cur m.waiters
  (k, { m with waiters := some cur })

/-- One turn of the loop in `mutex_lock`: whether it got the lock, and what it left. -/
def lockAttempt [Fintype B] (k : Kernel B) (m : Mutex B) : Option (Bool × Kernel B × Mutex B) :=
  let (old, m) := m.testAndSet
  if old = 0#32 then some (true, k, m)
  else
    let (k, m) := match k.currentPcb with
      | some cur => k.blockOn m cur
      | none => (k, m)
    k.schedule.map fun k => (false, k, m)

def mutexUnlock (k : Kernel B) (m : Mutex B) : Kernel B × Mutex B :=
  let m := { m with lock := 0#32 }
  match m.waiters with
  | none => (k, m)
  | some waiter =>
      let m := { m with waiters := k.waitLinks waiter }
      let k := k.setWaitNext waiter none
      (k.setState waiter .ready, m)

theorem modify_waitLinks (k : Kernel B) (b : B) (f : Tcb B → Tcb B)
    (kept : (f (k.block b)).waitNext = (k.block b).waitNext) :
    (k.modify b f).waitLinks = k.waitLinks := by
  funext c
  by_cases same : c = b
  · simp [waitLinks, same, kept]
  · simp [waitLinks, modify_block_other k f same]

@[simp] theorem setState_waitLinks (k : Kernel B) (b : B) (s : ProcessState) :
    (k.setState b s).waitLinks = k.waitLinks := modify_waitLinks k b _ rfl

@[simp] theorem setWaitNext_waitLinks (k : Kernel B) (b : B) (link : Option B) :
    (k.setWaitNext b link).waitLinks = Function.update k.waitLinks b link := by
  funext c
  by_cases same : c = b
  · subst same
    simp [waitLinks, setWaitNext]
  · simp [waitLinks, setWaitNext, modify_block_other, Function.update_of_ne, same]

@[simp] theorem setWaitNext_links (k : Kernel B) (b : B) (link : Option B) :
    (k.setWaitNext b link).links = k.links := modify_links k b _ rfl
@[simp] theorem setWaitNext_state (k : Kernel B) (b : B) (link : Option B) :
    (k.setWaitNext b link).state = k.state := modify_state k b _ rfl
@[simp] theorem setWaitNext_runQueue (k : Kernel B) (b : B) (link : Option B) :
    (k.setWaitNext b link).runQueue = k.runQueue := rfl
@[simp] theorem setWaitNext_currentPcb (k : Kernel B) (b : B) (link : Option B) :
    (k.setWaitNext b link).currentPcb = k.currentPcb := rfl
@[simp] theorem setWaitNext_idlePcb (k : Kernel B) (b : B) (link : Option B) :
    (k.setWaitNext b link).idlePcb = k.idlePcb := rfl
@[simp] theorem setWaitNext_tcbPoolInitialized (k : Kernel B) (b : B) (link : Option B) :
    (k.setWaitNext b link).tcbPoolInitialized = k.tcbPoolInitialized := rfl

@[simp] theorem contextSwitch_waitLinks (k : Kernel B) (old new : B) :
    (k.contextSwitch old new).waitLinks = k.waitLinks :=
  modify_waitLinks k old (fun t => { t with esp := k.esp }) rfl

@[simp] theorem switchTo_waitLinks (k : Kernel B) (old next : B) :
    (k.switchTo old next).waitLinks = k.waitLinks := by
  have relabel (k' : Kernel B) : ({ k'.setState next .running with
      currentPcb := some next } : Kernel B).waitLinks = k'.waitLinks :=
    setState_waitLinks k' next .running
  simp only [switchTo, contextSwitch_waitLinks, relabel]
  split <;> simp

omit [DecidableEq B] in
@[simp] theorem relink_waitLinks (k : Kernel B) (next : B → Option B) (head : Option B) :
    (k.relink next head).waitLinks = k.waitLinks := rfl

theorem released_waitLinks (k : Kernel B) (b : B) (wipe : Tcb B → Tcb B) (next : B → Option B)
    (head : Option B) (keeps : ∀ t, (wipe t).waitNext = t.waitNext) :
    (k.released b wipe next head).waitLinks = k.waitLinks := by
  rw [released, modify_waitLinks _ _ _ (keeps _), ← setState_waitLinks k b .dead]
  rfl

end Kernel

end SoraOS
