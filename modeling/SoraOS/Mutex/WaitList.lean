import SoraOS.Mutex.Mutex
import SoraOS.Scheduler.Calls
import SoraOS.Shared.Transition

set_option autoImplicit false

namespace SoraOS.WaitList

/-- A kernel, one mutex, and the context whose `mutex_lock` returned last. -/
structure Shared where
  kernel : Kernel Slot
  mutex : Mutex Slot
  holder : Option Slot

inductive Action where
  | lock
  | unlock
  | call (op : Op)

structure Event where
  action : Action
  esp : U32

def admitted : Op → Bool
  | .schedule | .createThread _ _ | .threadDelete _ | .killprocess _ => true
  | _ => false

/-- `none` when the call never returns, or is not one of those considered. -/
def step (s : Shared) (e : Event) : Option Shared :=
  let k := { s.kernel with esp := e.esp }
  match e.action with
  | .lock =>
      (k.lockAttempt s.mutex).map fun r =>
        { kernel := r.2.1, mutex := r.2.2, holder := if r.1 then k.currentPcb else s.holder }
  -- Only the holder calls `mutex_unlock`.
  | .unlock =>
      if s.holder.isSome && s.holder = k.currentPcb then
        let r := k.mutexUnlock s.mutex
        some { kernel := r.1, mutex := r.2, holder := none }
      else none
  | .call op =>
      if admitted op then (k.perform op).map fun r => { s with kernel := r.2 } else none

def Step (s : Shared) (e : Event) (t : Shared) : Prop := step s e = some t

def Waits (k : Kernel Slot) (m : Mutex Slot) (b : Slot) : Prop :=
  ∃ ws, PointerList.Reads k.waitLinks m.waiters ws ∧ b ∈ ws

structure Intact (s : Shared) : Prop where
  list : ∃ ws, PointerList.Reads s.kernel.waitLinks s.mutex.waiters ws ∧ ws.Nodup ∧
    ∀ b ∈ ws, s.kernel.Listed b ∧ s.kernel.state b = .blocked
  -- What the next `mutex_unlock` makes READY.
  wakes : ∀ b, s.mutex.waiters = some b → s.kernel.Listed b ∧ s.kernel.state b = .blocked

def OtherReady (k : Kernel Slot) (current : Slot) : Prop :=
  ∃ b, k.Listed b ∧ b ≠ current ∧ k.state b = .ready

def AnyReady (k : Kernel Slot) : Prop := ∃ b, k.Listed b ∧ k.state b = .ready

/-- A failing attempt is made by a listed context that is not waiting, and idle is not needed
while it waits. -/
def CarefulLock (k : Kernel Slot) (m : Mutex Slot) : Prop :=
  m.lock = 0#32 ∨ ∀ current, k.currentPcb = some current →
    k.Listed current ∧ ¬ Waits k m current ∧
      ∀ idle, k.idlePcb = some idle → Waits k m idle → OtherReady k current

/-- `schedule()` does not need idle while it waits, and nothing that waits is killed or deleted. -/
def CarefulCall (k : Kernel Slot) (m : Mutex Slot) : Op → Prop
  | .schedule =>
      ∀ idle, k.idlePcb = some idle → Waits k m idle → k.currentPcb = some idle ∨ AnyReady k
  | op => ∀ b, k.Names op b → ¬ Waits k m b

def Careful (s : Shared) (e : Event) : Prop :=
  match e.action with
  | .lock => CarefulLock s.kernel s.mutex
  | .unlock => True
  | .call op => CarefulCall s.kernel s.mutex op

structure Sound (k : Kernel Slot) (m : Mutex Slot) (l ws : List Slot) : Prop where
  consistent : k.Consistent l
  reads : PointerList.Reads k.waitLinks m.waiters ws
  listed : ∀ b ∈ ws, b ∈ l
  blocked : ∀ b ∈ ws, k.state b = .blocked

theorem Sound.intact {s : Shared} {l ws : List Slot} (h : Sound s.kernel s.mutex l ws) :
    Intact s := by
  have entries (b : Slot) (member : b ∈ ws) : s.kernel.Listed b ∧ s.kernel.state b = .blocked :=
    ⟨(h.consistent.queue.listed b).mpr (h.listed b member), h.blocked b member⟩
  refine ⟨⟨ws, h.reads, h.reads.nodup, entries⟩, ?_⟩
  intro b first
  obtain ⟨rest, rfl, _⟩ := (first ▸ h.reads).head_some
  exact entries b (by simp)

theorem Sound.waits {k : Kernel Slot} {m : Mutex Slot} {l ws : List Slot} (h : Sound k m l ws)
    (b : Slot) : Waits k m b ↔ b ∈ ws := by
  constructor
  · rintro ⟨ws', reads, member⟩
    rwa [h.reads.unique reads]
  · exact fun member => ⟨ws, h.reads, member⟩

theorem Sound.scheduled {k k' : Kernel Slot} {m : Mutex Slot} {l ws : List Slot} (h : Sound k m l ws)
    {current idle : Slot} (scheduled : k.Scheduled l current idle k') (kept : k'.Consistent l)
    (spared : idle ∈ ws → current = idle ∨ ∃ b ∈ l, k.state b = .ready) : Sound k' m l ws := by
  cases scheduled with
  | idles => exact h
  | itself => exact h
  | ready next different listed isReady =>
      refine ⟨kept, by simpa using h.reads, h.listed, ?_⟩
      intro b member
      have other : b ≠ next := by
        rintro rfl
        simp [h.blocked b member] at isReady
      exact Kernel.switchTo_keeps other (h.blocked b member) (by decide)
  | fallback different nobody =>
      refine ⟨kept, by simpa using h.reads, h.listed, ?_⟩
      intro b member
      have other : b ≠ idle := by
        rintro rfl
        rcases spared member with same | ⟨c, listed, isReady⟩
        · exact different same.symm
        · exact nobody c listed isReady
      exact Kernel.switchTo_keeps other (h.blocked b member) (by decide)

theorem Sound.spoiled {k k' : Kernel Slot} {m : Mutex Slot} {l ws : List Slot} (h : Sound k m l ws)
    {current idle : Slot} (scheduled : k.Scheduled l current idle k') (waiting : idle ∈ ws)
    (unspared : ¬ (current = idle ∨ ∃ b ∈ l, k.state b = .ready)) (holder : Option Slot) :
    ¬ Intact { kernel := k', mutex := m, holder := holder } := by
  -- Falling back to idle makes it RUNNING, so a waiting idle spoils the list.
  cases scheduled with
  | idles isIdle => exact absurd (Or.inl isIdle) unspared
  | itself listed isReady => exact absurd (Or.inr ⟨_, listed, isReady⟩) unspared
  | ready next _ listed isReady => exact absurd (Or.inr ⟨_, listed, isReady⟩) unspared
  | fallback =>
      rintro ⟨⟨ws', reads, _, entries⟩, _⟩
      have same : ws' = ws := reads.unique (by simpa using h.reads)
      have blocked := (entries idle (same ▸ waiting)).2
      simp [Kernel.switchTo_state] at blocked

section Block

variable {k : Kernel Slot} {m : Mutex Slot} {l ws : List Slot}

@[simp] theorem blockOn_state (k : Kernel Slot) (m : Mutex Slot) (cur : Slot) :
    (k.blockOn m cur).1.state = Function.update k.state cur .blocked := by
  rw [Kernel.blockOn, Kernel.setWaitNext_state, Kernel.setState_state]

@[simp] theorem blockOn_waitLinks (k : Kernel Slot) (m : Mutex Slot) (cur : Slot) :
    (k.blockOn m cur).1.waitLinks = Function.update k.waitLinks cur m.waiters := by
  rw [Kernel.blockOn, Kernel.setWaitNext_waitLinks, Kernel.setState_waitLinks]

theorem blockOn_consistent (h : k.Consistent l) (cur : Slot) :
    (k.blockOn m cur).1.Consistent l :=
  ⟨(h.toLinked.setState cur (by decide : ProcessState.blocked ≠ .dead)).congr (by simp [Kernel.blockOn])
    rfl (by simp [Kernel.blockOn]), h.poolReady, h.current, h.idle⟩

theorem Sound.block (h : Sound k m l ws) {cur : Slot} (listed : cur ∈ l) (fresh : cur ∉ ws) :
    Sound (k.blockOn m cur).1 (k.blockOn m cur).2 l (cur :: ws) := by
  refine ⟨blockOn_consistent h.consistent cur, ?_, ?_, ?_⟩
  · rw [blockOn_waitLinks]
    exact h.reads.push fresh
  · intro b member
    rcases List.mem_cons.mp member with rfl | older
    · exact listed
    · exact h.listed b older
  · intro b member
    rw [blockOn_state]
    by_cases same : b = cur
    · simp [same]
    · rw [Function.update_of_ne same]
      exact h.blocked b (by simpa [same] using member)

end Block

theorem Sound.withEsp {k : Kernel Slot} {m : Mutex Slot} {l ws : List Slot} (h : Sound k m l ws)
    (esp : U32) : Sound { k with esp := esp } m l ws :=
  ⟨h.consistent.withEsp esp, h.reads, h.listed, h.blocked⟩

theorem lockAttempt_cases {k k' : Kernel Slot} {m m' : Mutex Slot} {l : List Slot}
    (consistent : k.Consistent l) {acquired : Bool}
    (attempt : k.lockAttempt m = some (acquired, k', m')) :
    (m.lock = 0#32 ∧ k' = k ∧ m'.waiters = m.waiters) ∨
    m.lock ≠ 0#32 ∧ ∃ current idle, k.currentPcb = some current ∧ k.idlePcb = some idle ∧
      m' = (k.blockOn { m with lock := 1#32 } current).2 ∧
      (k.blockOn { m with lock := 1#32 } current).1.Scheduled l current idle k' ∧
      k'.Consistent l := by
  obtain ⟨current, running⟩ := consistent.current
  obtain ⟨idle, idling⟩ := consistent.idle
  by_cases free : m.lock = 0#32
  · simp only [Kernel.lockAttempt, Mutex.testAndSet, free, if_true, Option.some.injEq,
      Prod.mk.injEq] at attempt
    obtain ⟨_, rfl, rfl⟩ := attempt
    exact Or.inl ⟨free, rfl, rfl⟩
  · simp only [Kernel.lockAttempt, Mutex.testAndSet, free, if_false, running,
      Option.map_eq_some_iff, Prod.mk.injEq] at attempt
    obtain ⟨k'', scheduled, _, rfl, rfl⟩ := attempt
    have blocked := blockOn_consistent (m := { m with lock := 1#32 }) consistent current
    obtain ⟨k', result, linked, shape⟩ := blocked.schedule running idling
    obtain rfl : k' = k'' := Option.some.inj (result.symm.trans scheduled)
    refine Or.inr ⟨free, current, idle, running, idling, rfl, shape, linked, ?_, ?_, ?_⟩
    · cases shape <;> simpa using blocked.poolReady
    · cases shape <;> simp [blocked.current]
    · cases shape <;> simp [blocked.idle]

theorem scheduled_waitLinks {k k' : Kernel Slot} {l : List Slot} {current idle : Slot}
    (scheduled : k.Scheduled l current idle k') : k'.waitLinks = k.waitLinks := by
  cases scheduled <;> simp

theorem Sound.lock {k k' : Kernel Slot} {m m' : Mutex Slot} {l ws : List Slot} (h : Sound k m l ws)
    {acquired : Bool} (attempt : k.lockAttempt m = some (acquired, k', m'))
    (careful : CarefulLock k m) : ∃ ws', Sound k' m' l ws' := by
  rcases lockAttempt_cases h.consistent attempt with ⟨_, rfl, same⟩ |
    ⟨held, current, idle, running, idling, rfl, scheduled, kept⟩
  · exact ⟨ws, h.consistent, same ▸ h.reads, h.listed, h.blocked⟩
  · obtain ⟨isListed, notWaiting, spares⟩ := careful.resolve_left held current running
    have listed := (h.consistent.queue.listed current).mp isListed
    have fresh : current ∉ ws := fun member => notWaiting ((h.waits current).mpr member)
    have taken : Sound k { m with lock := 1#32 } l ws := ⟨h.consistent, h.reads, h.listed, h.blocked⟩
    refine ⟨current :: ws, (taken.block listed fresh).scheduled scheduled kept ?_⟩
    intro waiting
    rcases List.mem_cons.mp waiting with same | older
    · exact Or.inl same.symm
    · obtain ⟨b, bListed, different, isReady⟩ := spares idle idling ((h.waits idle).mpr older)
      refine Or.inr ⟨b, (h.consistent.queue.listed b).mp bListed, ?_⟩
      rw [blockOn_state, Function.update_of_ne different, isReady]

theorem Sound.lock_spoils {k k' : Kernel Slot} {m m' : Mutex Slot} {l ws : List Slot}
    (h : Sound k m l ws) {acquired : Bool} (attempt : k.lockAttempt m = some (acquired, k', m'))
    (careless : ¬ CarefulLock k m) (holder : Option Slot) :
    ¬ Intact { kernel := k', mutex := m', holder := holder } := by
  rw [CarefulLock, not_or] at careless
  rcases lockAttempt_cases h.consistent attempt with ⟨free, _⟩ |
    ⟨held, current, idle, running, idling, rfl, scheduled, kept⟩
  · exact absurd free careless.1
  · intro intact
    apply careless.2
    intro current' running'
    obtain rfl : current = current' := Option.some.inj (running.symm.trans running')
    have isListed : current ∈ l := by
      have wakes := (intact.wakes current rfl).1
      exact (kept.queue.listed current).mp wakes
    have fresh : current ∉ ws := by
      intro member
      obtain ⟨ws', reads, _⟩ := intact.list
      rw [scheduled_waitLinks scheduled, blockOn_waitLinks] at reads
      exact h.reads.not_push_again member reads
    refine ⟨(h.consistent.queue.listed current).mpr isListed,
      fun waiting => fresh ((h.waits current).mp waiting), ?_⟩
    intro idle' idling' waiting
    obtain rfl : idle = idle' := Option.some.inj (idling.symm.trans idling')
    by_contra alone
    have taken : Sound k { m with lock := 1#32 } l ws := ⟨h.consistent, h.reads, h.listed, h.blocked⟩
    have older := (h.waits idle).mp waiting
    refine (taken.block isListed fresh).spoiled scheduled (List.mem_cons_of_mem _ older) ?_ holder
      intact
    rintro (same | ⟨b, listed, isReady⟩)
    · exact fresh (same ▸ older)
    · have different : b ≠ current := by
        rintro rfl
        simp at isReady
      rw [blockOn_state, Function.update_of_ne different] at isReady
      exact alone ⟨b, (h.consistent.queue.listed b).mpr listed, different, isReady⟩

theorem Sound.unlock {k : Kernel Slot} {m : Mutex Slot} {l ws : List Slot} (h : Sound k m l ws) :
    ∃ ws', Sound (k.mutexUnlock m).1 (k.mutexUnlock m).2 l ws' := by
  cases first : m.waiters with
  | none =>
      have same : k.mutexUnlock m = (k, { m with lock := 0#32 }) := by simp [Kernel.mutexUnlock, first]
      rw [same]
      exact ⟨ws, h.consistent, h.reads, h.listed, h.blocked⟩
  | some w =>
      have popped : k.mutexUnlock m = ((k.setWaitNext w none).setState w .ready,
          { lock := 0#32, waiters := k.waitLinks w }) := by simp [Kernel.mutexUnlock, first]
      obtain ⟨rest, rfl, _⟩ := (first ▸ h.reads).head_some
      have reads : PointerList.Reads k.waitLinks (some w) (w :: rest) := first ▸ h.reads
      rw [popped]
      refine ⟨rest, ⟨?_, h.consistent.poolReady, h.consistent.current, h.consistent.idle⟩, ?_, ?_, ?_⟩
      · apply Kernel.Linked.setState _ w (by decide)
        exact h.consistent.toLinked.congr (by simp) rfl (by simp)
      · simpa using reads.pop
      · exact fun b member => h.listed b (List.mem_cons_of_mem _ member)
      · intro b member
        have different : b ≠ w := by
          rintro rfl
          exact (List.nodup_cons.mp reads.nodup).1 member
        rw [Kernel.setState_state, Function.update_of_ne different, Kernel.setWaitNext_state]
        exact h.blocked b (List.mem_cons_of_mem _ member)

theorem ensurePoolInit_waitLinks (k : Kernel Slot) : k.ensurePoolInit.waitLinks = k.waitLinks := by
  unfold Kernel.ensurePoolInit
  split
  · rfl
  · funext b
    cases b <;> rfl

theorem withThread_waitLinks (k : Kernel Slot) (tcb : Slot) (parent : Option Slot) (entryFn : U32)
    (next : Slot → Option Slot) (head : Option Slot) :
    (k.withThread tcb parent entryFn next head).waitLinks = Function.update k.waitLinks tcb none := by
  funext b
  have kept := congrFun (ensurePoolInit_waitLinks k) b
  by_cases same : b = tcb
  · simp [Kernel.waitLinks, Kernel.withThread_block, Kernel.tcbFields, same]
  · simpa [Kernel.waitLinks, Kernel.withThread_block, same] using kept

theorem Sound.ensurePoolInit {k : Kernel Slot} {m : Mutex Slot} {l ws : List Slot}
    (h : Sound k m l ws) : Sound k.ensurePoolInit m l ws := by
  refine ⟨h.consistent.ensurePoolInit, ?_, h.listed, ?_⟩
  · rw [ensurePoolInit_waitLinks]
    exact h.reads
  · intro b member
    rw [Kernel.state, h.consistent.ensurePoolInit_block (h.listed b member)]
    exact h.blocked b member

theorem Sound.release {k : Kernel Slot} {m : Mutex Slot} {l ws : List Slot} (h : Sound k m l ws)
    {b : Slot} (notWaiting : b ∉ ws) (wipe : Tcb Slot → Tcb Slot)
    (keepsState : ∀ t, (wipe t).state = t.state) (keepsWait : ∀ t, (wipe t).waitNext = t.waitNext)
    (next : Slot → Option Slot) (head : Option Slot)
    (kept : (k.released b wipe next head).Consistent (l.erase b)) :
    Sound (k.released b wipe next head) m (l.erase b) ws := by
  refine ⟨kept, ?_, ?_, ?_⟩
  · rw [Kernel.released_waitLinks k b wipe next head keepsWait]
    exact h.reads
  · intro c member
    have different : c ≠ b := fun same => notWaiting (same ▸ member)
    exact (List.mem_erase_of_ne different).mpr (h.listed c member)
  · intro c member
    have different : c ≠ b := fun same => notWaiting (same ▸ member)
    rw [Kernel.released_state k b wipe next head keepsState, Function.update_of_ne different]
    exact h.blocked c member

theorem Sound.call {k k' : Kernel Slot} {m : Mutex Slot} {l ws : List Slot} (h : Sound k m l ws)
    {op : Op} {block : Option Slot} (outcome : Kernel.Outcome k l op block k')
    (kept : k'.Consistent (op.edit block l)) (considered : admitted op = true)
    (careful : CarefulCall k m op) : Sound k' m (op.edit block l) ws := by
  cases outcome with
  | schedule current idle _ running idling scheduled =>
      refine h.scheduled scheduled kept ?_
      intro waiting
      rcases careful idle idling ((h.waits idle).mpr waiting) with same | ⟨b, listed, isReady⟩
      · exact Or.inl (Option.some.inj (running.symm.trans same))
      · exact Or.inr ⟨b, (h.consistent.queue.listed b).mp listed, isReady⟩
  | threadPoolFull => exact h.ensurePoolInit
  | threadNoStack =>
      have ready := h.ensurePoolInit
      exact ⟨kept, ready.reads, ready.listed, ready.blocked⟩
  | thread parent entryFn i next head found =>
      -- The new slot was DEAD, so it was not waiting.
      have fresh : Slot.tcb i ∉ ws := by
        intro member
        have blocked := h.ensurePoolInit.blocked _ member
        simp [(Kernel.allocTcb_some found).2] at blocked
      refine ⟨kept, ?_, fun b member => List.mem_append_left _ (h.listed b member), ?_⟩
      · rw [withThread_waitLinks]
        exact h.reads.update_outside fresh none
      · intro b member
        have different : b ≠ Slot.tcb i := fun same => fresh (same ▸ member)
        simpa [Kernel.state, Kernel.withThread_block, different] using h.ensurePoolInit.blocked b member
  | killNothing => exact h
  | kill name argument rest p next head first =>
      have notWaiting : p ∉ ws := fun member =>
        careful p ⟨l, h.consistent.queue, first⟩ ((h.waits p).mpr member)
      exact h.release notWaiting Kernel.wipeProcess (fun _ => rfl) (fun _ => rfl) next head kept
  | deleteNothing => exact h.ensurePoolInit
  | delete tid i next head first =>
      have notWaiting : Slot.tcb i ∉ ws := fun member =>
        careful (.tcb i) ⟨i, rfl, first⟩ ((h.waits _).mpr member)
      exact h.ensurePoolInit.release notWaiting Kernel.wipeThread (fun _ => rfl) (fun _ => rfl) next
        head kept
  | _ => simp [admitted] at considered

theorem Sound.call_spoils {k k' : Kernel Slot} {m : Mutex Slot} {l ws : List Slot}
    (h : Sound k m l ws) {op : Op} {block : Option Slot} (outcome : Kernel.Outcome k l op block k')
    (careless : ¬ CarefulCall k m op) (holder : Option Slot) :
    ¬ Intact { kernel := k', mutex := m, holder := holder } := by
  by_cases isSchedule : op = .schedule
  · subst isSchedule
    cases outcome with
    | schedule current idle _ running idling scheduled =>
        simp only [CarefulCall, not_forall] at careless
        obtain ⟨idle', idling', waiting, needed⟩ := careless
        obtain rfl : idle = idle' := Option.some.inj (idling.symm.trans idling')
        refine h.spoiled scheduled ((h.waits idle).mp waiting) ?_ holder
        rintro (same | ⟨b, listed, isReady⟩)
        · exact needed (Or.inl (same ▸ running))
        · exact needed (Or.inr ⟨b, (h.consistent.queue.listed b).mpr listed, isReady⟩)
  · have named : ∃ b, k.Names op b ∧ Waits k m b := by
      cases op <;> simp_all [CarefulCall]
    obtain ⟨b, isNamed, waiting⟩ := named
    have dead := (outcome.names_dead h.consistent.queue isNamed).1
    have links : k'.waitLinks = k.waitLinks := by
      obtain ⟨wipe, next, head, _, keepsWait, rfl | rfl⟩ :=
        outcome.released_of_names h.consistent.queue isNamed
      · exact Kernel.released_waitLinks k b wipe next head keepsWait
      · rw [Kernel.released_waitLinks _ b wipe next head keepsWait, ensurePoolInit_waitLinks]
    rintro ⟨⟨ws', reads, _, entries⟩, _⟩
    have same : ws' = ws := reads.unique (links ▸ h.reads)
    have blocked := (entries b (same ▸ (h.waits b).mp waiting)).2
    exact absurd (dead.symm.trans blocked) (by decide)

def Held (s : Shared) : Prop := ∃ l ws, Sound s.kernel s.mutex l ws

theorem carefulCall_withEsp {k : Kernel Slot} {m : Mutex Slot} {op : Op} (esp : U32) :
    CarefulCall { k with esp := esp } m op ↔ CarefulCall k m op := by
  constructor
  · intro careful
    cases op with
    | schedule => exact careful
    | _ => exact fun b named => careful b (named.withEsp esp)
  · intro careful
    cases op with
    | schedule => exact careful
    | _ => exact fun b named => careful b (named.withEsp k.esp)

theorem Held.step {s t : Shared} {e : Event} (h : Held s) (careful : Careful s e)
    (taken : Step s e t) : Held t := by
  obtain ⟨l, ws, sound⟩ := h
  obtain ⟨action, esp⟩ := e
  have placed := sound.withEsp esp
  cases action with
  | lock =>
      obtain ⟨⟨acquired, k', m'⟩, attempt, rfl⟩ := Option.map_eq_some_iff.mp taken
      obtain ⟨ws', kept⟩ := placed.lock attempt careful
      exact ⟨l, ws', kept⟩
  | unlock =>
      simp only [Step, WaitList.step] at taken
      split at taken
      next =>
        obtain rfl := Option.some.inj taken
        obtain ⟨ws', kept⟩ := placed.unlock
        exact ⟨l, ws', kept⟩
      next => cases taken
  | call op =>
      simp only [Step, WaitList.step] at taken
      split at taken
      next considered =>
        obtain ⟨⟨block, k'⟩, ran, rfl⟩ := Option.map_eq_some_iff.mp taken
        obtain ⟨outcome, kept⟩ := placed.consistent.performed ran
        exact ⟨_, ws, placed.call outcome kept considered ((carefulCall_withEsp esp).mpr careful)⟩
      next => cases taken

theorem Held.spoiled {s t : Shared} {e : Event} (h : Held s) (careless : ¬ Careful s e)
    (taken : Step s e t) : ¬ Intact t := by
  obtain ⟨l, ws, sound⟩ := h
  obtain ⟨action, esp⟩ := e
  have placed := sound.withEsp esp
  cases action with
  | lock =>
      obtain ⟨⟨acquired, k', m'⟩, attempt, rfl⟩ := Option.map_eq_some_iff.mp taken
      exact placed.lock_spoils attempt careless _
  | unlock => exact absurd trivial careless
  | call op =>
      simp only [Step, WaitList.step] at taken
      split at taken
      next =>
        obtain ⟨⟨block, k'⟩, ran, rfl⟩ := Option.map_eq_some_iff.mp taken
        refine placed.call_spoils (placed.consistent.performed ran).1 ?_ _
        exact fun careful => careless ((carefulCall_withEsp esp).mp careful)
      next => cases taken

def booted (k : Kernel Slot) : Shared := { kernel := k, mutex := mutexInit, holder := none }

theorem held_booted {pmm : Pmm} {esp idleTask : U32} {memory : U32 → U32} {k : Kernel Slot}
    (initialized : (Kernel.bss pmm esp memory).schedulerInit idleTask = some k) :
    Held (booted k) := by
  obtain ⟨i, next, head, _, _, consistent⟩ := Kernel.schedulerInit_spec initialized
  exact ⟨_, [], consistent, rfl, by simp, by simp⟩

/--
In every run after `scheduler_init` and `mutex_init`, the wait list stays intact
throughout exactly when every step is careful.
-/
theorem always_intact_iff (pmm : Pmm) (esp idleTask : U32) (memory : U32 → U32) (k : Kernel Slot)
    (initialized : (Kernel.bss pmm esp memory).schedulerInit idleTask = some k)
    (events : List Event) :
    Transition.Always Step Intact (booted k) events ↔
      Transition.Meets Step Careful (booted k) events := by
  refine Transition.always_iff_meets ?_ (fun _ _ _ h careful taken => h.step careful taken)
    (fun _ _ _ h careless taken => h.spoiled careless taken) (held_booted initialized) events
  rintro s ⟨l, ws, sound⟩
  exact sound.intact

def waiting : List Event :=
  [⟨.call (.createThread none 0x100300#32), 0x10FF00#32⟩,
    ⟨.call (.createThread none 0x100300#32), 0x10FF00#32⟩,
    ⟨.call .schedule, 0x10FF00#32⟩,
    ⟨.lock, 0x201F00#32⟩,
    ⟨.call .schedule, 0x201F00#32⟩,
    ⟨.lock, 0x202F00#32⟩]

-- `l` is the run queue whenever `mutex_lock` is called.
def calm (l : List Slot) (s : Shared) (e : Event) : Bool :=
  s.kernel.idlePcb.map s.kernel.state ≠ some .blocked &&
    match e.action with
    | .lock => s.kernel.Queue l ∧
        s.kernel.currentPcb.all fun c => c ∈ l ∧ s.kernel.state c ≠ .blocked
    | .unlock => true
    | .call op => match op with
        | .killprocess _ | .threadDelete _ => false
        | _ => true

theorem Held.careful_of_calm {s : Shared} (h : Held s) {e : Event} {l : List Slot}
    (quiet : calm l s e = true) : Careful s e := by
  obtain ⟨_, ws, sound⟩ := h
  obtain ⟨action, esp⟩ := e
  have awake {b : Slot} (notBlocked : s.kernel.state b ≠ .blocked) :
      ¬ Waits s.kernel s.mutex b := fun waits =>
    notBlocked (sound.blocked b ((sound.waits b).mp waits))
  rw [calm, Bool.and_eq_true, decide_eq_true_eq] at quiet
  obtain ⟨idleAwake, quiet⟩ := quiet
  have idleAwake (idle : Slot) (idling : s.kernel.idlePcb = some idle) :
      ¬ Waits s.kernel s.mutex idle := by
    apply awake
    rw [idling] at idleAwake
    exact fun blocked => idleAwake (congrArg some blocked)
  cases action with
  | lock =>
      simp only [decide_eq_true_eq] at quiet
      obtain ⟨queue, own⟩ := quiet
      refine Or.inr fun current running => ?_
      rw [running, Option.all_some, decide_eq_true_eq] at own
      exact ⟨⟨_, queue, own.1⟩, awake own.2, fun idle idling waits =>
        absurd waits (idleAwake idle idling)⟩
  | unlock => trivial
  | call op =>
      cases op with
      | schedule => exact fun idle idling waits => absurd waits (idleAwake idle idling)
      | killprocess argv => cases quiet
      | threadDelete tid => cases quiet
      | _ => exact fun b named => named.elim

def lockContended : List Event := waiting ++ [⟨.call .schedule, 0x10FF00#32⟩, ⟨.unlock, 0x201F00#32⟩]

theorem always_intact_smallBoot :
    ∃ k s, smallBoot = some k ∧ waiting.foldlM step (booted k) = some s ∧
      s.mutex.waiters = some (.tcb 1) ∧
      Transition.Meets Step Careful (booted k) lockContended ∧
      Transition.Always Step Intact (booted k) lockContended := by
  have evaluated : (smallBoot.bind fun k => (waiting.foldlM step (booted k)).bind fun s =>
      (lockContended.foldlM (fun s e =>
        if calm [.pcb 0, .tcb 0, .tcb 1] s e = true then step s e else none)
        (booted k)).map fun t => (s.mutex.waiters, t.kernel.state (.tcb 1))) =
          some (some (.tcb 1), .ready) := by
    decide +kernel
  obtain ⟨k, initialized, afterBoot⟩ := Option.bind_eq_some_iff.mp evaluated
  obtain ⟨s, ran, afterLock⟩ := Option.bind_eq_some_iff.mp afterBoot
  obtain ⟨t, ran', values⟩ := Option.map_eq_some_iff.mp afterLock
  have met : Transition.Meets Step Careful (booted k) lockContended :=
    Transition.Meets.of_checked (fun _ _ h => h.careful_of_calm)
      (fun _ _ _ h careful taken => h.step careful taken) (held_booted initialized) (.of_run ran')
  exact ⟨k, s, initialized, ran, (Prod.mk.inj values).1, met,
    (always_intact_iff _ _ _ _ k initialized _).mpr met⟩

def deleteWaiting : List Event := waiting ++ [⟨.call (.threadDelete 2#32), 0x10FF00#32⟩]

theorem not_always_intact_deleteWaiting :
    ∃ k, smallBoot = some k ∧ ¬ Transition.Always Step Intact (booted k) deleteWaiting := by
  have evaluated : (smallBoot.bind fun k => (deleteWaiting.foldlM step (booted k)).map fun s =>
      (s.mutex.waiters, s.kernel.currentPcb, s.kernel.state (.tcb 1))) =
      some (some (.tcb 1), some (.pcb 0), .dead) := by
    decide +kernel
  obtain ⟨k, initialized, afterBoot⟩ := Option.bind_eq_some_iff.mp evaluated
  obtain ⟨s, ran, values⟩ := Option.map_eq_some_iff.mp afterBoot
  simp only [Prod.mk.injEq] at values
  refine ⟨k, initialized, fun always => ?_⟩
  have blocked := (always.of_run ran).wakes (.tcb 1) values.1
  rw [values.2.2] at blocked
  exact absurd blocked.2 (by decide)

end SoraOS.WaitList
