import SoraOS.Scheduler.Calls
import SoraOS.Shared.Transition

set_option autoImplicit false

namespace SoraOS.Irq

inductive Stage where
  -- `timer_handler` has not called `schedule()` yet
  | timerHandler
  -- `timer_handler` has returned to `common_isr_handler`
  | picSendEoi
  -- `common_isr_stub` is about to restore the interrupted EFLAGS
  | iret
  deriving DecidableEq

/-- An interrupt frame; `savedIf` is the IF bit of the EFLAGS that the CPU pushed. -/
structure Frame where
  stage : Stage
  savedIf : Bool
  deriving DecidableEq

inductive Resume where
  | fresh
  | voluntary
  | interrupted (frames : List Frame)
  deriving DecidableEq

structure Machine where
  kernel : Kernel Slot
  ifFlag : Bool
  inService : Bool
  frames : List Frame
  resume : Slot → Resume

/-- No process executes `cli`. -/
inductive Event where
  | createProcess (entryFn : U32) (priority : U8)
  | yield
  | irq
  | timerHandler
  | picSendEoi
  | iret

/-- A fresh process starts at `entry_fn`, without the tail of the handler that dispatched it. -/
def Resume.frames : Resume → List Frame
  | .fresh | .voluntary => []
  | .interrupted frames => frames

def reschedule (m : Machine) (place : Resume) : Option Machine := do
  let k ← m.kernel.schedule
  let old ← m.kernel.currentPcb
  let next ← k.currentPcb
  if next = old then return { m with kernel := k, frames := place.frames }
  else
    return { m with
      kernel := k
      resume := Function.update m.resume old place
      frames := (m.resume next).frames }

def step (m : Machine) : Event → Option Machine
  | .createProcess entryFn priority =>
      match m.frames with
      | [] => (m.kernel.createProcess entryFn priority).map fun r =>
          { m with
            kernel := r.2
            resume := match r.1 with
              | some pcb => Function.update m.resume pcb .fresh
              | none => m.resume }
      | _ :: _ => none
  | .yield =>
      match m.frames with
      | [] => reschedule m .voluntary
      | _ :: _ => none
  -- An interrupt gate clears IF; the PIC holds IRQ0 back while it is in service.
  | .irq =>
      if m.ifFlag && !m.inService then
        some { m with
          ifFlag := false
          inService := true
          frames := { stage := .timerHandler, savedIf := m.ifFlag } :: m.frames }
      else none
  | .timerHandler =>
      match m.frames with
      | ⟨.timerHandler, savedIf⟩ :: rest => reschedule m (.interrupted (⟨.picSendEoi, savedIf⟩ :: rest))
      | _ => none
  | .picSendEoi =>
      match m.frames with
      | ⟨.picSendEoi, savedIf⟩ :: rest =>
          some { m with inService := false, frames := ⟨.iret, savedIf⟩ :: rest }
      | _ => none
  | .iret =>
      match m.frames with
      | ⟨.iret, savedIf⟩ :: rest => some { m with ifFlag := savedIf, frames := rest }
      | _ => none

def Step (m : Machine) (e : Event) (m' : Machine) : Prop := step m e = some m'

def Preemptible (m : Machine) : Prop := m.frames = [] → m.ifFlag = true ∧ m.inService = false

def Picks (k : Kernel Slot) (next : Slot) : Prop :=
  ∃ l current, k.Queue l ∧ k.currentPcb = some current ∧ next ≠ current ∧
    ((Kernel.successors l current).find? (fun p => k.state p = .ready) = some next ∨
      (∀ b ∈ l, k.state b ≠ .ready) ∧ k.idlePcb = some next)

/-- The timer hands the CPU only to contexts that were last suspended inside their own interrupt. -/
def ResumesInterrupted (m : Machine) : Event → Prop
  | .timerHandler => ∀ next, Picks m.kernel next → ∃ frames, m.resume next = .interrupted frames
  | _ => True

def Below (frames : List Frame) : Prop :=
  ∀ f ∈ frames, f.stage ≠ .timerHandler ∧ f.savedIf = true

def Coherent (ifFlag inService : Bool) : List Frame → Prop
  | [] => ifFlag = true ∧ inService = false
  | ⟨.timerHandler, savedIf⟩ :: rest =>
      ifFlag = false ∧ inService = true ∧ savedIf = true ∧ Below rest
  | ⟨.picSendEoi, savedIf⟩ :: rest =>
      (ifFlag = true → inService = false) ∧ savedIf = true ∧ Below rest
  | ⟨.iret, savedIf⟩ :: rest => inService = false ∧ savedIf = true ∧ Below rest

def Suspended (frames : List Frame) : Prop :=
  ∃ rest, frames = ⟨.picSendEoi, true⟩ :: rest ∧ Below rest

theorem Coherent.below {inService : Bool} {frames : List Frame} (h : Coherent true inService frames) :
    Below frames := by
  -- With IF set, no `timer_handler` is running.
  match frames, h with
  | [], _ => simp [Below]
  | ⟨.picSendEoi, _⟩ :: _, ⟨_, saved, below⟩ =>
      simpa [Below, saved] using below
  | ⟨.iret, _⟩ :: _, ⟨_, saved, below⟩ =>
      simpa [Below, saved] using below

theorem Below.coherent {frames : List Frame} (h : Below frames) : Coherent true false frames := by
  match frames with
  | [] => exact ⟨rfl, rfl⟩
  | f :: rest =>
      have rest' : Below rest := fun g member => h g (List.mem_cons_of_mem _ member)
      obtain ⟨notHandler, saved⟩ := h f List.mem_cons_self
      obtain ⟨stage, savedIf⟩ := f
      cases stage with
      | timerHandler => exact absurd rfl notHandler
      | picSendEoi => exact ⟨fun _ => rfl, saved, rest'⟩
      | iret => exact ⟨rfl, saved, rest'⟩

structure Sound (m : Machine) : Prop where
  consistent : ∃ l, m.kernel.Consistent l
  coherent : Coherent m.ifFlag m.inService m.frames
  suspended : ∀ b frames, m.resume b = .interrupted frames → Suspended frames

theorem Sound.preemptible {m : Machine} (h : Sound m) : Preemptible m := by
  intro own
  simpa [own, Coherent] using h.coherent

theorem Suspended.coherent {frames : List Frame} (h : Suspended frames) {ifFlag inService : Bool}
    (acknowledged : ifFlag = true → inService = false) : Coherent ifFlag inService frames := by
  obtain ⟨rest, rfl, below⟩ := h
  exact ⟨acknowledged, rfl, below⟩

theorem Picks.unique {k k' : Kernel Slot} {l : List Slot} {current idle : Slot} (queue : k.Queue l)
    (running : k.currentPcb = some current) (idling : k.idlePcb = some idle)
    (scheduled : k.Scheduled l current idle k') {next : Slot} (picked : Picks k next) :
    k' = k.switchTo current next := by
  obtain ⟨l', current', queue', running', different, chosen⟩ := picked
  obtain rfl : l = l' := queue.unique queue'
  obtain rfl : current = current' := Option.some.inj (running.symm.trans running')
  have listed (found : (Kernel.successors l current).find? (fun p => k.state p = .ready) = some next) :
      next ∈ l ∧ k.state next = .ready :=
    ⟨Kernel.mem_successors.mp (List.mem_of_find?_eq_some found), by simpa using List.find?_some found⟩
  rcases chosen with found | ⟨nobody, isIdle⟩
  · cases scheduled with
    | idles _ nobody => exact absurd (listed found).2 (nobody next (listed found).1)
    | itself _ _ first => exact absurd (Option.some.inj (found.symm.trans first)) different
    | ready next' _ _ _ first => rw [Option.some.inj (found.symm.trans first)]
    | fallback _ nobody => exact absurd (listed found).2 (nobody next (listed found).1)
  · obtain rfl : idle = next := Option.some.inj (idling.symm.trans isIdle)
    cases scheduled with
    | idles same => exact absurd same.symm different
    | itself member isReady => exact absurd isReady (nobody current member)
    | ready next' _ member isReady => exact absurd isReady (nobody next' member)
    | fallback => rfl

theorem Sound.reschedule_cases {m m' : Machine} (h : Sound m) {place : Resume}
    (ran : reschedule m place = some m') :
    (∃ l, m'.kernel.Consistent l) ∧ m'.ifFlag = m.ifFlag ∧ m'.inService = m.inService ∧
      ((∀ next, ¬ Picks m.kernel next) ∧ m'.resume = m.resume ∧ m'.frames = place.frames ∨
        ∃ old next, (∀ n, Picks m.kernel n ↔ n = next) ∧
          m'.resume = Function.update m.resume old place ∧ m'.frames = (m.resume next).frames) := by
  obtain ⟨l, consistent⟩ := h.consistent
  obtain ⟨block, k', performed, outcome, kept⟩ := consistent.perform .schedule
  cases outcome with
  | schedule current idle _ running idling scheduled =>
      have result : m.kernel.schedule = some k' := by
        simpa [Kernel.perform] using performed
      have only (n : Slot) (picked : Picks m.kernel n) : k' = m.kernel.switchTo current n :=
        picked.unique consistent.queue running idling scheduled
      simp only [reschedule, result, running, Option.bind_eq_bind, Option.bind_some] at ran
      by_cases stays : k'.currentPcb = some current
      · simp only [stays, Option.bind_some, if_true, Option.pure_def, Option.some.injEq] at ran
        subst ran
        refine ⟨⟨l, kept⟩, rfl, rfl, Or.inl ⟨?_, rfl, rfl⟩⟩
        intro n picked
        rw [only n picked, Kernel.switchTo_currentPcb] at stays
        obtain ⟨_, current', _, running', different, _⟩ := picked
        obtain rfl : current = current' := Option.some.inj (running.symm.trans running')
        exact different (Option.some.inj stays)
      · have picks : ∃ next, Picks m.kernel next := by
          cases scheduled with
          | idles => exact absurd running stays
          | itself => exact absurd running stays
          | ready next different _ _ first =>
              exact ⟨next, l, current, consistent.queue, running, different, Or.inl first⟩
          | fallback different nobody =>
              exact ⟨idle, l, current, consistent.queue, running, different, Or.inr ⟨nobody, idling⟩⟩
        obtain ⟨next, picked⟩ := picks
        obtain rfl := only next picked
        have moved : next ≠ current := fun same => stays (by simp [same])
        simp only [Kernel.switchTo_currentPcb, Option.bind_some, moved, if_false, Option.pure_def,
          Option.some.injEq] at ran
        subst ran
        refine ⟨⟨l, kept⟩, rfl, rfl, Or.inr ⟨current, next, fun n => ⟨fun other => ?_, ?_⟩, rfl, rfl⟩⟩
        · have same := congrArg Kernel.currentPcb (only n other)
          simpa using same.symm
        · rintro rfl
          exact picked

theorem suspended_update {resume : Slot → Resume} {old : Slot} {place : Resume}
    (suspended : ∀ b frames, resume b = .interrupted frames → Suspended frames)
    (placed : ∀ frames, place = .interrupted frames → Suspended frames) (b : Slot)
    (frames : List Frame) (at_ : Function.update resume old place b = .interrupted frames) :
    Suspended frames := by
  by_cases same : b = old
  · subst same
    exact placed frames (by simpa using at_)
  · rw [Function.update_of_ne same] at at_
    exact suspended b frames at_

theorem Sound.yield {m m' : Machine} (h : Sound m) (own : m.frames = [])
    (ran : reschedule m .voluntary = some m') : Sound m' := by
  obtain ⟨enabled, acknowledged⟩ := h.preemptible own
  obtain ⟨consistent, ifSame, serviceSame, stay | ⟨old, next, _, resumed, frames⟩⟩ :=
    h.reschedule_cases ran
  · obtain ⟨_, resumed, frames⟩ := stay
    refine ⟨consistent, ?_, resumed ▸ h.suspended⟩
    rw [ifSame, serviceSame, frames]
    exact ⟨enabled, acknowledged⟩
  · refine ⟨consistent, ?_, ?_⟩
    · rw [ifSame, serviceSame, frames]
      cases place : m.resume next with
      | fresh => exact ⟨enabled, acknowledged⟩
      | voluntary => exact ⟨enabled, acknowledged⟩
      | interrupted fs => exact (h.suspended next fs place).coherent fun _ => acknowledged
    · rw [resumed]
      exact suspended_update h.suspended (by simp)

theorem Sound.timerHandler {m m' : Machine} (h : Sound m) {savedIf : Bool} {rest : List Frame}
    (handling : m.frames = ⟨.timerHandler, savedIf⟩ :: rest)
    (careful : ResumesInterrupted m .timerHandler)
    (ran : reschedule m (.interrupted (⟨.picSendEoi, savedIf⟩ :: rest)) = some m') : Sound m' := by
  have coherent := h.coherent
  rw [handling] at coherent
  obtain ⟨disabled, _, rfl, below⟩ := coherent
  have masked (on : m.ifFlag = true) : m.inService = false := by simp [disabled] at on
  have placed : Suspended (⟨.picSendEoi, true⟩ :: rest) := ⟨rest, rfl, below⟩
  obtain ⟨consistent, ifSame, serviceSame, stay | ⟨old, next, picks, resumed, frames⟩⟩ :=
    h.reschedule_cases ran
  · obtain ⟨_, resumed, frames⟩ := stay
    refine ⟨consistent, ?_, resumed ▸ h.suspended⟩
    rw [ifSame, serviceSame, frames]
    exact placed.coherent masked
  · obtain ⟨fs, place⟩ := careful next ((picks next).mpr rfl)
    refine ⟨consistent, ?_, ?_⟩
    · rw [ifSame, serviceSame, frames, place]
      exact (h.suspended next fs place).coherent masked
    · rw [resumed]
      refine suspended_update h.suspended ?_
      rintro _ ⟨⟩
      exact placed

theorem Sound.step {m m' : Machine} {e : Event} (h : Sound m) (careful : ResumesInterrupted m e)
    (taken : Step m e m') : Sound m' := by
  have coherent := h.coherent
  cases e with
  | createProcess entryFn priority =>
      simp only [Step, Irq.step] at taken
      split at taken
      next =>
        obtain ⟨⟨block, k'⟩, created, rfl⟩ := Option.map_eq_some_iff.mp taken
        obtain ⟨l, consistent⟩ := h.consistent
        have ran : m.kernel.perform (.createProcess entryFn priority) = some (block, k') := created
        have kept := (consistent.performed ran).2
        refine ⟨⟨_, kept⟩, h.coherent, ?_⟩
        cases block with
        | none => exact h.suspended
        | some pcb => exact suspended_update h.suspended (by simp)
      next => cases taken
  | yield =>
      simp only [Step, Irq.step] at taken
      split at taken
      next own => exact h.yield own taken
      next => cases taken
  | irq =>
      simp only [Step, Irq.step] at taken
      split at taken
      next deliverable =>
        simp only [Bool.and_eq_true, Bool.not_eq_true'] at deliverable
        obtain rfl := Option.some.inj taken
        rw [deliverable.1] at coherent
        exact ⟨h.consistent, ⟨rfl, rfl, deliverable.1, coherent.below⟩, h.suspended⟩
      next => cases taken
  | timerHandler =>
      simp only [Step, Irq.step] at taken
      split at taken
      next savedIf rest handling => exact h.timerHandler handling careful taken
      next => cases taken
  | picSendEoi =>
      simp only [Step, Irq.step] at taken
      split at taken
      next savedIf rest handling =>
        obtain rfl := Option.some.inj taken
        rw [handling] at coherent
        exact ⟨h.consistent, ⟨rfl, coherent.2⟩, h.suspended⟩
      next => cases taken
  | iret =>
      simp only [Step, Irq.step] at taken
      split at taken
      next savedIf rest handling =>
        obtain rfl := Option.some.inj taken
        rw [handling] at coherent
        obtain ⟨acknowledged, rfl, below⟩ := coherent
        refine ⟨h.consistent, ?_, h.suspended⟩
        rw [acknowledged]
        exact below.coherent
      next => cases taken

theorem Sound.not_preemptible {m m' : Machine} {e : Event} (h : Sound m)
    (careless : ¬ ResumesInterrupted m e) (taken : Step m e m') : ¬ Preemptible m' := by
  cases e with
  | timerHandler =>
      simp only [Step, Irq.step] at taken
      split at taken
      next savedIf rest handling =>
        have coherent := h.coherent
        rw [handling] at coherent
        simp only [ResumesInterrupted, not_forall] at careless
        obtain ⟨next, picked, notInterrupted⟩ := careless
        obtain ⟨_, ifSame, _, stay | ⟨old, next', picks, _, frames⟩⟩ := h.reschedule_cases taken
        · exact absurd picked (stay.1 next)
        · obtain rfl := (picks next).mp picked
          have own : m'.frames = [] := by
            rw [frames]
            cases place : m.resume next with
            | fresh => rfl
            | voluntary => rfl
            | interrupted fs => exact absurd ⟨fs, place⟩ notInterrupted
          intro preemptible
          have enabled := (preemptible own).1
          rw [ifSame, coherent.1] at enabled
          cases enabled
      next => cases taken
  | _ => exact absurd trivial careless

def booted (k : Kernel Slot) : Machine where
  kernel := k
  ifFlag := true
  inService := false
  frames := []
  resume := fun _ => .fresh

theorem sound_booted {pmm : Pmm} {esp idleTask : U32} {memory : U32 → U32} {k : Kernel Slot}
    (initialized : (Kernel.bss pmm esp memory).schedulerInit idleTask = some k) :
    Sound (booted k) := by
  obtain ⟨i, next, head, _, _, consistent⟩ := Kernel.schedulerInit_spec initialized
  exact ⟨⟨_, consistent⟩, ⟨rfl, rfl⟩, by simp [booted]⟩

/--
In every run of creations, voluntary `schedule()` calls and timer interrupts, every context
runs its own code with IRQ0 acknowledged and IF set exactly when the timer hands the CPU
only to contexts that were last suspended inside their own timer interrupt.
-/
theorem always_preemptible_iff (pmm : Pmm) (esp idleTask : U32) (memory : U32 → U32)
    (k : Kernel Slot) (initialized : (Kernel.bss pmm esp memory).schedulerInit idleTask = some k)
    (events : List Event) :
    Transition.Always Step Preemptible (booted k) events ↔
      Transition.Meets Step ResumesInterrupted (booted k) events :=
  Transition.always_iff_meets (fun _ h => h.preemptible)
    (fun _ _ _ h careful taken => h.step careful taken)
    (fun _ _ _ h careless taken => h.not_preemptible careless taken) (sound_booted initialized)
    events

def stays (m : Machine) : Event → Bool
  | .timerHandler => m.kernel.schedule.bind Kernel.currentPcb = m.kernel.currentPcb
  | _ => true

theorem Sound.resumes_of_stays {m : Machine} (h : Sound m) {e : Event} (same : stays m e = true) :
    ResumesInterrupted m e := by
  cases e with
  | timerHandler =>
      intro next picked
      obtain ⟨l, consistent⟩ := h.consistent
      obtain ⟨block, k', performed, outcome, -⟩ := consistent.perform .schedule
      cases outcome with
      | schedule current idle _ running idling scheduled =>
          have result : m.kernel.schedule = some k' := by
            simpa [Kernel.perform] using performed
          have moved := picked.unique consistent.queue running idling scheduled
          obtain ⟨_, current', _, running', different, -⟩ := picked
          obtain rfl := Option.some.inj (running.symm.trans running')
          rw [stays, decide_eq_true_eq, result, running, Option.bind_some, moved,
            Kernel.switchTo_currentPcb] at same
          exact absurd (Option.some.inj same) different
  | _ => trivial

-- A tick while idle is alone, then a new process gives the CPU back by itself.
def tickThenYield : List Event :=
  [.irq, .timerHandler, .picSendEoi, .iret, .createProcess 0x100200#32 1#8, .yield, .yield]

theorem always_preemptible_smallBoot :
    ∃ k m, smallBoot = some k ∧ tickThenYield.foldlM step (booted k) = some m ∧
      m.kernel.currentPcb = some (.pcb 0) ∧
      Transition.Meets Step ResumesInterrupted (booted k) tickThenYield ∧
      Transition.Always Step Preemptible (booted k) tickThenYield := by
  have evaluated : (smallBoot.bind fun k => (tickThenYield.foldlM (fun m e =>
      if stays m e = true then step m e else none) (booted k)).map fun m => m.kernel.currentPcb) =
        some (some (.pcb 0)) := by
    decide +kernel
  obtain ⟨k, initialized, afterBoot⟩ := Option.bind_eq_some_iff.mp evaluated
  obtain ⟨m, ran, running⟩ := Option.map_eq_some_iff.mp afterBoot
  have met : Transition.Meets Step ResumesInterrupted (booted k) tickThenYield :=
    Transition.Meets.of_checked (fun _ _ h => h.resumes_of_stays)
      (fun _ _ _ h careful taken => h.step careful taken) (sound_booted initialized) (.of_run ran)
  exact ⟨k, m, initialized, Transition.run_of_guarded ran, running, met,
    (always_preemptible_iff _ _ _ _ k initialized _).mpr met⟩

/-- The first tick after a `create_process` starts the new process inside the handler. -/
def tickAfterCreate : List Event := [.createProcess 0x100200#32 1#8, .irq, .timerHandler]

theorem not_always_preemptible_tickAfterCreate :
    ∃ k, smallBoot = some k ∧ ¬ Transition.Always Step Preemptible (booted k) tickAfterCreate := by
  have evaluated : (smallBoot.bind fun k => (tickAfterCreate.foldlM step (booted k)).map fun m =>
      (m.kernel.currentPcb, m.frames, m.ifFlag, m.inService)) =
      some (some (.pcb 1), [], false, true) := by
    decide +kernel
  obtain ⟨k, initialized, afterBoot⟩ := Option.bind_eq_some_iff.mp evaluated
  obtain ⟨m, ran, values⟩ := Option.map_eq_some_iff.mp afterBoot
  simp only [Prod.mk.injEq] at values
  refine ⟨k, initialized, fun always => ?_⟩
  have enabled := ((always.of_run ran) values.2.1).1
  rw [values.2.2.1] at enabled
  cases enabled

end SoraOS.Irq
