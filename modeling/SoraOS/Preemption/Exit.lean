import SoraOS.Scheduler.Stacks

set_option autoImplicit false

namespace SoraOS.Exit

inductive ExitPc where
  | readCurrent
  | setDead
  | dequeue
  | freePage
  | clearPid
  | clearStackBase
  | clearEsp
  | setCurrent
  | setIdleRunning
  | contextSwitch
  | returned
  deriving DecidableEq

structure Machine where
  kernel : Kernel Slot
  pc : ExitPc
  dying : Option Slot
  -- whether the exiting context has the CPU, and the block whose saved ESP continues it if not
  running : Bool
  home : Option Slot
  -- history: its block was handed out again; how many pages `pmm_free_page` gave back
  recycled : Bool
  frees : Nat

inductive Event where
  | statement
  | schedule
  | createProcess (entryFn : U32) (priority : U8)

def statement (m : Machine) : Option Machine :=
  match m.pc with
  | .readCurrent => some { m with dying := m.kernel.currentPcb, pc := .setDead }
  | .setDead => m.dying.map fun p => { m with kernel := m.kernel.setState p .dead, pc := .dequeue }
  | .dequeue => do
      let p ← m.dying
      let k ← m.kernel.dequeue p
      return { m with kernel := k, pc := .freePage }
  | .freePage => m.dying.map fun p =>
      let pmm := m.kernel.pmm.pmmFreePage (m.kernel.stackBase p)
      { m with
        kernel := { m.kernel with pmm := pmm }
        frees := m.frees + (pmm.freeSet \ m.kernel.pmm.freeSet).card
        pc := .clearPid }
  | .clearPid => m.dying.map fun p =>
      { m with kernel := m.kernel.modify p fun t => { t with pid := 0#32 }, pc := .clearStackBase }
  | .clearStackBase => m.dying.map fun p =>
      { m with kernel := m.kernel.modify p fun t => { t with stackBase := 0#32 }, pc := .clearEsp }
  | .clearEsp => m.dying.map fun p =>
      { m with kernel := m.kernel.modify p fun t => { t with esp := 0#32 }, pc := .setCurrent }
  | .setCurrent =>
      some { m with
        kernel := { m.kernel with currentPcb := m.kernel.idlePcb }
        pc := .setIdleRunning }
  | .setIdleRunning => m.kernel.idlePcb.map fun idle =>
      { m with kernel := m.kernel.setState idle .running, pc := .contextSwitch }
  | .contextSwitch => do
      let p ← m.dying
      let idle ← m.kernel.idlePcb
      -- Idle's saved ESP may point into this very stack, at frames that are gone by now.
      if m.home = some idle then none
      else return { m with
        kernel := m.kernel.contextSwitch p idle
        pc := .returned
        running := false
        home := some p }
  | .returned => none

/-- `schedule()`, in a timer interrupt of the exiting context or called by another one. -/
def reschedule (m : Machine) : Option Machine := do
  let k ← m.kernel.schedule
  let old ← m.kernel.currentPcb
  let next ← k.currentPcb
  if next = old then return { m with kernel := k }
  else if m.running then return { m with kernel := k, running := false, home := some old }
  else return { m with kernel := k, running := m.home = some next }

def step (m : Machine) : Event → Option Machine
  | .statement => if m.running then statement m else none
  | .schedule => reschedule m
  | .createProcess entryFn priority =>
      if m.running then none
      else (m.kernel.createProcess entryFn priority).map fun r =>
        -- A new process in the block overwrites the saved ESP.
        { m with
          kernel := r.2
          home := if r.1 = m.home then none else m.home
          recycled := m.recycled || (r.1.isSome && r.1 = m.dying) }

def Step (m : Machine) (e : Event) (m' : Machine) : Prop := step m e = some m'

structure QueueIntact (init : Pmm) (k : Kernel Slot) (l : List Slot) : Prop where
  queue : k.Queue l
  nodup : l.Nodup
  live : ∀ b ∈ l, k.state b ≠ .dead
  pages : init.freeSet \ k.pmm.freeSet = (l.map k.stackPage).toFinset
  distinct : (l.map k.stackPage).Nodup
  unlinkedOnly : ∀ entryFn priority b k', k.createProcess entryFn priority = some (some b, k') → b ∉ l

/--
While others run, the exit of `p` has either not begun, and `schedule()` will continue it, or
`p` is off the queue and its page was freed once.
-/
def AllOrNothing (init : Pmm) (p : Slot) (m : Machine) : Prop :=
  m.running = false → ∃ l, QueueIntact init m.kernel l ∧
    (m.frees = 0 ∧ p ∈ l ∧ m.kernel.state p = .ready ∧ m.home = some p ∨
      m.frees = 1 ∧ (p ∉ l ∨ m.recycled = true))

/--
No tick arrives between `dying->state = PROCESS_DEAD` and the end of `pmm_free_page`, and
none takes the CPU away between `current_pcb = idle_pcb` and `context_switch`.
-/
def Harmless (m : Machine) (e : Event) : Prop :=
  match e, m.running, m.pc with
  | .schedule, true, .dequeue => False
  | .schedule, true, .freePage => False
  | .schedule, true, .setIdleRunning => ∀ b, m.kernel.Listed b → m.kernel.state b = .ready →
      m.kernel.currentPcb = some b
  | .schedule, true, .contextSwitch => ∀ b, m.kernel.Listed b → m.kernel.state b = .ready →
      m.kernel.currentPcb = some b
  | _, _, _ => True

def start (k : Kernel Slot) : Machine where
  kernel := k
  pc := .readCurrent
  dying := none
  running := true
  home := none
  recycled := false
  frees := 0

theorem statements_processExit {k : Kernel Slot} {p idle : Slot} (current : k.currentPcb = some p)
    (idling : k.idlePcb = some idle) :
    ((List.replicate 10 Event.statement).foldlM step (start k)).map (fun m => m.kernel) =
      k.processExit := by
  cases unlinked : (k.setState p .dead).dequeue p with
  | none =>
      simp [List.replicate, step, statement, start, Kernel.processExit, Kernel.release, current,
        idling, unlinked]
  | some k₁ =>
      have kept : k₁.idlePcb = some idle := by
        obtain ⟨next, head, rfl⟩ := Kernel.dequeue_relink unlinked
        exact idling
      simp [List.replicate, step, statement, start, Kernel.processExit, Kernel.release, current,
        idling, unlinked, kept, Kernel.modify_modify]
      rfl

structure Steady (init : Pmm) (k : Kernel Slot) (l : List Slot) : Prop where
  consistent : k.Consistent l
  booked : Stacks.Booked init k l

theorem Steady.queueIntact {init : Pmm} {k : Kernel Slot} {l : List Slot} (h : Steady init k l) :
    QueueIntact init k l := by
  have splits := h.booked.paged.splits
  refine ⟨h.consistent.queue, h.consistent.queue.nodup, h.consistent.live, splits.sdiff,
    splits.nodup, ?_⟩
  intro entryFn priority b k' made
  exact h.consistent.created_unlisted made

theorem Steady.modify {init : Pmm} {k : Kernel Slot} {l : List Slot} (h : Steady init k l) {p : Slot}
    (absent : p ∉ l) (f : Tcb Slot → Tcb Slot) (keepsNext : ∀ t, (f t).next = t.next)
    (keepsState : ∀ t, (f t).state = t.state) : Steady init (k.modify p f) l := by
  have states := Kernel.modify_state k p f (keepsState _)
  refine ⟨⟨h.consistent.toLinked.congr (Kernel.modify_links k p f (keepsNext _)) rfl ?_,
    h.consistent.poolReady, h.consistent.current, h.consistent.idle⟩, ?_, ?_, h.booked.idlePcb⟩
  · intro b _ dead
    rwa [states] at dead
  · refine h.booked.paged.congr rfl ?_
    intro b member
    have different : b ≠ p := fun same => absent (same ▸ member)
    rw [Kernel.stackBase, Kernel.modify_block_other k f different, Kernel.stackBase]
  · rw [states]
    exact h.booked.unlisted

theorem Steady.setRunning {init : Pmm} {k : Kernel Slot} {l : List Slot} (h : Steady init k l)
    {idle : Slot} (idling : k.idlePcb = some idle) : Steady init (k.setState idle .running) l := by
  obtain ⟨j, isPcb⟩ := h.booked.idlePcb
  obtain rfl : Slot.pcb j = idle := Option.some.inj (isPcb.symm.trans idling)
  refine ⟨⟨h.consistent.toLinked.setState _ (by decide), h.consistent.poolReady,
    h.consistent.current, h.consistent.idle⟩, ?_, ?_, h.booked.idlePcb⟩
  · exact h.booked.paged.congr rfl (fun b _ => by simp)
  · intro ready i absent
    rw [Kernel.setState_state, Function.update_of_ne (by simp)]
    exact h.booked.unlisted ready i absent

theorem Steady.contextSwitch {init : Pmm} {k : Kernel Slot} {l : List Slot} (h : Steady init k l)
    (old new : Slot) : Steady init (k.contextSwitch old new) l :=
  ⟨⟨h.consistent.toLinked.congr (by simp) rfl (by simp), h.consistent.poolReady,
    h.consistent.current, h.consistent.idle⟩,
    ⟨h.booked.paged.congr rfl (fun b _ => by simp), by simpa using h.booked.unlisted,
      h.booked.idlePcb⟩⟩

theorem Steady.schedule {init : Pmm} {k k' : Kernel Slot} {l : List Slot} (h : Steady init k l)
    (page0 : 0 ∉ init.freeSet) (result : k.schedule = some k') :
    Steady init k' l ∧ ∃ current idle, k.currentPcb = some current ∧ k.idlePcb = some idle ∧
      k.Scheduled l current idle k' := by
  obtain ⟨block, k'', performed, outcome, kept⟩ := h.consistent.perform .schedule
  obtain ⟨rfl, rfl⟩ : none = block ∧ k' = k'' := by
    simpa [Kernel.perform, result] using performed
  have booked := h.booked.outcome h.consistent page0 (by simp [Stacks.Allowed]) outcome
  cases outcome with
  | schedule current idle _ running idling scheduled =>
      exact ⟨⟨kept, booked⟩, current, idle, running, idling, scheduled⟩

theorem Steady.createProcess {init : Pmm} {k k' : Kernel Slot} {l : List Slot} (h : Steady init k l)
    (page0 : 0 ∉ init.freeSet) {entryFn : U32} {priority : U8} {block : Option Slot}
    (result : k.createProcess entryFn priority = some (block, k')) :
    Steady init k' ((Op.createProcess entryFn priority).edit block l) ∧
      k'.idlePcb = k.idlePcb ∧ k'.currentPcb = k.currentPcb ∧
      (∀ b, block = some b → b ∉ l ∧ k.state b = .dead) ∧
      ∀ b, block ≠ some b → k'.state b = k.state b := by
  obtain ⟨block', k'', made, outcome, kept⟩ := h.consistent.createProcess_outcome entryFn priority
  obtain ⟨rfl, rfl⟩ : block' = block ∧ k'' = k' := by
    simpa using made.symm.trans result
  have booked := h.booked.outcome h.consistent page0 (by simp [Stacks.Allowed]) outcome
  refine ⟨⟨kept, booked⟩, ?_⟩
  cases outcome with
  | processPoolFull => exact ⟨rfl, rfl, by simp, fun _ _ => rfl⟩
  | processNoStack => exact ⟨rfl, rfl, by simp, fun _ _ => rfl⟩
  | process _ _ i next head found =>
      have dead := (Kernel.allocPcb_some found).2
      refine ⟨rfl, rfl, ?_, ?_⟩
      · rintro _ ⟨⟩
        exact ⟨fun member => h.consistent.live _ member dead, dead⟩
      · intro b other
        have different : b ≠ Slot.pcb i := fun same => other (by rw [same])
        simp [Kernel.state, Kernel.withProcess_block, different]

theorem modify_id (k : Kernel Slot) (b : Slot) : k.modify b id = k := by
  simp [Kernel.modify]

theorem Steady.released {init : Pmm} {k : Kernel Slot} {l : List Slot} (h : Steady init k l) {p : Slot}
    (member : p ∈ l) {next : Slot → Option Slot} {head : Option Slot}
    (reads : PointerList.Reads next head (l.erase p)) (rest : ∀ c ∉ l.erase p, next c = none) :
    Steady init (k.released p id next head) (l.erase p) :=
  -- The three statements `state = DEAD`, `dequeue` and `pmm_free_page` together release the
  -- block.
  ⟨⟨h.consistent.toLinked.released p id (fun _ => rfl) (fun _ => rfl) reads rest,
    fun fresh i later => h.consistent.poolReady fresh i (List.mem_of_mem_erase later),
    h.consistent.current, h.consistent.idle⟩,
    h.booked.release h.consistent.queue.nodup member id (fun _ => rfl) next head⟩

theorem Steady.freed_card {init : Pmm} {k : Kernel Slot} {l : List Slot} (h : Steady init k l)
    {p : Slot} (member : p ∈ l) :
    ((k.pmm.pmmFreePage (k.stackBase p)).freeSet \ k.pmm.freeSet).card = 1 := by
  have paged := h.booked.paged
  have held : k.stackPage p ∈ l.map k.stackPage := List.mem_map_of_mem member
  have wasFree := (paged.splits.covers _).mpr (Or.inr held)
  have inside : k.stackPage p < k.pmm.totalPages := by
    rw [paged.total]
    exact ((Pmm.mem_freeSet init _).mp wasFree).1
  have taken := paged.splits.apart _ held
  have used : k.pmm.bitmapTest (k.stackPage p) = true := by simpa [inside] using taken
  rw [paged.address p member, Pmm.pmmFreePage_page _ inside paged.wf.bounded used,
    Pmm.freeSet_give _ _ inside, Finset.insert_sdiff_of_notMem _ taken]
  simp

/-- The stages of an exit that no tick has torn apart. -/
inductive Whole (init : Pmm) (p : Slot) (m : Machine) : Prop
  | untouched (l : List Slot) (steady : Steady init m.kernel l) (member : p ∈ l)
      (early : m.pc = .readCurrent ∨ m.pc = .setDead ∧ m.dying = some p) (frees : m.frees = 0)
      (running : m.running = true) (current : m.kernel.currentPcb = some p)
      (unblocked : m.kernel.state p ≠ .blocked) (home : m.home = none ∨ m.home = some p)
  | waiting (l : List Slot) (steady : Steady init m.kernel l) (member : p ∈ l)
      (early : m.pc = .readCurrent ∨ m.pc = .setDead ∧ m.dying = some p) (frees : m.frees = 0)
      (running : m.running = false) (current : m.kernel.currentPcb ≠ some p)
      (state : m.kernel.state p = .ready) (home : m.home = some p)
  | marked (l : List Slot) (k : Kernel Slot) (steady : Steady init k l) (member : p ∈ l)
      (shape : m.kernel = k.setState p .dead) (pc : m.pc = .dequeue) (dying : m.dying = some p)
      (frees : m.frees = 0) (running : m.running = true) (current : k.currentPcb = some p)
      (home : m.home = none ∨ m.home = some p)
  | unlinked (l : List Slot) (k : Kernel Slot) (steady : Steady init k l) (member : p ∈ l)
      (next : Slot → Option Slot) (head : Option Slot)
      (reads : PointerList.Reads next head (l.erase p)) (rest : ∀ c ∉ l.erase p, next c = none)
      (shape : m.kernel = (k.setState p .dead).relink next head) (pc : m.pc = .freePage)
      (dying : m.dying = some p) (frees : m.frees = 0) (running : m.running = true)
      (current : k.currentPcb = some p) (home : m.home = none ∨ m.home = some p)
  -- Off the queue, page freed, still current.
  | clearing (l : List Slot) (steady : Steady init m.kernel l) (absent : p ∉ l)
      (dead : m.kernel.state p = .dead)
      (late : m.pc = .clearPid ∨ m.pc = .clearStackBase ∨ m.pc = .clearEsp ∨ m.pc = .setCurrent)
      (dying : m.dying = some p) (frees : m.frees = 1) (running : m.running = true)
      (current : m.kernel.currentPcb = some p) (home : m.home = none ∨ m.home = some p)
  -- Still on the CPU, though idle is current.
  | leaving (l : List Slot) (steady : Steady init m.kernel l) (absent : p ∉ l)
      (dead : m.kernel.state p = .dead) (late : m.pc = .setIdleRunning ∨ m.pc = .contextSwitch)
      (dying : m.dying = some p) (frees : m.frees = 1) (running : m.running = true)
      (current : m.kernel.currentPcb = m.kernel.idlePcb) (home : m.home = none ∨ m.home = some p)
  -- The context never runs again.
  | gone (l : List Slot) (steady : Steady init m.kernel l) (dying : m.dying = some p)
      (frees : m.frees = 1) (running : m.running = false)
      (left : p ∉ l ∧ m.kernel.state p = .dead ∧ (m.home = none ∨ m.home = some p) ∨
        m.recycled = true ∧ m.home = none)

theorem Whole.allOrNothing {init : Pmm} {p : Slot} {m : Machine} (h : Whole init p m) :
    AllOrNothing init p m := by
  intro off
  cases h with
  | waiting l steady member early frees running current state home =>
      exact ⟨l, steady.queueIntact, Or.inl ⟨frees, member, state, home⟩⟩
  | gone l steady dying frees running left =>
      exact ⟨l, steady.queueIntact, Or.inr ⟨frees, left.imp (fun h => h.1) (fun h => h.1)⟩⟩
  | untouched _ _ _ _ _ running => simp [running] at off
  | marked _ _ _ _ _ _ _ _ running => simp [running] at off
  | unlinked _ _ _ _ _ _ _ _ _ _ _ _ running => simp [running] at off
  | clearing _ _ _ _ _ _ _ running => simp [running] at off
  | leaving _ _ _ _ _ _ _ running => simp [running] at off

theorem Whole.statement {init : Pmm} {p : Slot} {m m' : Machine} (h : Whole init p m)
    (notIdle : m.kernel.idlePcb ≠ some p) (onCpu : m.running = true) (ran : statement m = some m') :
    Whole init p m' ∧ m'.kernel.idlePcb = m.kernel.idlePcb := by
  unfold Exit.statement at ran
  cases h with
  | untouched l steady member early frees running current unblocked home =>
      rcases early with pc | ⟨pc, dying⟩
      · simp only [pc, Option.some.injEq] at ran
        subst ran
        exact ⟨.untouched l steady member (Or.inr ⟨rfl, current⟩) frees running current unblocked
          home, rfl⟩
      · simp only [pc, dying, Option.map_some, Option.some.injEq] at ran
        subst ran
        exact ⟨.marked l m.kernel steady member rfl rfl rfl frees running current home, rfl⟩
  | marked l k steady member shape pc dying frees running current home =>
      have queue : (k.setState p .dead).Queue l := by
        simpa [Kernel.Queue] using steady.consistent.queue
      have unlinked : ∀ b ∉ l, (k.setState p .dead).links b = none := by
        simpa using steady.consistent.unlinked
      obtain ⟨next, head, result, reads, rest⟩ := Kernel.dequeue_spec p queue unlinked
      simp only [pc, dying, shape, result, Option.bind_eq_bind, Option.bind_some, Option.pure_def,
        Option.some.injEq] at ran
      subst ran
      refine ⟨.unlinked l k steady member next head reads rest rfl rfl rfl frees running current
        home, ?_⟩
      simp [shape]
  | unlinked l k steady member next head reads rest shape pc dying frees running current home =>
      simp only [pc, dying, Option.map_some, Option.some.injEq] at ran
      have freed := steady.freed_card member
      have released := steady.released member reads rest
      have same : ({ m.kernel with
          pmm := m.kernel.pmm.pmmFreePage (m.kernel.stackBase p) } : Kernel Slot) =
          k.released p id next head := by
        rw [Kernel.released, modify_id, shape]
        simp only [Kernel.relink_stackBase, Kernel.setState_stackBase]
        rfl
      have absent : p ∉ l.erase p := fun again =>
        (steady.consistent.queue.nodup.mem_erase_iff.mp again).1 rfl
      subst ran
      rw [same]
      refine ⟨.clearing (l.erase p) released absent ?_ (Or.inl rfl) rfl ?_ running current home, ?_⟩
      · simp [Kernel.released_state k p id next head fun _ => rfl]
      · simp only [frees, shape, Kernel.relink_pmm, Kernel.setState_pmm, Kernel.relink_stackBase,
          Kernel.setState_stackBase, freed]
      · simp [shape]
  | clearing l steady absent dead late dying frees running current home =>
      rcases late with pc | pc | pc | pc <;>
        simp only [pc, dying, Option.map_some, Option.some.injEq] at ran <;> subst ran
      · have kept := steady.modify absent (fun t => { t with pid := 0#32 }) (fun _ => rfl)
          (fun _ => rfl)
        refine ⟨.clearing l kept absent ?_ (by simp) rfl frees running current home, rfl⟩
        simpa [Kernel.state] using dead
      · have kept := steady.modify absent (fun t => { t with stackBase := 0#32 }) (fun _ => rfl)
          (fun _ => rfl)
        refine ⟨.clearing l kept absent ?_ (by simp) rfl frees running current home, rfl⟩
        simpa [Kernel.state] using dead
      · have kept := steady.modify absent (fun t => { t with esp := 0#32 }) (fun _ => rfl)
          (fun _ => rfl)
        refine ⟨.clearing l kept absent ?_ (by simp) rfl frees running current home, rfl⟩
        simpa [Kernel.state] using dead
      · have kept : Steady init { m.kernel with currentPcb := m.kernel.idlePcb } l :=
          ⟨⟨⟨steady.consistent.queue, steady.consistent.unlinked, steady.consistent.live⟩,
            steady.consistent.poolReady, steady.consistent.idle, steady.consistent.idle⟩,
            ⟨steady.booked.paged.congr rfl (fun _ _ => rfl), steady.booked.unlisted,
              steady.booked.idlePcb⟩⟩
        exact ⟨.leaving l kept absent dead (Or.inl rfl) rfl frees running rfl home, rfl⟩
  | leaving l steady absent dead late dying frees running current home =>
      obtain ⟨idle, idling⟩ := steady.consistent.idle
      have different : p ≠ idle := by
        rintro rfl
        exact notIdle idling
      rcases late with pc | pc
      · simp only [pc, idling, Option.map_some, Option.some.injEq] at ran
        subst ran
        refine ⟨.leaving l (steady.setRunning idling) absent ?_ (Or.inr rfl) dying frees running
          current home, by simp⟩
        simpa [Kernel.setState_state, different] using dead
      · have other : m.home ≠ some idle := by
          rcases home with none | isP
          · simp [none]
          · simpa [isP] using different
        simp only [pc, dying, idling, other, if_false, Option.bind_eq_bind, Option.bind_some,
          Option.pure_def, Option.some.injEq] at ran
        subst ran
        refine ⟨.gone l (steady.contextSwitch p idle) rfl frees rfl
          (Or.inl ⟨absent, by simpa using dead, Or.inr rfl⟩), by simp⟩
  | waiting _ _ _ _ _ running => simp [running] at onCpu
  | gone _ _ _ _ running => simp [running] at onCpu

theorem reschedule_cases {m m' : Machine} (ran : reschedule m = some m') :
    ((∃ old, m.kernel.currentPcb = some old ∧
        (m.kernel.state old = .ready ∨ m.kernel.idlePcb = some old)) ∧ m' = m) ∨
    ∃ old next, m.kernel.currentPcb = some old ∧ next ≠ old ∧
      (m.kernel.state next = .ready ∨ m.kernel.idlePcb = some next) ∧
      m' = { m with
        kernel := m.kernel.switchTo old next
        running := !m.running && decide (m.home = some next)
        home := if m.running then some old else m.home } := by
  -- Whatever the queue looks like, `schedule()` resumes the exiting context only at its home.
  obtain ⟨k', scheduled, rest⟩ := Option.bind_eq_some_iff.mp ran
  obtain ⟨old, current, rest⟩ := Option.bind_eq_some_iff.mp rest
  rcases Kernel.schedule_target current scheduled with ⟨stays, rfl⟩ | ⟨next, different, target, rfl⟩
  · simp only [current, Option.bind_eq_bind, Option.bind_some, if_true, Option.pure_def,
      Option.some.injEq] at rest
    exact Or.inl ⟨⟨old, current, stays⟩, rest.symm⟩
  · simp only [Kernel.switchTo_currentPcb, Option.bind_eq_bind, Option.bind_some, different, if_false,
      Option.pure_def] at rest
    refine Or.inr ⟨old, next, current, different, target, ?_⟩
    cases onCpu : m.running <;> simp only [onCpu] at rest ⊢ <;> simpa using rest.symm

theorem reschedule_idlePcb {m m' : Machine} (ran : reschedule m = some m') :
    m'.kernel.idlePcb = m.kernel.idlePcb := by
  rcases reschedule_cases ran with ⟨_, rfl⟩ | ⟨old, next, _, _, _, rfl⟩
  · rfl
  · exact Kernel.switchTo_idlePcb m.kernel old next

inductive Rescheduled (m : Machine) (l : List Slot) : Machine → Prop
  | stays (old : Slot) (current : m.kernel.currentPcb = some old)
      (reason : m.kernel.idlePcb = some old ∨ old ∈ l ∧ m.kernel.state old = .ready) :
      Rescheduled m l m
  | preempted (old next : Slot) (running : m.running = true)
      (current : m.kernel.currentPcb = some old) (different : next ≠ old)
      (target : next ∈ l ∧ m.kernel.state next = .ready ∨ m.kernel.idlePcb = some next) :
      Rescheduled m l
        { m with kernel := m.kernel.switchTo old next, running := false, home := some old }
  | switched (old next : Slot) (running : m.running = false)
      (current : m.kernel.currentPcb = some old) (different : next ≠ old)
      (target : next ∈ l ∧ m.kernel.state next = .ready ∨ m.kernel.idlePcb = some next) :
      Rescheduled m l
        { m with kernel := m.kernel.switchTo old next, running := m.home = some next }

theorem Steady.rescheduled {init : Pmm} {m m' : Machine} {l : List Slot}
    (h : Steady init m.kernel l) (page0 : 0 ∉ init.freeSet) (ran : reschedule m = some m') :
    Steady init m'.kernel l ∧ Rescheduled m l m' := by
  obtain ⟨k', scheduled, rest⟩ := Option.bind_eq_some_iff.mp ran
  obtain ⟨kept, current, idle, running, idling, shape⟩ := h.schedule page0 scheduled
  have moved (next : Slot) (different : next ≠ current) (shape : k' = m.kernel.switchTo current next)
      (target : next ∈ l ∧ m.kernel.state next = .ready ∨ m.kernel.idlePcb = some next) :
      Steady init m'.kernel l ∧ Rescheduled m l m' := by
    simp only [running, shape, Kernel.switchTo_currentPcb, Option.bind_eq_bind, Option.bind_some,
      different, if_false, Option.pure_def] at rest
    subst shape
    by_cases onCpu : m.running = true
    · simp only [onCpu, if_true, Option.some.injEq] at rest
      subst rest
      exact ⟨kept, .preempted current next onCpu running different target⟩
    · simp only [onCpu, Bool.false_eq_true, if_false, Option.some.injEq] at rest
      subst rest
      exact ⟨kept, .switched current next (by simpa using onCpu) running different target⟩
  cases shape with
  | idles isIdle =>
      simp only [running, Option.bind_eq_bind, Option.bind_some, if_true, Option.pure_def,
        Option.some.injEq] at rest
      subst rest
      exact ⟨h, .stays current running (Or.inl (isIdle ▸ idling))⟩
  | itself listed isReady =>
      simp only [running, Option.bind_eq_bind, Option.bind_some, if_true, Option.pure_def,
        Option.some.injEq] at rest
      subst rest
      exact ⟨h, .stays current running (Or.inr ⟨listed, isReady⟩)⟩
  | ready next different listed isReady => exact moved next different rfl (Or.inl ⟨listed, isReady⟩)
  | fallback different => exact moved idle different rfl (Or.inr idling)

theorem Whole.schedule {init : Pmm} {p : Slot} {m m' : Machine} (h : Whole init p m)
    (page0 : 0 ∉ init.freeSet) (notIdle : m.kernel.idlePcb ≠ some p)
    (harmless : Harmless m .schedule) (ran : reschedule m = some m') : Whole init p m' := by
  -- A harmless `schedule()` leaves the exit whole.
  -- What `schedule()` dispatches is listed or idle, so it is never an unlisted `p`.
  have dispatched {l : List Slot} {next : Slot} (absent : p ∉ l)
      (target : next ∈ l ∧ m.kernel.state next = .ready ∨ m.kernel.idlePcb = some next) : p ≠ next := by
    rintro rfl
    exact target.elim (fun h => absent h.1) notIdle
  cases h with
  | untouched l steady member early frees running current unblocked home =>
      obtain ⟨kept, shape⟩ := steady.rescheduled page0 ran
      cases shape with
      | stays => exact .untouched l steady member early frees running current unblocked home
      | preempted old next _ isOld different =>
          obtain rfl : p = old := Option.some.inj (current.symm.trans isOld)
          refine .waiting l kept member early frees rfl (by simpa using different) ?_ rfl
          rw [Kernel.switchTo_state, Function.update_of_ne (Ne.symm different)]
          split
          next => simp
          next notRunning =>
            have alive := steady.consistent.live p member
            cases state : m.kernel.state p <;> simp_all
      | switched _ _ off => simp [running] at off
  | waiting l steady member early frees running current state home =>
      obtain ⟨kept, shape⟩ := steady.rescheduled page0 ran
      cases shape with
      | stays => exact .waiting l steady member early frees running current state home
      | preempted _ _ on => simp [running] at on
      | switched old next _ isOld different =>
          by_cases resumed : next = p
          · subst resumed
            exact .untouched l kept member early frees (by simp [home]) (by simp)
              (by simp [Kernel.switchTo_state]) (Or.inr home)
          · refine .waiting l kept member early frees ?_ (by simpa using resumed) ?_ home
            · simpa [home] using Ne.symm resumed
            · exact Kernel.switchTo_keeps (Ne.symm resumed) state (by decide)
  | marked l k steady member shape pc dying frees running =>
      simp [Harmless, running, pc] at harmless
  | unlinked l k steady member next head reads rest shape pc dying frees running =>
      simp [Harmless, running, pc] at harmless
  | clearing l steady absent dead late dying frees running current home =>
      obtain ⟨kept, shape⟩ := steady.rescheduled page0 ran
      cases shape with
      | stays => exact .clearing l steady absent dead late dying frees running current home
      | preempted old next _ isOld different target =>
          obtain rfl : p = old := Option.some.inj (current.symm.trans isOld)
          exact .gone l kept dying frees rfl (Or.inl ⟨absent,
            Kernel.switchTo_keeps (dispatched absent target) dead (by decide), Or.inr rfl⟩)
      | switched _ _ off => simp [running] at off
  | leaving l steady absent dead late dying frees running current home =>
      obtain ⟨kept, shape⟩ := steady.rescheduled page0 ran
      cases shape with
      | stays => exact .leaving l steady absent dead late dying frees running current home
      | preempted old next _ isOld different target =>
          have calm : ∀ b, m.kernel.Listed b → m.kernel.state b = .ready →
              m.kernel.currentPcb = some b := by
            rcases late with pc | pc <;> simpa [Harmless, running, pc] using harmless
          rcases target with ⟨listed, isReady⟩ | isIdle
          · have same := calm next ((steady.consistent.queue.listed next).mpr listed) isReady
            exact absurd (Option.some.inj (same.symm.trans isOld)) different
          · have same := (current.trans isIdle).symm.trans isOld
            exact absurd (Option.some.inj same) different
      | switched _ _ off => simp [running] at off
  | gone l steady dying frees running left =>
      obtain ⟨kept, shape⟩ := steady.rescheduled page0 ran
      cases shape with
      | stays => exact .gone l steady dying frees running left
      | preempted _ _ on => simp [running] at on
      | switched old next _ isOld different target =>
          rcases left with ⟨absent, dead, home⟩ | ⟨recycled, home⟩
          · have other := dispatched absent target
            have stays : (m.kernel.switchTo old next).state p = .dead :=
              Kernel.switchTo_keeps other dead (by decide)
            refine .gone l kept dying frees ?_ (Or.inl ⟨absent, stays, home⟩)
            rcases home with none | isP
            · simp [none]
            · simpa [isP] using other
          · exact .gone l kept dying frees (by simp [home]) (Or.inr ⟨recycled, home⟩)

theorem Whole.createProcess {init : Pmm} {p : Slot} {m m' : Machine} (h : Whole init p m)
    (page0 : 0 ∉ init.freeSet) {entryFn : U32} {priority : U8}
    (taken : step m (.createProcess entryFn priority) = some m') :
    Whole init p m' ∧ m'.kernel.idlePcb = m.kernel.idlePcb := by
  simp only [step] at taken
  split at taken
  next => cases taken
  next off =>
    obtain ⟨⟨block, k'⟩, made, rfl⟩ := Option.map_eq_some_iff.mp taken
    have notRunning : m.running = false := by simpa using off
    cases h with
    | waiting l steady member early frees running current state home =>
        obtain ⟨kept, sameIdle, sameCurrent, fresh, others⟩ := steady.createProcess page0 made
        have other : block ≠ some p := fun same => (fresh p same).1 member
        have stays : p ∈ (Op.createProcess entryFn priority).edit block l := by
          cases block with
          | none => exact member
          | some b => exact List.mem_append_left _ member
        refine ⟨.waiting _ kept stays early frees running (by rwa [sameCurrent])
          ((others p other).trans state) ?_, sameIdle⟩
        simp [home, other]
    | gone l steady dying frees running left =>
        obtain ⟨kept, sameIdle, _, fresh, others⟩ := steady.createProcess page0 made
        refine ⟨.gone _ kept dying frees running ?_, sameIdle⟩
        by_cases again : block = some p
        · refine Or.inr ⟨by simp [again, dying], ?_⟩
          rcases left with ⟨_, _, none | isP⟩ | ⟨_, none⟩
          · simp [none]
          · simp [isP, again]
          · simp [none]
        · rcases left with ⟨absent, dead, home⟩ | ⟨recycled, home⟩
          · refine Or.inl ⟨?_, (others p again).trans dead, ?_⟩
            · cases block with
              | none => exact absent
              | some b =>
                  have different : p ≠ b := fun same => again (by rw [same])
                  simp [Op.edit, absent, different]
            · rcases home with none | isP
              · simp [none]
              · simp [isP, again]
          · exact Or.inr ⟨by simp [recycled], by simp [home]⟩
    | untouched _ _ _ _ _ running => simp [running] at notRunning
    | marked _ _ _ _ _ _ _ _ running => simp [running] at notRunning
    | unlinked _ _ _ _ _ _ _ _ _ _ _ _ running => simp [running] at notRunning
    | clearing _ _ _ _ _ _ _ running => simp [running] at notRunning
    | leaving _ _ _ _ _ _ _ running => simp [running] at notRunning

theorem Whole.step {init : Pmm} {p : Slot} {m m' : Machine} {e : Event} (h : Whole init p m)
    (page0 : 0 ∉ init.freeSet) (notIdle : m.kernel.idlePcb ≠ some p) (harmless : Harmless m e)
    (taken : Step m e m') : Whole init p m' ∧ m'.kernel.idlePcb = m.kernel.idlePcb := by
  cases e with
  | statement =>
      simp only [Step, Exit.step] at taken
      split at taken
      next onCpu => exact h.statement notIdle onCpu taken
      next => cases taken
  | schedule =>
      exact ⟨h.schedule page0 notIdle harmless taken, reschedule_idlePcb taken⟩
  | createProcess entryFn priority =>
      exact h.createProcess page0 taken

theorem createProcess_frame {k k' : Kernel Slot} {entryFn : U32} {priority : U8}
    {block : Option Slot} (made : k.createProcess entryFn priority = some (block, k')) :
    k'.idlePcb = k.idlePcb ∧ ∀ b, block ≠ some b → k'.state b = k.state b := by
  unfold Kernel.createProcess at made
  split at made
  next =>
    cases made
    exact ⟨rfl, fun _ _ => rfl⟩
  next pcb _ =>
    dsimp only at made
    split at made
    next =>
      cases made
      exact ⟨rfl, fun _ _ => rfl⟩
    next =>
      obtain ⟨k₁, linked, made⟩ := Option.bind_eq_some_iff.mp made
      obtain ⟨next, head, rfl⟩ := Kernel.enqueue_relink linked
      cases made
      refine ⟨rfl, fun b other => ?_⟩
      have different : b ≠ pcb := fun same => other (by rw [same])
      simp [Kernel.state, Kernel.relink, Kernel.fillPcb, Kernel.modify_block, different]

/-- Suspended after `state = DEAD` and before the end of `pmm_free_page`. -/
structure Torn (p : Slot) (m : Machine) : Prop where
  dying : m.dying = some p
  running : m.running = false
  frees : m.frees = 0
  notIdle : m.kernel.idlePcb ≠ some p
  lost : m.kernel.state p = .dead ∧ m.home = some p ∨ m.home = none

theorem Whole.torn {init : Pmm} {p : Slot} {m m' : Machine} (h : Whole init p m)
    (notIdle : m.kernel.idlePcb ≠ some p) (onCpu : m.running = true)
    (window : m.pc = .dequeue ∨ m.pc = .freePage) (ran : reschedule m = some m') : Torn p m' := by
  -- A DEAD current block is always switched away from, and `schedule()` never comes back to
  -- it.
  have stage : m.dying = some p ∧ m.frees = 0 ∧ m.kernel.state p = .dead ∧
      m.kernel.currentPcb = some p := by
    cases h with
    | marked l k steady member shape pc dying frees running current =>
        exact ⟨dying, frees, by simp [shape, Kernel.setState_state], by simpa [shape] using current⟩
    | unlinked l k steady member next head reads rest shape pc dying frees running current =>
        exact ⟨dying, frees, by simp [shape, Kernel.setState_state], by simpa [shape] using current⟩
    | untouched _ _ _ early => rcases early with pc | ⟨pc, _⟩ <;> simp [pc] at window
    | clearing _ _ _ _ late => rcases late with pc | pc | pc | pc <;> simp [pc] at window
    | leaving _ _ _ _ late => rcases late with pc | pc <;> simp [pc] at window
    | waiting _ _ _ _ _ running => simp [running] at onCpu
    | gone _ _ _ _ running => simp [running] at onCpu
  obtain ⟨dying, frees, dead, current⟩ := stage
  rcases reschedule_cases ran with ⟨⟨old, isOld, stays⟩, _⟩ | ⟨old, next, isOld, different, _, rfl⟩
  · obtain rfl : p = old := Option.some.inj (current.symm.trans isOld)
    simp [dead, notIdle] at stays
  · obtain rfl : p = old := Option.some.inj (current.symm.trans isOld)
    refine ⟨dying, by simp [onCpu], frees, by simpa using notIdle, Or.inl ⟨?_, by simp [onCpu]⟩⟩
    exact Kernel.switchTo_keeps (Ne.symm different) dead (by decide)

theorem Torn.step {p : Slot} {m m' : Machine} {e : Event} (h : Torn p m) (taken : Step m e m') :
    Torn p m' := by
  cases e with
  | statement => simp [Step, Exit.step, h.running] at taken
  | schedule =>
      rcases reschedule_cases taken with ⟨_, rfl⟩ | ⟨old, next, _, _, target, rfl⟩
      · exact h
      · have notNext : m.kernel.state p = .dead → p ≠ next := by
          rintro dead rfl
          rcases target with isReady | isIdle
          · simp [dead] at isReady
          · exact h.notIdle isIdle
        refine ⟨h.dying, ?_, h.frees, by simpa using h.notIdle, ?_⟩
        · rcases h.lost with ⟨dead, home⟩ | home
          · simp [home, notNext dead]
          · simp [home]
        · refine h.lost.imp ?_ ?_
          · rintro ⟨dead, home⟩
            exact ⟨Kernel.switchTo_keeps (notNext dead) dead (by decide), by simp [h.running, home]⟩
          · intro home
            simp [h.running, home]
  | createProcess entryFn priority =>
      simp only [Step, Exit.step, h.running, Bool.false_eq_true, if_false] at taken
      obtain ⟨⟨block, k'⟩, made, rfl⟩ := Option.map_eq_some_iff.mp taken
      obtain ⟨sameIdle, states⟩ := createProcess_frame made
      refine ⟨h.dying, rfl, h.frees, sameIdle ▸ h.notIdle, ?_⟩
      rcases h.lost with ⟨dead, home⟩ | home
      · by_cases again : block = some p
        · exact Or.inr (by simp [again, home])
        · exact Or.inl ⟨(states p again).trans dead, by simp [home, again]⟩
      · exact Or.inr (by simp [home])

theorem Torn.never_frees {p : Slot} {m : Machine} (h : Torn p m) (events : List Event) :
    Transition.Always Step (fun m => m.running = false ∧ m.frees = 0) m events :=
  Transition.always_of_meets (fun _ torn => ⟨torn.running, torn.frees⟩)
    (fun _ _ _ torn _ taken => torn.step taken) h events
    (Transition.meets_true Step m events)

/--
From any reachable kernel whose current process is on the run queue and neither idle nor
BLOCKED, its `process_exit` is all-or-nothing in every run of harmless ticks, of other
contexts' `schedule()` calls and of their creations.
-/
theorem always_allOrNothing (ram : Ram) (mb : MultibootInfo) (kernelEnd : U32) (fuel : Nat)
    (init : Pmm) (started : Pmm.pmmInit ram mb kernelEnd fuel = some init) (esp idleTask : U32)
    (memory : U32 → U32) (k₀ : Kernel Slot)
    (booted : (Kernel.bss init esp memory).schedulerInit idleTask = some k₀) (k : Kernel Slot)
    (reached : Relation.ReflTransGen Stacks.Step k₀ k) (p : Slot) (current : k.currentPcb = some p)
    (notIdle : k.idlePcb ≠ some p) (listed : k.Listed p) (unblocked : k.state p ≠ .blocked)
    (events : List Event) (harmless : Transition.Meets Step Harmless (start k) events) :
    Transition.Always Step (AllOrNothing init p) (start k) events := by
  obtain ⟨page0, conserved⟩ := Stacks.conserved_of_booted (Pmm.pmmInit_spec started).1 booted
  obtain ⟨l, consistent, owned⟩ :=
    Transition.reachable_invariant (fun _ _ h taken => h.step page0 taken) conserved reached
  have member : p ∈ l := (consistent.queue.listed p).mp listed
  have whole : Whole init p (start k) :=
    .untouched l ⟨consistent, owned⟩ member (Or.inl rfl) rfl rfl current unblocked (Or.inl rfl)
  have good (m : Machine) (h : Whole init p m ∧ m.kernel.idlePcb ≠ some p) :
      AllOrNothing init p m := h.1.allOrNothing
  refine Transition.always_of_meets good ?_ ⟨whole, notIdle⟩ events harmless
  rintro m e m' ⟨h, notIdle⟩ harmless taken
  obtain ⟨kept, sameIdle⟩ := h.step page0 notIdle harmless taken
  exact ⟨kept, sameIdle ▸ notIdle⟩

def oneProcess : Option (Pmm × Kernel Slot × Kernel Slot) := do
  let init ← Pmm.pmmInit Stacks.sixtyFourPagesRam Stacks.sixtyFourPagesInfo 0x110000#32 2
  let k₀ ← (Kernel.bss init 0x110000#32 fun _ => 0#32).schedulerInit 0x100100#32
  let (_, k) ← k₀.call ⟨.createProcess 0x100200#32 1#8, 0x10FF00#32⟩
  let (_, k) ← k.call ⟨.schedule, 0x10FF00#32⟩
  return (init, k₀, k)

theorem oneProcess_reached {init : Pmm} {k₀ k : Kernel Slot} (made : oneProcess = some (init, k₀, k)) :
    Pmm.pmmInit Stacks.sixtyFourPagesRam Stacks.sixtyFourPagesInfo 0x110000#32 2 = some init ∧
      (Kernel.bss init 0x110000#32 fun _ => 0#32).schedulerInit 0x100100#32 = some k₀ ∧
      Relation.ReflTransGen Stacks.Step k₀ k := by
  simp only [oneProcess, Option.bind_eq_bind, Option.bind_eq_some_iff, Option.pure_def,
    Option.some.injEq, Prod.exists, Prod.mk.injEq] at made
  obtain ⟨_, started, _, booted, block, _, created, nothing, _, scheduled, rfl, rfl, rfl⟩ := made
  refine ⟨started, booted, .tail (.single ⟨_, block, ?_, created⟩) ⟨_, nothing, ?_, scheduled⟩⟩ <;>
    simp [Stacks.Allowed]

def tickBeforeExit : List Event :=
  [.schedule, .schedule] ++ List.replicate 10 .statement ++ [.createProcess 0x100200#32 1#8]

theorem always_allOrNothing_tickBeforeExit :
    ∃ init k₀ k, oneProcess = some (init, k₀, k) ∧
      ((tickBeforeExit.foldlM step (start k)).map fun m => (m.pc, m.frees)) =
        some (.returned, 1) ∧
      Transition.Always Step (AllOrNothing init (.pcb 1)) (start k) tickBeforeExit := by
  have evaluated : (oneProcess.map fun s => decide (
      s.2.2.currentPcb = some (.pcb 1) ∧ s.2.2.idlePcb ≠ some (.pcb 1) ∧
      s.2.2.state (.pcb 1) ≠ .blocked ∧ s.2.2.Queue [.pcb 0, .pcb 1] ∧
      ((tickBeforeExit.foldlM step (start s.2.2)).map fun m => (m.pc, m.frees)) =
        some (.returned, 1))) = some true := by
    decide +kernel
  obtain ⟨⟨init, k₀, k⟩, made, values⟩ := Option.map_eq_some_iff.mp evaluated
  obtain ⟨current, notIdle, unblocked, queue, ran⟩ := of_decide_eq_true values
  obtain ⟨started, booted, reached⟩ := oneProcess_reached made
  refine ⟨init, k₀, k, made, ran, ?_⟩
  refine always_allOrNothing _ _ _ _ init started _ _ _ k₀ booted k reached (.pcb 1) current
    notIdle ⟨_, queue, by simp⟩ unblocked tickBeforeExit ?_
  intro m taken
  refine ⟨trivial, fun m' taken' => ⟨?_, ?_⟩⟩
  · have pc : m.pc = .readCurrent := by
      rcases reschedule_cases taken with ⟨_, rfl⟩ | ⟨_, _, _, _, _, rfl⟩ <;> rfl
    simp [Harmless, pc]
  · repeat' first | exact trivial | intro _ _ | constructor

def tickAfterDead : List Event := [.statement, .statement, .schedule]

theorem not_always_allOrNothing_tickAfterDead :
    ∃ init k₀ k, oneProcess = some (init, k₀, k) ∧ k.currentPcb = some (.pcb 1) ∧
      k.idlePcb ≠ some (.pcb 1) ∧ k.Listed (.pcb 1) ∧ k.state (.pcb 1) = .running ∧
      ¬ Transition.Always Step (AllOrNothing init (.pcb 1)) (start k) tickAfterDead := by
  have evaluated : (oneProcess.bind fun s => (tickAfterDead.foldlM step (start s.2.2)).map fun m =>
      decide (s.2.2.currentPcb = some (.pcb 1) ∧ s.2.2.idlePcb ≠ some (.pcb 1) ∧
        s.2.2.state (.pcb 1) = .running ∧ s.2.2.Queue [.pcb 0, .pcb 1] ∧
        m.running = false ∧ m.frees = 0 ∧ m.kernel.state (.pcb 1) = .dead)) = some true := by
    decide +kernel
  obtain ⟨⟨init, k₀, k⟩, made, afterStart⟩ := Option.bind_eq_some_iff.mp evaluated
  obtain ⟨m, ran, values⟩ := Option.map_eq_some_iff.mp afterStart
  obtain ⟨current, notIdle, state, queue, off, frees, dead⟩ := of_decide_eq_true values
  refine ⟨init, k₀, k, made, current, notIdle, ⟨_, queue, by simp⟩, state, fun always => ?_⟩
  obtain ⟨l, _, ⟨_, _, isReady, _⟩ | ⟨freed, _⟩⟩ := (always.of_run ran) off
  · simp [dead] at isReady
  · simp [frees] at freed

end SoraOS.Exit
