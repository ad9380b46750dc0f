import SoraOS.Mutex.Dispatch
import SoraOS.Preemption.Create

set_option autoImplicit false

namespace SoraOS

theorem find?_eq_some_self {A : Type} [DecidableEq A] {test : A → Bool} {xs : List A} {x : A}
    (member : x ∈ xs) (passes : test x = true) :
    xs.find? test = some x ↔ ∀ y ∈ xs.takeWhile (fun y => y ≠ x), test y = false := by
  induction xs with
  | nil => cases member
  | cons y ys ih =>
      by_cases same : y = x
      next => simp [same, passes]
      next =>
        have later : x ∈ ys := by simpa [Ne.symm same] using member
        rw [List.takeWhile_cons_of_pos (by simpa using same), List.find?_cons]
        cases tested : test y with
        | true => simp [tested, same]
        | false => simpa [tested] using ih later

namespace Newprocess

open Create (rank result)

structure Machine where
  kernel : Kernel Slot
  shell : Slot
  -- The call of `create_process`, while a command is being executed.
  command : Option Creator
  made : List Slot

inductive Event where
  | newprocess (counterProcess : U32)
  | statement
  -- a timer interrupt, wherever the running context is
  | tick

def statement (m : Machine) (c : Creator) : Option Machine :=
  match c.pc with
  | .returned =>
      -- `p->state = PROCESS_BLOCKED`
      c.pcb.map fun p => { m with kernel := m.kernel.setState p .blocked, command := none }
  | .returnedNull => some { m with command := none }
  | _ => (m.kernel.createStatement c).map fun r =>
      { m with kernel := r.1, command := some r.2, made := (result r.2).toList ++ m.made }

def step (m : Machine) : Event → Option Machine
  | .newprocess counterProcess =>
      if m.kernel.currentPcb = some m.shell ∧ m.command.isNone then
        some { m with command := some (.call counterProcess 1#8) }
      else none
  | .statement => if m.kernel.currentPcb = some m.shell then m.command.bind (statement m) else none
  | .tick => m.kernel.schedule.map fun k => { m with kernel := k }

def Step (m : Machine) (e : Event) (m' : Machine) : Prop := step m e = some m'

def start (k : Kernel Slot) (shell : Slot) : Machine where
  kernel := k
  shell := shell
  command := none
  made := []

def Hides (m : Machine) : Prop := ∀ current, m.kernel.currentPcb = some current → current ∉ m.made

/-- The block that the command has got and not yet marked BLOCKED. -/
def window (m : Machine) : Option Slot := m.command.bind result

def enqueues : CreatePc → Bool
  | .setHead => true
  | .linkTail _ => true
  | _ => false

/--
The block that enters the queue is not the one that runs. At a tick, another READY block comes
before the one that the command has not yet marked BLOCKED, and if no block is READY, idle's is not
one made by the command.
-/
def Spared (m : Machine) : Event → Prop
  | .newprocess _ => True
  | .statement => ∀ c ∈ m.command, enqueues c.pc = true → c.pcb ≠ m.kernel.currentPcb
  | .tick => ∀ l ∈ m.kernel.entries, ∀ current ∈ m.kernel.currentPcb,
      (∀ p ∈ window m, m.kernel.state p = .ready →
        ∃ b ∈ (Kernel.successors l current).takeWhile (fun b => b ≠ p), m.kernel.state b = .ready) ∧
      ((∀ b ∈ l, m.kernel.state b ≠ .ready) → ∀ idle ∈ m.kernel.idlePcb, idle ∉ m.made)

instance (m : Machine) : (e : Event) → Decidable (Spared m e)
  | .newprocess _ => inferInstanceAs (Decidable True)
  | .statement => inferInstanceAs (Decidable (∀ c ∈ m.command, _ → _))
  | .tick => inferInstanceAs (Decidable (∀ l ∈ m.kernel.entries, ∀ current ∈ m.kernel.currentPcb, _ ∧ _))

def Placed (l : List Slot) : CreatePc → Prop
  | .setHead => l = []
  | .testTail tail => tail ∈ l
  | .advance tail => tail ∈ l
  | .linkTail tail => l.getLast? = some tail
  | _ => True

structure Building (k : Kernel Slot) (l : List Slot) (c : Creator) : Prop where
  picked : 2 ≤ rank c.pc → ∃ p, c.pcb = some p
  unlisted : 2 ≤ rank c.pc → rank c.pc ≤ 19 → ∀ p, c.pcb = some p → p ∉ l
  alive : 9 ≤ rank c.pc → ∀ p, c.pcb = some p → k.state p ≠ .dead
  place : Placed l c.pc

section Statement

variable {k k' : Kernel Slot} {l : List Slot} {c c' : Creator}

theorem Building.congr (h : Building k l c)
    (alive : ∀ b, k'.state b = .dead → k.state b = .dead) : Building k' l c where
  picked := h.picked
  unlisted := h.unlisted
  alive far p isP dead := h.alive far p isP (alive p dead)
  place := h.place

structure Passes (pc next : CreatePc) : Prop where
  running : rank pc ≤ 19
  notReturned : next ≠ .returned
  notEnqueued : enqueues pc = false
  picked : 2 ≤ rank next → 2 ≤ rank pc
  alive : 9 ≤ rank next → 9 ≤ rank pc

theorem Building.goto (h : Building k l c) {pc : CreatePc} (passes : Passes c.pc pc)
    (place : Placed l pc) : Building k l (c.goto pc) where
  picked far := h.picked (passes.picked far)
  unlisted far _ := h.unlisted (passes.picked far) passes.running
  alive far := h.alive (passes.alive far)
  place := place

structure Quiet (k k' : Kernel Slot) : Prop where
  links : k'.links = k.links
  runQueue : k'.runQueue = k.runQueue
  state : k'.state = k.state
  currentPcb : k'.currentPcb = k.currentPcb
  idlePcb : k'.idlePcb = k.idlePcb

theorem Quiet.refl (k : Kernel Slot) : Quiet k k := ⟨rfl, rfl, rfl, rfl, rfl⟩

theorem Quiet.modify {k₁ : Kernel Slot} (h : Quiet k k₁) (b : Slot) {f : Tcb Slot → Tcb Slot}
    (next : ∀ t, (f t).next = t.next) (state : ∀ t, (f t).state = t.state) :
    Quiet k (k₁.modify b f) :=
  ⟨(Kernel.modify_links k₁ b f (next _)).trans h.links, h.runQueue,
    (Kernel.modify_state k₁ b f (state _)).trans h.state, h.currentPcb, h.idlePcb⟩

theorem Quiet.linked (h : Quiet k k') (linked : k.Linked l) : k'.Linked l :=
  linked.congr h.links h.runQueue fun b _ dead => by rwa [h.state] at dead

inductive Advanced (k : Kernel Slot) (l : List Slot) (c : Creator) :
    Kernel Slot → Creator → Prop
  | inside (k' : Kernel Slot) (c' : Creator) (linked : k'.Linked l) (building : Building k' l c')
      (notReturned : c'.pc ≠ .returned) (notEnqueued : enqueues c.pc = false)
      (states : ∀ b ∈ l, k'.state b = k.state b) (currentPcb : k'.currentPcb = k.currentPcb)
      (idlePcb : k'.idlePcb = k.idlePcb) : Advanced k l c k' c'
  | enqueued (k' : Kernel Slot) (p : Slot) (own : c.pcb = some p) (enqueues : enqueues c.pc = true)
      (unlisted : p ∉ l) (linked : k'.Linked (l ++ [p])) (states : k'.state = k.state)
      (currentPcb : k'.currentPcb = k.currentPcb) (idlePcb : k'.idlePcb = k.idlePcb) :
      Advanced k l c k' (c.goto .returned)

theorem Building.quietly (h : Building k l c) (linked : k.Linked l) (quiet : Quiet k k')
    {pc : CreatePc} (passes : Passes c.pc pc) (place : Placed l pc) :
    Advanced k l c k' (c.goto pc) :=
  .inside k' _ (quiet.linked linked)
    ((h.congr fun b dead => by rwa [quiet.state] at dead).goto passes place) passes.notReturned
    passes.notEnqueued (fun b _ => congrFun quiet.state b) quiet.currentPcb quiet.idlePcb

theorem Building.stored (h : Building k l c) (linked : k.Linked l) {k₁ : Kernel Slot}
    (quiet : Quiet k k₁) {f : Tcb Slot → Tcb Slot} {pc : CreatePc}
    (ran : c.pcb.map (fun pcb => (k₁.modify pcb f, c.goto pc)) = some (k', c'))
    (next : ∀ t, (f t).next = t.next) (state : ∀ t, (f t).state = t.state) (passes : Passes c.pc pc)
    (place : Placed l pc) : Advanced k l c k' c' := by
  -- A store into the new block, of a field that the scheduler does not look at.
  obtain ⟨p, _, made⟩ := Option.map_eq_some_iff.mp ran
  cases made
  exact h.quietly linked (quiet.modify p next state) passes place

theorem Building.unlink (h : Building k l c) (linked : k.Linked l) {pc : CreatePc}
    (ran : c.pcb.map (fun pcb => (k.setNext pcb none, c.goto pc)) = some (k', c'))
    (far : 2 ≤ rank c.pc) (passes : Passes c.pc pc) (place : Placed l pc) :
    Advanced k l c k' c' := by
  obtain ⟨p, isP, made⟩ := Option.map_eq_some_iff.mp ran
  cases made
  rw [Kernel.setNext_unlinked (linked.unlinked p (h.unlisted far passes.running p isP))]
  exact h.quietly linked (.refl k) passes place

theorem Building.pick (linked : k.Linked l) (notEnqueued : enqueues c.pc = false)
    {i : Fin maxProcesses} (dead : k.state (.pcb i) = .dead) :
    Advanced k l c k { c with pcb := some (.pcb i), pc := .testWord 0 } := by
  have unlisted : Slot.pcb i ∉ l := fun member => linked.live _ member dead
  refine .inside k _ linked ?_ (by simp) notEnqueued (fun _ _ => rfl) rfl rfl
  constructor <;> simp [rank, unlisted, Placed]

theorem Building.setState (h : Building k l c) (linked : k.Linked l) (pc : c.pc = .setState)
    {p : Slot} (isP : c.pcb = some p) :
    Advanced k l c (k.setState p .ready) (c.goto .setPriority) := by
  have far : 2 ≤ rank c.pc := by simp [pc, rank]
  have unlisted : p ∉ l := h.unlisted far (by simp [pc, rank]) p isP
  refine .inside _ _ (linked.setState p (by decide)) ?_ (by simp) (by simp [pc, enqueues]) ?_ rfl rfl
  · refine ⟨fun _ => h.picked far, fun _ _ => h.unlisted far (by simp [pc, rank]), ?_, trivial⟩
    intro _ b isB
    obtain rfl : p = b := Option.some.inj (isP.symm.trans isB)
    simp [Kernel.setState_state]
  · intro b member
    have different : b ≠ p := fun same => unlisted (same ▸ member)
    rw [Kernel.setState_state, Function.update_of_ne different]

theorem Building.setHead (h : Building k l c) (linked : k.Linked l) (pc : c.pc = .setHead)
    {p : Slot} (isP : c.pcb = some p) :
    Advanced k l c { k with runQueue := some p } (c.goto .returned) := by
  have unlisted : p ∉ l := h.unlisted (by simp [pc, rank]) (by simp [pc, rank]) p isP
  have empty : l = [] := by
    have place := h.place
    rwa [pc] at place
  subst empty
  refine .enqueued _ p isP (by simp [pc, enqueues]) unlisted ⟨⟨rfl, ?_⟩, ?_, ?_⟩ rfl rfl rfl
  · exact linked.unlinked p unlisted
  · exact fun b _ => linked.unlinked b List.not_mem_nil
  · intro b member
    rw [List.mem_singleton.mp member]
    exact h.alive (by simp [pc, rank]) p isP

theorem Building.linkTail (h : Building k l c) (linked : k.Linked l) {tail : Slot}
    (pc : c.pc = .linkTail tail) {p : Slot} (isP : c.pcb = some p) :
    Advanced k l c (k.setNext tail (some p)) (c.goto .returned) := by
  have unlisted : p ∉ l := h.unlisted (by simp [pc, rank]) (by simp [pc, rank]) p isP
  have alive : k.state p ≠ .dead := h.alive (by simp [pc, rank]) p isP
  have last : l.getLast? = some tail := by
    have place := h.place
    rwa [pc] at place
  have longer := linked.linkTail last unlisted alive
  rw [Kernel.setNext_eq_relink] at longer ⊢
  exact .enqueued _ p isP (by simp [pc, enqueues]) unlisted longer rfl rfl rfl

theorem Building.statement (h : Building k l c) (linked : k.Linked l)
    (ran : k.createStatement c = some (k', c')) : Advanced k l c k' c' := by
  have place := h.place
  unfold Kernel.createStatement at ran
  cases pc : c.pc with
  | testUnused i =>
      simp only [pc] at ran
      split at ran
      next passed =>
        cases ran
        simp only [Kernel.slotUnused, Bool.and_eq_true, decide_eq_true_eq] at passed
        exact Building.pick linked (by simp [pc, enqueues]) passed.1
      next =>
        split at ran <;> cases ran <;>
          exact h.quietly linked (.refl k) (by constructor <;> simp [pc, rank, enqueues]) trivial
  | testUsedBefore i =>
      simp only [pc] at ran
      split at ran
      next passed =>
        cases ran
        exact Building.pick linked (by simp [pc, enqueues]) (by simpa [Kernel.slotUsedBefore] using passed)
      next =>
        split at ran <;> cases ran <;>
          exact h.quietly linked (.refl k) (by constructor <;> simp [pc, rank, enqueues]) trivial
  | testWord i =>
      simp only [pc] at ran
      split at ran
      next =>
        split at ran <;> cases ran <;>
          exact h.quietly linked (.refl k) (by constructor <;> simp [pc, rank, enqueues]) trivial
      next =>
        cases ran
        exact h.quietly linked (.refl k) (by constructor <;> simp [pc, rank, enqueues]) trivial
  | testPage i bit =>
      simp only [pc] at ran
      split at ran
      next =>
        cases ran
        refine .inside k _ linked ?_ (by simp) (by simp [pc, enqueues]) (fun _ _ => rfl) rfl rfl
        exact ⟨fun _ => h.picked (by simp [pc, rank]),
          fun _ _ => h.unlisted (by simp [pc, rank]) (by simp [pc, rank]), by simp [rank], trivial⟩
      next =>
        split at ran <;> cases ran <;>
          exact h.quietly linked (.refl k) (by constructor <;> simp [pc, rank, enqueues]) trivial
  | setPage =>
      simp only [pc] at ran
      cases ran
      have stored : Quiet k { k with pmm := k.pmm.bitmapSet c.page } := ⟨rfl, rfl, rfl, rfl, rfl⟩
      exact h.quietly linked stored (by constructor <;> simp [pc, rank, enqueues]) trivial
  | decrement =>
      simp only [pc] at ran
      cases ran
      have stored : Quiet k { k with pmm := { k.pmm with freePages := k.pmm.freePages - 1#32 } } :=
        ⟨rfl, rfl, rfl, rfl, rfl⟩
      split
      next => exact h.quietly linked stored (by constructor <;> simp [pc, rank, enqueues]) trivial
      next => exact h.quietly linked stored (by constructor <;> simp [pc, rank, enqueues]) trivial
  | storeEntry =>
      simp only [pc] at ran
      cases ran
      have stored : Quiet k { k with memory := Function.update k.memory c.sp c.entryFn } :=
        ⟨rfl, rfl, rfl, rfl, rfl⟩
      exact h.quietly linked stored (by constructor <;> simp [pc, rank, enqueues]) trivial
  | setPid =>
      simp only [pc] at ran
      have counted : Quiet k { k with nextPid := k.nextPid + 1#32 } := ⟨rfl, rfl, rfl, rfl, rfl⟩
      exact h.stored linked counted ran (fun _ => rfl) (fun _ => rfl)
        (by constructor <;> simp [pc, rank, enqueues]) trivial
  | setState =>
      simp only [pc] at ran
      obtain ⟨p, isP, made⟩ := Option.map_eq_some_iff.mp ran
      cases made
      exact h.setState linked pc isP
  | setPriority =>
      simp only [pc] at ran
      exact h.stored linked (.refl k) ran (fun _ => rfl) (fun _ => rfl)
        (by constructor <;> simp [pc, rank, enqueues]) trivial
  | setEsp =>
      simp only [pc] at ran
      exact h.stored linked (.refl k) ran (fun _ => rfl) (fun _ => rfl)
        (by constructor <;> simp [pc, rank, enqueues]) trivial
  | setStackBase =>
      simp only [pc] at ran
      exact h.stored linked (.refl k) ran (fun _ => rfl) (fun _ => rfl)
        (by constructor <;> simp [pc, rank, enqueues]) trivial
  | setNext =>
      simp only [pc] at ran
      exact h.unlink linked ran (by simp [pc, rank]) (by constructor <;> simp [pc, rank, enqueues])
        trivial
  | clearNext =>
      simp only [pc] at ran
      exact h.unlink linked ran (by simp [pc, rank]) (by constructor <;> simp [pc, rank, enqueues])
        trivial
  | testHead =>
      simp only [pc] at ran
      cases ran
      split
      next empty =>
        have queue := linked.queue
        rw [Kernel.Queue, empty] at queue
        exact h.quietly linked (.refl k) (by constructor <;> simp [pc, rank, enqueues]) queue.head_none
      next => exact h.quietly linked (.refl k) (by constructor <;> simp [pc, rank, enqueues]) trivial
  | setHead =>
      simp only [pc] at ran
      obtain ⟨p, isP⟩ := h.picked (by simp [pc, rank])
      cases ran
      rw [isP]
      exact h.setHead linked pc isP
  | loadHead =>
      simp only [pc] at ran
      obtain ⟨tail, isHead, made⟩ := Option.map_eq_some_iff.mp ran
      cases made
      have queue := linked.queue
      rw [Kernel.Queue, isHead] at queue
      obtain ⟨rest, rfl, _⟩ := queue.head_some
      exact h.quietly linked (.refl k) (by constructor <;> simp [pc, rank, enqueues]) List.mem_cons_self
  | testTail tail =>
      rw [pc] at place
      simp only [pc] at ran
      cases ran
      split
      next final =>
        have last := linked.queue.last_of_next_none place final
        exact h.quietly linked (.refl k) (by constructor <;> simp [pc, rank, enqueues]) last
      next => exact h.quietly linked (.refl k) (by constructor <;> simp [pc, rank, enqueues]) place
  | advance tail =>
      rw [pc] at place
      simp only [pc] at ran
      obtain ⟨next, link, made⟩ := Option.map_eq_some_iff.mp ran
      cases made
      have listed := linked.queue.next_mem place link
      exact h.quietly linked (.refl k) (by constructor <;> simp [pc, rank, enqueues]) listed
  | linkTail tail =>
      simp only [pc] at ran
      obtain ⟨p, isP⟩ := h.picked (by simp [pc, rank])
      cases ran
      rw [isP]
      exact h.linkTail linked pc isP
  | returned => simp [pc] at ran
  | returnedNull => simp [pc] at ran

end Statement

/-- The blocks made are listed and, but for the one in the window, BLOCKED; none is current. -/
structure Hidden (m : Machine) (l : List Slot) : Prop where
  linked : m.kernel.Linked l
  current : ∃ current, m.kernel.currentPcb = some current ∧ current ∉ m.made
  idle : ∃ idle, m.kernel.idlePcb = some idle
  building : ∀ c, m.command = some c → Building m.kernel l c
  inWindow : ∀ p, window m = some p → p ∈ m.made
  made : ∀ p ∈ m.made, p ∈ l ∧ (window m = some p ∨ m.kernel.state p = .blocked)

theorem Hidden.hides {m : Machine} {l : List Slot} (h : Hidden m l) : Hides m := by
  obtain ⟨current, running, absent⟩ := h.current
  intro c isCurrent
  obtain rfl := Option.some.inj (running.symm.trans isCurrent)
  exact absent

theorem Hidden.switchTo {m : Machine} {l : List Slot} (h : Hidden m l) (current : Slot)
    {next : Slot} (absent : next ∉ m.made) :
    Hidden { m with kernel := m.kernel.switchTo current next } l := by
  refine ⟨h.linked.switchTo current next, ⟨next, rfl, absent⟩, by simpa using h.idle, ?_, h.inWindow, ?_⟩
  · exact fun c isC => (h.building c isC).congr fun _ => Kernel.switchTo_dead
  · intro p member
    obtain ⟨listed, held⟩ := h.made p member
    refine ⟨listed, held.imp_right fun blocked => ?_⟩
    have notNext : p ≠ next := fun same => absent (same ▸ member)
    exact Kernel.switchTo_keeps notNext blocked (by decide)

theorem Hidden.tick {m m' : Machine} {l : List Slot} (h : Hidden m l) (spared : Spared m .tick)
    (taken : Step m .tick m') : Hidden m' l := by
  obtain ⟨k, scheduled, rfl⟩ := Option.map_eq_some_iff.mp taken
  obtain ⟨current, running, _⟩ := h.current
  obtain ⟨idle, idling⟩ := h.idle
  obtain ⟨earlier, fallback⟩ := spared l h.linked.queue.entries current running
  obtain ⟨k', result, _, cases⟩ := h.linked.schedule running idling
  obtain rfl := Option.some.inj (scheduled.symm.trans result)
  cases cases with
  | idles => exact h
  | itself => exact h
  | ready next _ _ isReady first =>
      refine h.switchTo current fun member => ?_
      rcases (h.made next member).2 with inWindow | blocked
      next =>
        obtain ⟨b, before, ready⟩ := earlier next inWindow isReady
        have listed : next ∈ Kernel.successors l current := List.mem_of_find?_eq_some first
        have none := (find?_eq_some_self listed (by simpa using isReady)).mp first b before
        simp [ready] at none
      next =>
        rw [isReady] at blocked
        cases blocked
  | fallback _ nobody => exact h.switchTo current (fallback nobody idle idling)

theorem Hidden.not_hides_of_tick {m m' : Machine} {l : List Slot} (h : Hidden m l)
    (unspared : ¬ Spared m .tick) (taken : Step m .tick m') : ¬ Hides m' := by
  obtain ⟨k, scheduled, rfl⟩ := Option.map_eq_some_iff.mp taken
  obtain ⟨current, running, absent⟩ := h.current
  obtain ⟨idle, idling⟩ := h.idle
  obtain ⟨k', result, _, cases⟩ := h.linked.schedule running idling
  obtain rfl := Option.some.inj (scheduled.symm.trans result)
  intro hides
  apply unspared
  intro l' isQueue c isCurrent
  obtain rfl : l = l' := Option.some.inj (h.linked.queue.entries.symm.trans isQueue)
  obtain rfl : current = c := Option.some.inj (running.symm.trans isCurrent)
  constructor
  next =>
    intro p inWindow isReady
    have member := h.inWindow p inWindow
    have listed := (h.made p member).1
    apply Classical.byContradiction
    intro noneBefore
    -- Then the search finds `p`, which gets the CPU.
    have found : (Kernel.successors l current).find? (fun b => m.kernel.state b = .ready) = some p := by
      refine (find?_eq_some_self (Kernel.mem_successors.mpr listed) (by simpa using isReady)).mpr ?_
      intro b before
      rw [decide_eq_false_iff_not]
      exact fun ready => noneBefore ⟨b, before, ready⟩
    cases cases with
    | idles _ nobody => exact nobody p listed isReady
    | itself _ _ first =>
        obtain rfl := Option.some.inj (found.symm.trans first)
        exact absent member
    | ready next _ _ _ first =>
        obtain rfl := Option.some.inj (found.symm.trans first)
        exact hides p rfl member
    | fallback _ nobody => exact nobody p listed isReady
  next =>
    intro nobody i isIdle member
    obtain rfl : idle = i := Option.some.inj (idling.symm.trans isIdle)
    cases cases with
    | idles isIdle => exact absent (isIdle ▸ member)
    | itself listed isReady => exact nobody current listed isReady
    | ready next _ listed isReady => exact nobody next listed isReady
    | fallback => exact hides idle rfl member

theorem Hidden.newprocess {m m' : Machine} {l : List Slot} (h : Hidden m l) {counterProcess : U32}
    (taken : Step m (.newprocess counterProcess) m') : Hidden m' l := by
  simp only [Step, step] at taken
  split at taken
  next enabled =>
    cases taken
    have idleWindow : window m = none := by rw [window, Option.isNone_iff_eq_none.mp enabled.2]; rfl
    refine ⟨h.linked, h.current, h.idle, ?_, by simp [window, result, Creator.call], ?_⟩
    · rintro _ ⟨⟩
      constructor <;> simp [Creator.call, rank, Placed]
    · intro p member
      obtain ⟨listed, held⟩ := h.made p member
      exact ⟨listed, .inr (held.resolve_left (by simp [idleWindow]))⟩
  next => cases taken

theorem statement_cases {m m' : Machine} {c : Creator} (ran : statement m c = some m') :
    (c.pc = .returned ∧ ∃ p, c.pcb = some p ∧
      m' = { m with kernel := m.kernel.setState p .blocked, command := none }) ∨
    (c.pc = .returnedNull ∧ m' = { m with command := none }) ∨
    (c.pc ≠ .returned ∧ ∃ k' c', m.kernel.createStatement c = some (k', c') ∧
      m' = { m with kernel := k', command := some c', made := (result c').toList ++ m.made }) := by
  unfold statement at ran
  split at ran
  next pc =>
    obtain ⟨p, isP, rfl⟩ := Option.map_eq_some_iff.mp ran
    exact .inl ⟨pc, p, isP, rfl⟩
  next pc => exact .inr (.inl ⟨pc, (Option.some.inj ran).symm⟩)
  next notReturned _ =>
    obtain ⟨⟨k', c'⟩, moved, rfl⟩ := Option.map_eq_some_iff.mp ran
    exact .inr (.inr ⟨notReturned, k', c', moved, rfl⟩)

theorem step_statement {m m' : Machine} (taken : Step m .statement m') :
    ∃ c, m.command = some c ∧ statement m c = some m' := by
  simp only [Step, step] at taken
  split at taken
  next => exact Option.bind_eq_some_iff.mp taken
  next => cases taken

theorem Hidden.blocked {m : Machine} {l : List Slot} (h : Hidden m l) {p : Slot}
    (inWindow : window m = some p) :
    Hidden { m with kernel := m.kernel.setState p .blocked, command := none } l := by
  -- `p->state = PROCESS_BLOCKED` closes the window.
  refine ⟨h.linked.setState p (by decide), h.current, h.idle, nofun, by simp [window], ?_⟩
  intro q member
  obtain ⟨listed, held⟩ := h.made q member
  refine ⟨listed, .inr ?_⟩
  rw [Kernel.setState_state]
  by_cases same : q = p
  next => rw [same, Function.update_self]
  next =>
    rw [Function.update_of_ne same]
    exact held.resolve_left fun isQ => same (Option.some.inj (isQ.symm.trans inWindow))

theorem Hidden.abandoned {m : Machine} {l : List Slot} (h : Hidden m l) (idleWindow : window m = none) :
    Hidden { m with command := none } l := by
  refine ⟨h.linked, h.current, h.idle, nofun, by simp [window], fun p member => ?_⟩
  obtain ⟨listed, held⟩ := h.made p member
  exact ⟨listed, .inr (held.resolve_left (by simp [idleWindow]))⟩

theorem Hidden.inside {m : Machine} {l : List Slot} (h : Hidden m l) (idleWindow : window m = none)
    {k' : Kernel Slot} {c' : Creator} (linked : k'.Linked l) (building : Building k' l c')
    (notReturned : c'.pc ≠ .returned) (states : ∀ b ∈ l, k'.state b = m.kernel.state b)
    (currentPcb : k'.currentPcb = m.kernel.currentPcb) (idlePcb : k'.idlePcb = m.kernel.idlePcb) :
    Hidden { m with kernel := k', command := some c', made := (result c').toList ++ m.made } l := by
  have pending : result c' = none := if_neg notReturned
  have made : (result c').toList ++ m.made = m.made := by rw [pending]; rfl
  rw [made]
  refine ⟨linked, by simpa [currentPcb] using h.current, by simpa [idlePcb] using h.idle, ?_,
    by simp [window, pending], ?_⟩
  · rintro _ ⟨⟩
    exact building
  · intro p member
    obtain ⟨listed, held⟩ := h.made p member
    exact ⟨listed, .inr ((states p listed).trans (held.resolve_left (by simp [idleWindow])))⟩

theorem Hidden.enqueued {m : Machine} {l : List Slot} (h : Hidden m l) (idleWindow : window m = none)
    {k' : Kernel Slot} {c : Creator} {p : Slot} (own : c.pcb = some p)
    (notCurrent : m.kernel.currentPcb ≠ some p) (linked : k'.Linked (l ++ [p]))
    (states : k'.state = m.kernel.state) (currentPcb : k'.currentPcb = m.kernel.currentPcb)
    (idlePcb : k'.idlePcb = m.kernel.idlePcb) :
    Hidden { m with kernel := k', command := some (c.goto .returned), made := p :: m.made }
      (l ++ [p]) := by
  obtain ⟨current, running, absent⟩ := h.current
  have returned : result (c.goto .returned) = some p := (if_pos rfl).trans own
  refine ⟨linked, ⟨current, currentPcb.trans running, ?_⟩, by simpa [idlePcb] using h.idle, ?_, ?_, ?_⟩
  · rw [List.mem_cons, not_or]
    exact ⟨fun same => notCurrent (same ▸ running), absent⟩
  · rintro _ ⟨⟩
    refine ⟨fun _ => ⟨p, own⟩, by simp [rank], fun _ q isQ => ?_, trivial⟩
    obtain rfl : p = q := Option.some.inj (own.symm.trans isQ)
    exact linked.live p (by simp)
  · intro q isQ
    obtain rfl : p = q := Option.some.inj (returned.symm.trans isQ)
    exact List.mem_cons_self
  · intro q member
    rcases List.mem_cons.mp member with rfl | older
    · exact ⟨by simp, .inl returned⟩
    · obtain ⟨listed, held⟩ := h.made q older
      exact ⟨List.mem_append_left _ listed,
        .inr ((congrFun states q).trans (held.resolve_left (by simp [idleWindow])))⟩

theorem Hidden.statement {m m' : Machine} {l : List Slot} (h : Hidden m l)
    (spared : Spared m .statement) (taken : Step m .statement m') : ∃ l', Hidden m' l' := by
  obtain ⟨c, isCommand, ran⟩ := step_statement taken
  have windowIs : window m = result c := by rw [window, isCommand]; rfl
  rcases statement_cases ran with ⟨pc, p, isP, rfl⟩ | ⟨pc, rfl⟩ | ⟨notReturned, k', c', moved, rfl⟩
  next => exact ⟨l, h.blocked (windowIs.trans ((if_pos pc).trans isP))⟩
  next => exact ⟨l, h.abandoned (windowIs.trans (if_neg (by simp [pc])))⟩
  next =>
    have idleWindow : window m = none := windowIs.trans (if_neg notReturned)
    cases (h.building c isCommand).statement h.linked moved with
    | inside _ linked building notReturned _ states currentPcb idlePcb =>
        exact ⟨l, h.inside idleWindow linked building notReturned states currentPcb idlePcb⟩
    | enqueued p own enqueues _ linked states currentPcb idlePcb =>
        have notCurrent : m.kernel.currentPcb ≠ some p := fun isP =>
          spared c isCommand enqueues (own.trans isP.symm)
        have made : (result (c.goto .returned)).toList ++ m.made = p :: m.made := by
          rw [show result (c.goto .returned) = some p from (if_pos rfl).trans own]
          rfl
        rw [made]
        exact ⟨_, h.enqueued idleWindow own notCurrent linked states currentPcb idlePcb⟩

theorem Hidden.not_hides_of_statement {m m' : Machine} {l : List Slot} (h : Hidden m l)
    (unspared : ¬ Spared m .statement) (taken : Step m .statement m') : ¬ Hides m' := by
  -- A killed block still runs its code, and its slot is free for the process it makes.
  obtain ⟨c, isCommand, ran⟩ := step_statement taken
  intro hides
  apply unspared
  intro d isD entering same
  obtain rfl : c = d := Option.some.inj (isCommand.symm.trans isD)
  rcases statement_cases ran with ⟨pc, _⟩ | ⟨pc, _⟩ | ⟨_, k', c', moved, rfl⟩
  next => simp [pc, enqueues] at entering
  next => simp [pc, enqueues] at entering
  next =>
    cases (h.building c isCommand).statement h.linked moved with
    | inside _ _ _ _ notEnqueued => simp [notEnqueued] at entering
    | enqueued p own _ _ _ _ currentPcb =>
        have running : k'.currentPcb = some p := currentPcb.trans (same.symm.trans own)
        refine hides p running ?_
        simp [result, own]

theorem Hidden.step {m m' : Machine} {l : List Slot} (h : Hidden m l) {e : Event}
    (spared : Spared m e) (taken : Step m e m') : ∃ l', Hidden m' l' := by
  cases e with
  | newprocess counterProcess => exact ⟨l, h.newprocess taken⟩
  | statement => exact h.statement spared taken
  | tick => exact ⟨l, h.tick spared taken⟩

theorem Hidden.not_hides {m m' : Machine} {l : List Slot} (h : Hidden m l) {e : Event}
    (unspared : ¬ Spared m e) (taken : Step m e m') : ¬ Hides m' := by
  cases e with
  | newprocess counterProcess => exact absurd trivial unspared
  | statement => exact h.not_hides_of_statement unspared taken
  | tick => exact h.not_hides_of_tick unspared taken

theorem hidden_start {k : Kernel Slot} {l : List Slot} (consistent : k.Consistent l) (shell : Slot) :
    Hidden (start k shell) l := by
  obtain ⟨current, running⟩ := consistent.current
  exact ⟨consistent.toLinked, ⟨current, running, List.not_mem_nil⟩, consistent.idle, nofun,
    by simp [window, start], by simp [start]⟩

/--
From any state that calls and mutex operations reach, `newprocess` commands under any timer ticks
keep the CPU from what they make exactly if each step spares it.
-/
theorem always_hides_iff {M : Type} [DecidableEq M] (pmm : Pmm) (esp idleTask : U32)
    (memory : U32 → U32) (k₀ : Kernel Slot)
    (booted : (Kernel.bss pmm esp memory).schedulerInit idleTask = some k₀) (s : Dispatch.State M)
    (reached : Dispatch.Reachable (Dispatch.booted M k₀) s) (shell : Slot) (events : List Event) :
    Transition.Always Step Hides (start s.kernel shell) events ↔
      Transition.Meets Step Spared (start s.kernel shell) events := by
  obtain ⟨_, _, _, _, _, first⟩ := Kernel.schedulerInit_spec booted
  have sound : Dispatch.Sound (Dispatch.booted M k₀) := ⟨_, first⟩
  obtain ⟨l, consistent⟩ := sound.reachable reached
  refine Transition.always_iff_meets (fun (m : Machine) (h : ∃ l, Hidden m l) => h.elim fun _ h => h.hides)
    (fun _ _ _ h spared taken => ?_) (fun _ _ _ h unspared taken => ?_)
    ⟨l, hidden_start consistent shell⟩ events
  · obtain ⟨_, hidden⟩ := h
    exact hidden.step spared taken
  · obtain ⟨_, hidden⟩ := h
    exact hidden.not_hides unspared taken

/-- A tick after each statement up to the `enqueue`, and none before the block is BLOCKED. -/
def ticksOutside : List Event :=
  .newprocess 0x100200#32 :: (List.replicate 34 [Event.statement, .tick]).flatten ++
    [.statement, .statement, .tick]

theorem always_hides_ticksOutside :
    ∃ k, smallBoot = some k ∧
      ((ticksOutside.foldlM step (start k (.pcb 0))).map fun m =>
        (m.made, m.kernel.state (.pcb 1), m.kernel.currentPcb)) =
          some ([.pcb 1], .blocked, some (.pcb 0)) ∧
      Transition.Always Step Hides (start k (.pcb 0)) ticksOutside := by
  have evaluated : (smallBoot.map fun k => decide (
      (ticksOutside.foldlM (fun m e => if Spared m e then step m e else none)
        (start k (.pcb 0))).isSome ∧
      ((ticksOutside.foldlM step (start k (.pcb 0))).map fun m =>
        (m.made, m.kernel.state (.pcb 1), m.kernel.currentPcb)) =
          some ([.pcb 1], .blocked, some (.pcb 0)))) = some true := by
    decide +kernel
  obtain ⟨k, booted, values⟩ := Option.map_eq_some_iff.mp evaluated
  obtain ⟨guarded, ran⟩ := of_decide_eq_true values
  obtain ⟨m, spared⟩ := Option.isSome_iff_exists.mp guarded
  exact ⟨k, booted, ran, (always_hides_iff _ _ _ _ k booted (Dispatch.booted Unit k) .refl _ _).mpr
    (.of_run spared)⟩

def tickInWindow : List Event :=
  .newprocess 0x100200#32 :: List.replicate 35 Event.statement ++ [.tick]

theorem not_always_hides_tickInWindow :
    ∃ k, smallBoot = some k ∧ k.currentPcb = some (.pcb 0) ∧
      ¬ Transition.Always Step Hides (start k (.pcb 0)) tickInWindow := by
  have evaluated : (smallBoot.bind fun k =>
      (tickInWindow.foldlM step (start k (.pcb 0))).map fun m =>
        decide (k.currentPcb = some (.pcb 0) ∧ m.made = [.pcb 1] ∧
          m.kernel.currentPcb = some (.pcb 1))) = some true := by
    decide +kernel
  obtain ⟨k, booted, afterBoot⟩ := Option.bind_eq_some_iff.mp evaluated
  obtain ⟨m, ran, values⟩ := Option.map_eq_some_iff.mp afterBoot
  obtain ⟨shell, made, running⟩ := of_decide_eq_true values
  refine ⟨k, booted, shell, fun always => ?_⟩
  exact always.of_run ran (.pcb 1) running (made ▸ List.mem_singleton_self _)

end Newprocess

end SoraOS
