import SoraOS.Scheduler.RunQueue

set_option autoImplicit false

namespace SoraOS.Kernel

variable {B : Type} [DecidableEq B]

def contextSwitch (k : Kernel B) (old new : B) : Kernel B :=
  -- `mov [old+12], esp; mov esp, [new+12]`; the `ret` that follows resumes `new`.
  let k := k.modify old fun t => { t with esp := k.esp }
  { k with esp := (k.block new).esp }

/-- The end of `schedule()`, once `next` differs from `current_pcb`. -/
def switchTo (k : Kernel B) (old next : B) : Kernel B :=
  let k := if k.state old = .running then k.setState old .ready else k
  let k := k.setState next .running
  let k := { k with currentPcb := some next }
  k.contextSwitch old next

section Search

variable [Fintype B]

/-- The walk of the queue for a READY process; `some none` after a full loop without one. -/
def findReady (k : Kernel B) (current : B) : Option (Option B) :=
  let start := (k.links current).or k.runQueue
  PointerList.walkRing k.links k.runQueue (fun p => k.state p = .ready) start (loopFuel B) start

/-- `none` when the search never ends, or when idle is needed before it exists. -/
def schedule (k : Kernel B) : Option (Kernel B) :=
  match k.currentPcb with
  | none => some k
  | some current => do
      match ← k.findReady current with
      | some next => if next = current then return k else return k.switchTo current next
      | none =>
          if k.idlePcb = some current then return k
          else
            let idle ← k.idlePcb
            return k.switchTo current idle

/--
What `process_exit`, `killprocess` and `thread_delete` all do to their victim: mark it
DEAD, dequeue it, free its stack page, then zero the fields that `wipe` names.
-/
def release (k : Kernel B) (b : B) (wipe : Tcb B → Tcb B) : Option (Kernel B) := do
  let k := k.setState b .dead
  let k ← k.dequeue b
  let k := { k with pmm := k.pmm.pmmFreePage (k.block b).stackBase }
  return k.modify b wipe

def wipeExit (t : Tcb B) : Tcb B := { t with pid := 0#32, stackBase := 0#32, esp := 0#32 }

def leaveToIdle (k : Kernel B) (dying idle : B) : Kernel B :=
  let k := { k with currentPcb := some idle }
  let k := k.setState idle .running
  k.contextSwitch dying idle

def processExit (k : Kernel B) : Option (Kernel B) := do
  let dying ← k.currentPcb
  let idle ← k.idlePcb
  let k ← k.release dying wipeExit
  return k.leaveToIdle dying idle

end Search

@[simp] theorem contextSwitch_links (k : Kernel B) (old new : B) :
    (k.contextSwitch old new).links = k.links :=
  modify_links k old (fun t => { t with esp := k.esp }) rfl
@[simp] theorem contextSwitch_state (k : Kernel B) (old new : B) :
    (k.contextSwitch old new).state = k.state :=
  modify_state k old (fun t => { t with esp := k.esp }) rfl
@[simp] theorem contextSwitch_runQueue (k : Kernel B) (old new : B) :
    (k.contextSwitch old new).runQueue = k.runQueue := rfl
@[simp] theorem contextSwitch_currentPcb (k : Kernel B) (old new : B) :
    (k.contextSwitch old new).currentPcb = k.currentPcb := rfl
@[simp] theorem contextSwitch_idlePcb (k : Kernel B) (old new : B) :
    (k.contextSwitch old new).idlePcb = k.idlePcb := rfl
@[simp] theorem contextSwitch_pmm (k : Kernel B) (old new : B) :
    (k.contextSwitch old new).pmm = k.pmm := rfl
@[simp] theorem contextSwitch_tcbPoolInitialized (k : Kernel B) (old new : B) :
    (k.contextSwitch old new).tcbPoolInitialized = k.tcbPoolInitialized := rfl

theorem switchTo_state (k : Kernel B) (old next : B) :
    (k.switchTo old next).state =
      Function.update (if k.state old = .running then Function.update k.state old .ready else k.state)
        next .running := by
  by_cases running : k.state old = .running
  · simp only [switchTo, running, if_true, contextSwitch_state]
    rw [← setState_state, ← setState_state]
    rfl
  · simp only [switchTo, running, if_false, contextSwitch_state]
    rw [← setState_state]
    rfl

theorem switchTo_keeps {k : Kernel B} {old next b : B} {s : ProcessState} (different : b ≠ next)
    (state : k.state b = s) (notRunning : s ≠ .running) : (k.switchTo old next).state b = s := by
  rw [switchTo_state, Function.update_of_ne different]
  split
  next running =>
    have notOld : b ≠ old := by
      rintro rfl
      exact notRunning (state.symm.trans running)
    rw [Function.update_of_ne notOld, state]
  next => exact state

@[simp] theorem switchTo_links (k : Kernel B) (old next : B) :
    (k.switchTo old next).links = k.links := by
  have relabel (k' : Kernel B) :
      ({ k'.setState next .running with currentPcb := some next } : Kernel B).links = k'.links :=
    setState_links k' next .running
  simp only [switchTo, contextSwitch_links, relabel]
  split <;> simp

@[simp] theorem switchTo_runQueue (k : Kernel B) (old next : B) :
    (k.switchTo old next).runQueue = k.runQueue := by
  simp only [switchTo, contextSwitch_runQueue, setState_runQueue]
  split <;> rfl
@[simp] theorem switchTo_currentPcb (k : Kernel B) (old next : B) :
    (k.switchTo old next).currentPcb = some next := rfl
@[simp] theorem switchTo_idlePcb (k : Kernel B) (old next : B) :
    (k.switchTo old next).idlePcb = k.idlePcb := by
  simp only [switchTo, contextSwitch_idlePcb, setState_idlePcb]
  split <;> rfl
@[simp] theorem switchTo_pmm (k : Kernel B) (old next : B) :
    (k.switchTo old next).pmm = k.pmm := by
  simp only [switchTo, contextSwitch_pmm, setState_pmm]
  split <;> rfl
@[simp] theorem switchTo_tcbPoolInitialized (k : Kernel B) (old next : B) :
    (k.switchTo old next).tcbPoolInitialized = k.tcbPoolInitialized := by
  simp only [switchTo, contextSwitch_tcbPoolInitialized, setState_tcbPoolInitialized]
  split <;> rfl

@[simp] theorem leaveToIdle_links (k : Kernel B) (dying idle : B) :
    (k.leaveToIdle dying idle).links = k.links := by
  rw [leaveToIdle, contextSwitch_links, setState_links]
  rfl
@[simp] theorem leaveToIdle_state (k : Kernel B) (dying idle : B) :
    (k.leaveToIdle dying idle).state = Function.update k.state idle .running := by
  rw [leaveToIdle, contextSwitch_state, setState_state]
  rfl
@[simp] theorem leaveToIdle_runQueue (k : Kernel B) (dying idle : B) :
    (k.leaveToIdle dying idle).runQueue = k.runQueue := rfl
@[simp] theorem leaveToIdle_currentPcb (k : Kernel B) (dying idle : B) :
    (k.leaveToIdle dying idle).currentPcb = some idle := rfl
@[simp] theorem leaveToIdle_idlePcb (k : Kernel B) (dying idle : B) :
    (k.leaveToIdle dying idle).idlePcb = k.idlePcb := rfl
@[simp] theorem leaveToIdle_pmm (k : Kernel B) (dying idle : B) :
    (k.leaveToIdle dying idle).pmm = k.pmm := rfl
@[simp] theorem leaveToIdle_tcbPoolInitialized (k : Kernel B) (dying idle : B) :
    (k.leaveToIdle dying idle).tcbPoolInitialized = k.tcbPoolInitialized := rfl

section Field

variable {A : Type} (field : Tcb B → A)

theorem modify_field (k : Kernel B) (b : B) {f : Tcb B → Tcb B}
    (kept : field (f (k.block b)) = field (k.block b)) (c : B) :
    field ((k.modify b f).block c) = field (k.block c) := by
  rw [modify_block]
  split
  next same => rw [same, kept]
  next => rfl

theorem setState_field (state : ∀ t s, field { t with state := s } = field t) (k : Kernel B) (c : B)
    (s : ProcessState) (b : B) : field ((k.setState c s).block b) = field (k.block b) :=
  modify_field field k c (state _ s) b

theorem contextSwitch_field (esp : ∀ t e, field { t with esp := e } = field t) (k : Kernel B)
    (old new b : B) : field ((k.contextSwitch old new).block b) = field (k.block b) :=
  modify_field field (f := fun t => { t with esp := k.esp }) k old (esp _ _) b

theorem switchTo_field (state : ∀ t s, field { t with state := s } = field t)
    (esp : ∀ t e, field { t with esp := e } = field t) (k : Kernel B) (old next b : B) :
    field ((k.switchTo old next).block b) = field (k.block b) := by
  rw [switchTo, contextSwitch_field field esp]
  refine (setState_field field state _ next .running b).trans ?_
  split
  next => exact setState_field field state k old .ready b
  next => rfl

theorem leaveToIdle_field (state : ∀ t s, field { t with state := s } = field t)
    (esp : ∀ t e, field { t with esp := e } = field t) (k : Kernel B) (dying idle b : B) :
    field ((k.leaveToIdle dying idle).block b) = field (k.block b) := by
  rw [leaveToIdle, contextSwitch_field field esp]
  exact setState_field field state _ idle .running b

end Field

/-- The queue entries in the order `schedule()` examines them, `current` last. -/
def successors (l : List B) (current : B) : List B :=
  if current ∈ l then l.drop (l.idxOf current + 1) ++ l.take (l.idxOf current + 1) else l

theorem successors_split {front back : List B} {current : B} (absent : current ∉ front) :
    successors (front ++ current :: back) current = back ++ (front ++ [current]) := by
  have index : (front ++ current :: back).idxOf current = front.length := by
    rw [List.idxOf_append_of_notMem absent]
    simp
  have member : current ∈ front ++ current :: back := by simp
  have length : front.length + 1 = (front ++ [current]).length := by simp
  rw [successors, if_pos member, index, List.append_cons, length, List.drop_left, List.take_left]

theorem successors_perm (l : List B) (current : B) : (successors l current).Perm l := by
  unfold successors
  split
  next =>
    calc l.drop (l.idxOf current + 1) ++ l.take (l.idxOf current + 1)
        List.Perm _ (l.take (l.idxOf current + 1) ++ l.drop (l.idxOf current + 1)) :=
          List.perm_append_comm
        _ = l := List.take_append_drop ..
  next => exact List.Perm.refl l

theorem mem_successors {l : List B} {current b : B} : b ∈ successors l current ↔ b ∈ l :=
  (successors_perm l current).mem_iff

theorem search_start {k : Kernel B} {l : List B} (current : B) (queue : k.Queue l)
    (unlinked : current ∉ l → k.links current = none) :
    (l = [] ∧ (k.links current).or k.runQueue = none) ∨
    ∃ x front back, l = front ++ x :: back ∧ (k.links current).or k.runQueue = some x ∧
      successors l current = x :: back ++ front := by
  -- The search starts behind the current block, or at the head when nothing is behind it.
  by_cases member : current ∈ l
  · obtain ⟨front, back, rfl⟩ := List.append_of_mem member
    have absent : current ∉ front := by
      have distinct := queue.nodup
      rw [List.nodup_append] at distinct
      exact fun again => distinct.2.2 current again current (by simp) rfl
    have link := PointerList.Reads.next_eq _ _ queue
    rw [successors_split absent]
    cases back with
    | nil =>
        cases front with
        | nil => exact Or.inr ⟨current, [], [], rfl, by simp [link, queue.head_eq], rfl⟩
        | cons f fs =>
            exact Or.inr ⟨f, [], fs ++ [current], rfl, by simp [link, queue.head_eq], by simp⟩
    | cons b bs => exact Or.inr ⟨b, front ++ [current], bs, by simp, by simp [link], by simp⟩
  · have link := unlinked member
    rw [successors, if_neg member]
    cases l with
    | nil =>
        have empty : k.runQueue = none := queue
        exact Or.inl ⟨rfl, by simp [link, empty]⟩
    | cons x xs => exact Or.inr ⟨x, [], xs, rfl, by simp [link, queue.head_eq], by simp⟩

variable [Fintype B]

theorem findReady_eq {k : Kernel B} {l : List B} (current : B) (queue : k.Queue l)
    (unlinked : current ∉ l → k.links current = none) :
    k.findReady current = some ((successors l current).find? fun p => k.state p = .ready) := by
  rw [findReady]
  rcases search_start current queue unlinked with ⟨rfl, start⟩ | ⟨x, front, back, rfl, start, order⟩
  · rw [start]
    simp [successors, loopFuel, PointerList.walkRing]
  · rw [start, order]
    exact PointerList.walkRing_reads _ queue _ queue.length_lt.le

inductive Scheduled (k : Kernel B) (l : List B) (current idle : B) : Kernel B → Prop
  | idles (isIdle : current = idle) (nobody : ∀ b ∈ l, k.state b ≠ .ready) :
      Scheduled k l current idle k
  | itself (listed : current ∈ l) (isReady : k.state current = .ready)
      (first : (successors l current).find? (fun p => k.state p = .ready) = some current) :
      Scheduled k l current idle k
  | ready (next : B) (different : next ≠ current) (listed : next ∈ l) (isReady : k.state next = .ready)
      (first : (successors l current).find? (fun p => k.state p = .ready) = some next) :
      Scheduled k l current idle (k.switchTo current next)
  | fallback (different : idle ≠ current) (nobody : ∀ b ∈ l, k.state b ≠ .ready) :
      Scheduled k l current idle (k.switchTo current idle)

theorem schedule_scheduled {k : Kernel B} {l : List B} (queue : k.Queue l) {current idle : B}
    (unlinked : current ∉ l → k.links current = none) (running : k.currentPcb = some current)
    (idling : k.idlePcb = some idle) :
    ∃ k', k.schedule = some k' ∧ k.Scheduled l current idle k' := by
  have searched := findReady_eq current queue unlinked
  cases found : (successors l current).find? (fun p => k.state p = .ready) with
  | some next =>
      rw [found] at searched
      have listed : next ∈ l := mem_successors.mp (List.mem_of_find?_eq_some found)
      have isReady : k.state next = .ready := by simpa using List.find?_some found
      by_cases same : next = current
      · subst same
        exact ⟨k, by simp [schedule, running, searched], .itself listed isReady found⟩
      · exact ⟨_, by simp [schedule, running, searched, same], .ready next same listed isReady found⟩
  | none =>
      rw [found] at searched
      have nobody (b : B) (listed : b ∈ l) : k.state b ≠ .ready := by
        simpa using List.find?_eq_none.mp found b (mem_successors.mpr listed)
      by_cases same : idle = current
      · exact ⟨k, by simp [schedule, running, searched, idling, same], .idles same.symm nobody⟩
      · exact ⟨_, by simp [schedule, running, searched, idling, same], .fallback same nobody⟩

theorem schedule_target {k k' : Kernel B} {current : B} (running : k.currentPcb = some current)
    (result : k.schedule = some k') :
    (k.state current = .ready ∨ k.idlePcb = some current) ∧ k' = k ∨
      ∃ next, next ≠ current ∧ (k.state next = .ready ∨ k.idlePcb = some next) ∧
        k' = k.switchTo current next := by
  simp only [schedule, running] at result
  obtain ⟨found, searched, rest⟩ := Option.bind_eq_some_iff.mp result
  cases found with
  | some next =>
      have isReady : k.state next = .ready := by simpa using PointerList.walkRing_some searched
      by_cases same : next = current
      · simp only [same, if_true, Option.pure_def, Option.some.injEq] at rest
        exact Or.inl ⟨Or.inl (same ▸ isReady), rest.symm⟩
      · simp only [same, if_false, Option.pure_def, Option.some.injEq] at rest
        exact Or.inr ⟨next, same, Or.inl isReady, rest.symm⟩
  | none =>
      by_cases isIdle : k.idlePcb = some current
      · simp only [isIdle, if_true, Option.pure_def, Option.some.injEq] at rest
        exact Or.inl ⟨Or.inr isIdle, rest.symm⟩
      · simp only [isIdle, if_false] at rest
        obtain ⟨idle, idling, rest⟩ := Option.bind_eq_some_iff.mp rest
        refine Or.inr ⟨idle, ?_, Or.inr idling, (Option.some.inj rest).symm⟩
        rintro rfl
        exact isIdle idling

/-- The kernel `release` leaves, given the links and the head of the shortened queue. -/
def released (k : Kernel B) (b : B) (wipe : Tcb B → Tcb B) (next : B → Option B) (head : Option B) :
    Kernel B :=
  ({ (k.setState b .dead).relink next head with
      pmm := k.pmm.pmmFreePage (k.block b).stackBase } : Kernel B).modify b wipe

theorem release_spec {k : Kernel B} {l : List B} (b : B) (wipe : Tcb B → Tcb B)
    (queue : k.Queue l) (unlinked : ∀ c ∉ l, k.links c = none) :
    ∃ next head, k.release b wipe = some (k.released b wipe next head) ∧
      PointerList.Reads next head (l.erase b) ∧ ∀ c ∉ l.erase b, next c = none := by
  have marked : (k.setState b .dead).Queue l := by simpa [Queue] using queue
  obtain ⟨next, head, result, shorter, rest⟩ := dequeue_spec b marked (by simpa using unlinked)
  refine ⟨next, head, ?_, shorter, rest⟩
  have stack : ((k.setState b .dead).relink next head).block b =
      { k.block b with state := .dead, next := next b } := by
    simp [relink, setState]
  simp only [release, result, Option.bind_eq_bind, Option.bind_some, relink_pmm, setState_pmm, stack]
  rfl

section Released

variable (k : Kernel B) (b : B) (wipe : Tcb B → Tcb B) (next : B → Option B) (head : Option B)

omit [Fintype B] in
theorem released_links (keeps : ∀ t, (wipe t).next = t.next) :
    (k.released b wipe next head).links = next := by
  rw [released, modify_links _ _ _ (keeps _)]
  rfl

omit [Fintype B] in
theorem released_state (keeps : ∀ t, (wipe t).state = t.state) :
    (k.released b wipe next head).state = Function.update k.state b .dead := by
  rw [released, modify_state _ _ _ (keeps _), ← setState_state]
  rfl

omit [Fintype B] in
@[simp] theorem released_runQueue : (k.released b wipe next head).runQueue = head := rfl

omit [Fintype B] in
@[simp] theorem released_currentPcb : (k.released b wipe next head).currentPcb = k.currentPcb := rfl

omit [Fintype B] in
@[simp] theorem released_idlePcb : (k.released b wipe next head).idlePcb = k.idlePcb := rfl

omit [Fintype B] in
@[simp] theorem released_pmm :
    (k.released b wipe next head).pmm = k.pmm.pmmFreePage (k.block b).stackBase := rfl

omit [Fintype B] in
@[simp] theorem released_tcbPoolInitialized :
    (k.released b wipe next head).tcbPoolInitialized = k.tcbPoolInitialized := rfl

omit [Fintype B] in
theorem released_block_other {c : B} (different : c ≠ b) :
    (k.released b wipe next head).block c = { k.block c with next := next c } := by
  rw [released, modify_block_other _ _ different]
  simp [relink, setState, modify_block_other _ _ different]

omit [Fintype B] in
theorem released_field {A : Type} (field : Tcb B → A)
    (state : ∀ t s, field { t with state := s } = field t)
    (link : ∀ t n, field { t with next := n } = field t) (wiped : ∀ t, field (wipe t) = field t)
    (c : B) : field ((k.released b wipe next head).block c) = field (k.block c) := by
  rw [released, modify_field field _ b (wiped _)]
  exact (link _ _).trans (setState_field field state k b .dead c)

end Released

end SoraOS.Kernel
