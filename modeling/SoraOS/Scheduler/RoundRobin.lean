import Mathlib.Data.List.Rotate
import SoraOS.Scheduler.Schedule

set_option autoImplicit false

namespace SoraOS.Kernel

variable {B : Type} [DecidableEq B]

theorem successors_nodup {front back : List B} {b : B} (distinct : (front ++ b :: back).Nodup) :
    successors (front ++ b :: back) b = back ++ (front ++ [b]) := by
  apply successors_split
  intro again
  exact (List.nodup_cons.mp (List.nodup_middle.mp distinct)).1 (List.mem_append_left _ again)

theorem successors_successors {l before after : List B} {current next : B} (distinct : l.Nodup)
    (listed : current ∈ l) (split : successors l current = before ++ next :: after) :
    successors l next = after ++ (before ++ [next]) := by
  -- Going on from an entry of the cyclic order is the same cycle, cut elsewhere.
  obtain ⟨front, back, rfl⟩ := List.append_of_mem listed
  rw [successors_nodup distinct] at split
  have wrapped (turn : List B) (earlier : before = back ++ turn)
      (later : front ++ [current] = turn ++ next :: after) :
      successors (front ++ current :: back) next = after ++ (before ++ [next]) := by
    subst earlier
    rcases after.eq_nil_or_concat with rfl | ⟨rest, last, rfl⟩
    · obtain ⟨rfl, rfl⟩ : front = turn ∧ current = next := by simpa using List.append_inj' later rfl
      simpa using successors_nodup distinct
    · rw [List.concat_eq_append] at later ⊢
      obtain ⟨rfl, rfl⟩ : front = turn ++ next :: rest ∧ current = last := by
        simpa using List.append_inj' (later.trans (List.append_assoc _ (next :: rest) _).symm) rfl
      rw [List.append_assoc, List.cons_append] at distinct ⊢
      simpa using successors_nodup distinct
  rcases List.append_eq_append_iff.mp split with ⟨turn, earlier, later⟩ | ⟨turn, rfl, later⟩
  · exact wrapped turn earlier later
  · cases turn with
    | nil => exact wrapped [] (by simp) (by simpa using later.symm)
    | cons b turn =>
        obtain ⟨rfl, rfl⟩ : next = b ∧ after = turn ++ (front ++ [current]) := by simpa using later
        have there : front ++ current :: (before ++ next :: turn) =
            (front ++ current :: before) ++ next :: turn := by simp
        rw [there] at distinct ⊢
        simpa using successors_nodup distinct

theorem successors_last {l before after : List B} {current : B} (distinct : l.Nodup)
    (listed : current ∈ l) (split : successors l current = before ++ current :: after) :
    after = [] := by
  obtain ⟨front, back, rfl⟩ := List.append_of_mem listed
  rw [successors_nodup distinct, ← List.append_assoc] at split
  have absent := (List.nodup_cons.mp (List.nodup_middle.mp distinct)).1
  rcases after.eq_nil_or_concat with rfl | ⟨rest, last, rfl⟩
  · rfl
  · rw [List.concat_eq_append] at split
    have parts := List.append_inj' (split.trans (List.append_assoc _ (current :: rest) _).symm) rfl
    have again : current ∈ back ++ front := by simp [parts.1]
    exact absurd (List.perm_append_comm.mem_iff.mp again) absent

def Eligible (k : Kernel B) (b : B) : Prop := k.state b = .ready ∨ k.state b = .running

omit [DecidableEq B] in
instance (k : Kernel B) : DecidablePred k.Eligible := fun b =>
  inferInstanceAs (Decidable (k.state b = .ready ∨ k.state b = .running))

def turnAfter (k : Kernel B) (l : List B) (current : B) : B :=
  ((successors l current).find? fun p => k.state p = .ready).getD current

def turns (k : Kernel B) (l : List B) (current : B) : List B :=
  (successors l current).filter fun b => k.Eligible b

structure Runnable (k : Kernel B) (l : List B) (current idle : B) : Prop where
  queue : k.Queue l
  currentPcb : k.currentPcb = some current
  listed : current ∈ l
  running : k.state current = .running
  others : ∀ b ∈ l, b ≠ current → k.state b = .ready ∨ k.state b = .blocked
  idling : k.idlePcb = some idle
  idleListed : idle ∈ l
  idleAwake : k.state idle ≠ .blocked

variable {k : Kernel B} {l : List B} {current idle : B}

theorem mem_turns {b : B} : b ∈ k.turns l current ↔ b ∈ l ∧ k.Eligible b := by
  rw [turns, List.mem_filter, mem_successors, decide_eq_true_iff]

theorem Runnable.blocked_iff (h : Runnable k l current idle) {b : B} (listed : b ∈ l) :
    k.state b = .blocked ↔ ¬ k.Eligible b := by
  by_cases isCurrent : b = current
  next => simp [Eligible, isCurrent, h.running]
  next => rcases h.others b listed isCurrent with ready | blocked <;> simp [Eligible, *]

theorem Runnable.turns_last (h : Runnable k l current idle) :
    ∃ body, k.turns l current = body ++ [current] ∧ current ∉ body := by
  have distinct := h.queue.nodup
  obtain ⟨front, back, rfl⟩ := List.append_of_mem h.listed
  have eligible : k.Eligible current := .inr h.running
  refine ⟨(back ++ front).filter fun b => k.Eligible b, ?_, ?_⟩
  · rw [turns, successors_nodup distinct, ← List.append_assoc, List.filter_append]
    simp [eligible]
  · intro member
    have again := (List.nodup_cons.mp (List.nodup_middle.mp distinct)).1
    exact again ((List.perm_append_comm.mem_iff).mp (List.mem_of_mem_filter member))

theorem Runnable.turns_nodup (h : Runnable k l current idle) : (k.turns l current).Nodup := by
  have distinct := h.queue.nodup
  obtain ⟨front, back, rfl⟩ := List.append_of_mem h.listed
  rw [turns, successors_nodup distinct]
  apply List.Nodup.filter
  refine (List.Perm.nodup_iff ?_).mp distinct
  calc front ++ current :: back
      _ = (front ++ [current]) ++ back := by simp
      List.Perm _ (back ++ (front ++ [current])) := List.perm_append_comm

theorem Runnable.turnAfter_split (h : Runnable k l current idle) :
    ∃ before after, successors l current = before ++ k.turnAfter l current :: after ∧
      (∀ b ∈ before, ¬ k.Eligible b) ∧ k.Eligible (k.turnAfter l current) := by
  -- The next turn is the first of the coming ones; the queue splits around it.
  obtain ⟨body, shape, _⟩ := h.turns_last
  obtain ⟨first, rest, order⟩ : ∃ first rest, k.turns l current = first :: rest := by
    rw [shape]
    cases body <;> simp
  obtain ⟨before, after, split, skipped, eligible, _⟩ := List.filter_eq_cons_iff.mp order
  simp only [decide_eq_true_iff] at skipped eligible
  have notReady (b : B) (member : b ∈ before) : k.state b ≠ .ready :=
    fun isReady => skipped b member (.inl isReady)
  have found : (before.find? fun p => k.state p = .ready) = none := by
    simpa using notReady
  have listed : first ∈ l := (mem_turns.mp (order ▸ List.mem_cons_self ..)).1
  have turn : k.turnAfter l current = first := by
    rw [turnAfter, split, List.find?_append, found, Option.none_or]
    by_cases isCurrent : first = current
    next =>
      rw [isCurrent] at split ⊢
      rw [successors_last h.queue.nodup h.listed split]
      simp [h.running]
    next =>
      have isReady : k.state first = .ready := by
        rcases eligible with ready | running
        · exact ready
        · rcases h.others first listed isCurrent with other | other <;> simp [other] at running
      simp [isReady]
  exact ⟨before, after, turn ▸ split, skipped, turn ▸ eligible⟩

theorem Runnable.turns_rotate (h : Runnable k l current idle) {k' : Kernel B}
    (kept : ∀ b, k'.Eligible b ↔ k.Eligible b) :
    k'.turns l (k.turnAfter l current) = (k.turns l current).rotate 1 ∧
      (k.turns l current).head? = some (k.turnAfter l current) := by
  -- One turn: the coming ones move up, and the one just taken comes last.
  obtain ⟨before, after, split, skipped, eligible⟩ := h.turnAfter_split
  have again := successors_successors h.queue.nodup h.listed split
  have none : (before.filter fun b => k.Eligible b) = [] := by
    simpa using skipped
  have order : k.turns l current =
      k.turnAfter l current :: after.filter fun b => k.Eligible b := by
    rw [turns, split, List.filter_append, none]
    simp [eligible]
  constructor
  next =>
    rw [order, turns, again, List.rotate_cons_succ, List.rotate_zero]
    simp [kept, none, eligible]
  next => rw [order, List.head?_cons]

theorem switchTo_eligible {next : B} (running : k.state current = .running)
    (eligible : k.Eligible next) (b : B) : (k.switchTo current next).Eligible b ↔ k.Eligible b := by
  rw [Eligible, switchTo_state, if_pos running]
  by_cases isNext : b = next
  next => simp [isNext, eligible]
  next =>
    by_cases isCurrent : b = current
    next => simp [← isCurrent, isNext, Eligible, isCurrent ▸ running]
    next => simp [isNext, isCurrent, Eligible]

theorem Runnable.switchTo (h : Runnable k l current idle) {next : B} (listed : next ∈ l) :
    Runnable (k.switchTo current next) l next idle := by
  have states (b : B) : (k.switchTo current next).state b =
      if b = next then .running else if b = current then .ready else k.state b := by
    rw [switchTo_state, if_pos h.running]
    simp [Function.update_apply]
  refine ⟨?_, by simp, listed, ?_, ?_, by simp [h.idling], h.idleListed, ?_⟩
  · have queue := h.queue
    simpa [Queue] using queue
  · simp [states]
  · intro b member notNext
    rw [states, if_neg notNext]
    split
    next => exact .inl rfl
    next notCurrent => exact h.others b member notCurrent
  · rw [states]
    split
    next => simp
    next =>
      split
      next => simp
      next => exact h.idleAwake

variable [Fintype B]

theorem Runnable.schedule (h : Runnable k l current idle) :
    ∃ k', k.schedule = some k' ∧ Runnable k' l (k.turnAfter l current) idle ∧
      k'.links = k.links ∧ ∀ b, k'.Eligible b ↔ k.Eligible b := by
  obtain ⟨k', result, scheduled⟩ :=
    schedule_scheduled h.queue (fun absent => absurd h.listed absent) h.currentPcb h.idling
  refine ⟨k', result, ?_⟩
  cases scheduled with
  | idles isIdle nobody =>
      have stays : k.turnAfter l current = current := by
        have found : ((successors l current).find? fun p => k.state p = .ready) = none := by
          simpa [mem_successors] using nobody
        rw [turnAfter, found, Option.getD_none]
      exact ⟨stays.symm ▸ h, rfl, fun _ => Iff.rfl⟩
  | itself listed isReady first =>
      rw [h.running] at isReady
      cases isReady
  | ready next different listed isReady first =>
      have turn : k.turnAfter l current = next := by rw [turnAfter, first, Option.getD_some]
      rw [turn]
      exact ⟨h.switchTo listed, switchTo_links k current next,
        switchTo_eligible h.running (.inl isReady)⟩
  | fallback different nobody =>
      rcases h.others idle h.idleListed different with isReady | blocked
      · exact absurd isReady (nobody idle h.idleListed)
      · exact absurd blocked h.idleAwake

def scheduleTimes : Nat → Kernel B → Option (Kernel B)
  | 0, k => some k
  | n + 1, k => (scheduleTimes n k).bind Kernel.schedule

theorem Runnable.scheduleTimes (h : Runnable k l current idle) (n : Nat) :
    ∃ k' c, scheduleTimes n k = some k' ∧ Runnable k' l c idle ∧ k'.links = k.links ∧
      (∀ b, k'.Eligible b ↔ k.Eligible b) ∧ k'.turns l c = (k.turns l current).rotate n := by
  -- After `n` calls the coming turns are the first ones, rotated `n` times.
  induction n with
  | zero => exact ⟨k, current, rfl, h, rfl, fun _ => Iff.rfl, (List.rotate_zero _).symm⟩
  | succ n ih =>
      obtain ⟨k', c, reached, runnable, links, eligible, order⟩ := ih
      obtain ⟨k'', result, runnable', links', eligible'⟩ := runnable.schedule
      have rotated := (runnable.turns_rotate eligible').1
      refine ⟨k'', k'.turnAfter l c, ?_, runnable', links'.trans links, ?_, ?_⟩
      · rw [Kernel.scheduleTimes, reached, Option.bind_some, result]
      · exact fun b => (eligible' b).trans (eligible b)
      · rw [rotated, order, List.rotate_rotate]

def currentAfter (k : Kernel B) (n : Nat) : Option B := (scheduleTimes n k).bind Kernel.currentPcb

omit [Fintype B] in
theorem length_turns (k : Kernel B) (l : List B) (current : B) :
    (k.turns l current).length = (l.filter fun b => k.Eligible b).length := by
  apply List.Perm.length_eq
  apply List.Perm.filter
  exact successors_perm l current

theorem Runnable.currentAfter_succ (h : Runnable k l current idle) {n : Nat}
    (round : n < (k.turns l current).length) :
    k.currentAfter (n + 1) = (k.turns l current)[n]? := by
  obtain ⟨k', c, reached, runnable, _, _, order⟩ := h.scheduleTimes n
  obtain ⟨k'', result, runnable', _, eligible⟩ := runnable.schedule
  have first := (runnable.turns_rotate eligible).2
  rw [order, List.head?_rotate round] at first
  rw [currentAfter, Kernel.scheduleTimes, reached, Option.bind_some, result, Option.bind_some,
    runnable'.currentPcb, first]

theorem Runnable.current_once (h : Runnable k l current idle) {b : B} (listed : b ∈ l)
    (eligible : k.Eligible b) :
    ∃! n, n < (k.turns l current).length ∧ k.currentAfter (n + 1) = some b := by
  -- Within one round every eligible entry is made current exactly once.
  obtain ⟨n, inside, here⟩ := List.getElem_of_mem (mem_turns.mpr ⟨listed, eligible⟩)
  refine ⟨n, ⟨inside, ?_⟩, ?_⟩
  · rw [h.currentAfter_succ inside, List.getElem?_eq_getElem inside, here]
  · intro m ⟨inside', again⟩
    rw [h.currentAfter_succ inside', List.getElem?_eq_getElem inside', Option.some.injEq] at again
    exact (h.turns_nodup.getElem_inj_iff).mp (again.trans here.symm)

theorem Runnable.current_again (h : Runnable k l current idle) :
    k.currentAfter (k.turns l current).length = some current := by
  obtain ⟨k', c, reached, runnable, _, _, order⟩ := h.scheduleTimes (k.turns l current).length
  obtain ⟨body, last, _⟩ := h.turns_last
  obtain ⟨body', last', _⟩ := runnable.turns_last
  rw [order, List.rotate_length, last] at last'
  obtain ⟨_, same⟩ := List.append_inj' last' rfl
  rw [currentAfter, reached, Option.bind_some, runnable.currentPcb, List.singleton_inj.mp same]

/-- `schedule()` is fair round-robin over the READY and RUNNING entries of its queue. -/
theorem schedule_roundRobin (k : Kernel B) (l : List B) (current idle : B)
    (h : Runnable k l current idle) :
    (∀ n, ∃ k' k'' c, scheduleTimes n k = some k' ∧ k'.currentPcb = some c ∧
      k'.schedule = some k'' ∧ k''.currentPcb = some (k'.turnAfter l c) ∧
      k'.state (k'.turnAfter l c) ≠ .blocked ∧ k''.links = k.links ∧ k''.runQueue = k.runQueue ∧
      ∀ b ∈ l, k''.state b = .blocked ↔ k.state b = .blocked) ∧
    (∀ b ∈ l, k.Eligible b →
      ∃! n, n < (l.filter fun p => k.Eligible p).length ∧ k.currentAfter (n + 1) = some b) ∧
    k.currentAfter (l.filter fun p => k.Eligible p).length = some current := by
  rw [← length_turns k l current]
  refine ⟨?_, fun b listed eligible => h.current_once listed eligible, h.current_again⟩
  intro n
  obtain ⟨k', c, reached, runnable, links, kept, _⟩ := h.scheduleTimes n
  obtain ⟨k'', result, runnable', links', kept'⟩ := runnable.schedule
  refine ⟨k', k'', c, reached, runnable.currentPcb, result, runnable'.currentPcb, ?_,
    links'.trans links, runnable'.queue.head_eq.trans h.queue.head_eq.symm, ?_⟩
  · intro blocked
    have eligible := (kept' _).mp (.inr runnable'.running)
    simp [Eligible, blocked] at eligible
  · intro b listed
    rw [runnable'.blocked_iff listed, h.blocked_iff listed, kept', kept]

def fourEntries : Kernel (Fin 4) where
  block b :=
    { pid := BitVec.ofNat 32 (b + 1)
      state := if b = 0 then .running else if b = 2 then .blocked else .ready
      priority := 1#8
      esp := 0#32
      stackBase := 0#32
      next := if b = 3 then none else some (b + 1)
      tid := 0#32
      parent := none
      waitNext := none }
  runQueue := some 0
  currentPcb := some 0
  idlePcb := some 0
  nextPid := 5#32
  nextTid := 1#32
  tcbPoolInitialized := true
  pmm := { bitmap := fun _ => 0xFFFFFFFF#32, totalPages := 0, freePages := 0#32 }
  esp := 0#32
  memory := fun _ => 0#32

theorem runnable_fourEntries : Runnable fourEntries [0, 1, 2, 3] 0 0 where
  queue := by decide
  currentPcb := by decide
  listed := by decide
  running := by decide
  others := by decide
  idling := by decide
  idleListed := by decide
  idleAwake := by decide

theorem schedule_roundRobin_fourEntries :
    fourEntries.currentAfter 3 = some 0 ∧
      ∃! n, n < 3 ∧ fourEntries.currentAfter (n + 1) = some 3 := by
  have fair := schedule_roundRobin fourEntries [0, 1, 2, 3] 0 0 runnable_fourEntries
  exact ⟨fair.2.2, fair.2.1 3 (by decide) (by decide)⟩

end SoraOS.Kernel
