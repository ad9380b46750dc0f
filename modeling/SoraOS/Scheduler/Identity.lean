import SoraOS.Scheduler.Calls
import SoraOS.Scheduler.Listing
import SoraOS.Shared.Transition

set_option autoImplicit false

namespace SoraOS

section Increasing

variable {B : Type} {key key' : B → U32} {l l' : List B} {newest : U32} {b : B}

structure Increasing (key : B → U32) (l : List B) (newest : U32) : Prop where
  sorted : l.Pairwise fun a b => key a < key b
  nonzero : ∀ b ∈ l, key b ≠ 0#32
  bounded : ∀ b ∈ l, key b ≤ newest

theorem Increasing.sublist (h : Increasing key l newest) (sub : l'.Sublist l) :
    Increasing key l' newest :=
  ⟨h.sorted.sublist sub, fun b member => h.nonzero b (sub.subset member),
    fun b member => h.bounded b (sub.subset member)⟩

theorem Increasing.congr (h : Increasing key l newest) (same : ∀ b ∈ l, key' b = key b) :
    Increasing key' l newest := by
  refine ⟨h.sorted.imp_of_mem ?_, fun b member => ?_, fun b member => ?_⟩
  · intro a b aListed bListed less
    rwa [same a aListed, same b bListed]
  · rw [same b member]
    exact h.nonzero b member
  · rw [same b member]
    exact h.bounded b member

theorem Increasing.append (h : Increasing key l newest) (room : newest.toNat + 1 < 2 ^ 32)
    (old : ∀ b ∈ l, key' b = key b) (new : key' b = newest + 1#32) :
    Increasing key' (l ++ [b]) (newest + 1#32) := by
  -- The next key is above all earlier ones, as the counter does not wrap.
  have kept := h.congr old
  have value : (newest + 1#32).toNat = newest.toNat + 1 := by
    simp only [BitVec.toNat_add, BitVec.toNat_ofNat]
    omega
  have above (a : B) (member : a ∈ l) : key' a < newest + 1#32 := by
    have bound := kept.bounded a member
    rw [BitVec.le_def] at bound
    rw [BitVec.lt_def, value]
    omega
  refine ⟨?_, fun a member => ?_, fun a member => ?_⟩
  · rw [List.pairwise_append]
    refine ⟨kept.sorted, List.pairwise_singleton _ _, fun a member c isNew => ?_⟩
    rw [List.mem_singleton.mp isNew, new]
    exact above a member
  · rcases List.mem_append.mp member with older | isNew
    next => exact kept.nonzero a older
    next =>
      rw [List.mem_singleton.mp isNew, new]
      intro zero
      rw [zero] at value
      exact absurd value (Nat.succ_ne_zero _).symm
  · rcases List.mem_append.mp member with older | isNew
    next => exact BitVec.le_of_lt (above a older)
    next =>
      rw [List.mem_singleton.mp isNew, new]
      exact BitVec.le_refl _

end Increasing

def Slot.isProcess : Slot → Bool
  | .pcb _ => true
  | .tcb _ => false

def Slot.isThread : Slot → Bool
  | .pcb _ => false
  | .tcb _ => true

namespace Kernel

section Labels

variable (k : Kernel Slot)

theorem modify_pid (b : Slot) (f : Tcb Slot → Tcb Slot)
    (kept : (f (k.block b)).pid = (k.block b).pid) : (k.modify b f).pid = k.pid :=
  funext (modify_field (fun t => t.pid) k b kept)

@[simp] theorem setState_pid (b : Slot) (s : ProcessState) : (k.setState b s).pid = k.pid :=
  funext (setState_field (fun t => t.pid) (fun _ _ => rfl) k b s)

@[simp] theorem setState_tid (b : Slot) (s : ProcessState) : (k.setState b s).tid = k.tid :=
  funext (setState_field Tcb.tid (fun _ _ => rfl) k b s)

@[simp] theorem switchTo_pid (old next : Slot) : (k.switchTo old next).pid = k.pid :=
  funext (switchTo_field (fun t => t.pid) (fun _ _ => rfl) (fun _ _ => rfl) k old next)

@[simp] theorem switchTo_tid (old next : Slot) : (k.switchTo old next).tid = k.tid :=
  funext (switchTo_field Tcb.tid (fun _ _ => rfl) (fun _ _ => rfl) k old next)

@[simp] theorem leaveToIdle_pid (dying idle : Slot) : (k.leaveToIdle dying idle).pid = k.pid :=
  funext (leaveToIdle_field (fun t => t.pid) (fun _ _ => rfl) (fun _ _ => rfl) k dying idle)

@[simp] theorem leaveToIdle_tid (dying idle : Slot) : (k.leaveToIdle dying idle).tid = k.tid :=
  funext (leaveToIdle_field Tcb.tid (fun _ _ => rfl) (fun _ _ => rfl) k dying idle)

end Labels

theorem withProcess_pid (k : Kernel Slot) (pcb : Slot) (entryFn : U32) (priority : U8)
    (next : Slot → Option Slot) (head : Option Slot) (b : Slot) :
    (k.withProcess pcb entryFn priority next head).pid b =
      if b = pcb then k.nextPid + 1#32 else k.pid b := by
  by_cases same : b = pcb <;> simp [pid, withProcess_block, pcbFields, same]

theorem withProcess_tid (k : Kernel Slot) (pcb : Slot) (entryFn : U32) (priority : U8)
    (next : Slot → Option Slot) (head : Option Slot) (b : Slot) :
    (k.withProcess pcb entryFn priority next head).tid b = k.tid b := by
  by_cases same : b = pcb <;> simp [tid, withProcess_block, pcbFields, same]

theorem withThread_pid (k : Kernel Slot) (tcb : Slot) (parent : Option Slot) (entryFn : U32)
    (next : Slot → Option Slot) (head : Option Slot) (b : Slot) :
    (k.withThread tcb parent entryFn next head).pid b =
      if b = tcb then 0#32 else k.ensurePoolInit.pid b := by
  by_cases same : b = tcb <;> simp [pid, withThread_block, tcbFields, same]

@[simp] theorem ensurePoolInit_nextPid (k : Kernel Slot) : k.ensurePoolInit.nextPid = k.nextPid := by
  unfold ensurePoolInit
  split <;> rfl

@[simp] theorem ensurePoolInit_nextTid (k : Kernel Slot) : k.ensurePoolInit.nextTid = k.nextTid := by
  unfold ensurePoolInit
  split <;> rfl

theorem withThread_tid (k : Kernel Slot) (tcb : Slot) (parent : Option Slot) (entryFn : U32)
    (next : Slot → Option Slot) (head : Option Slot) (b : Slot) :
    (k.withThread tcb parent entryFn next head).tid b =
      if b = tcb then k.nextTid + 1#32 else k.ensurePoolInit.tid b := by
  by_cases same : b = tcb <;> simp [tid, withThread_block, tcbFields, same]

@[simp] theorem switchTo_nextPid (k : Kernel Slot) (old next : Slot) :
    (k.switchTo old next).nextPid = k.nextPid := by
  unfold switchTo
  dsimp only
  split <;> rfl

@[simp] theorem switchTo_nextTid (k : Kernel Slot) (old next : Slot) :
    (k.switchTo old next).nextTid = k.nextTid := by
  unfold switchTo
  dsimp only
  split <;> rfl

end Kernel

def Op.processesMade : Op → Option Slot → Nat
  | .createProcess _ _, some _ => 1
  | .newprocess _, some _ => 1
  | _, _ => 0

def Op.threadsMade : Op → Option Slot → Nat
  | .createThread _ _, some _ => 1
  | _, _ => 0

namespace Identity

/-- A run so far: the kernel, and how many processes and threads it has created since boot. -/
structure Counted where
  kernel : Kernel Slot
  processes : Nat
  threads : Nat

def step (s : Counted) (c : Call) : Option Counted :=
  (s.kernel.call c).map fun r =>
    { kernel := r.2
      processes := s.processes + c.op.processesMade r.1
      threads := s.threads + c.op.threadsMade r.1 }

def run (s : Counted) (calls : List Call) : Option Counted := calls.foldlM step s

/--
PIDs and TIDs increase strictly along the queue and none is zero, PID zero marks the threads, and
the listings cast nothing else to a thread.
-/
structure Identified (k : Kernel Slot) (l : List Slot) : Prop where
  pids : ((l.filter Slot.isProcess).map k.pid).Pairwise (· < ·)
  pidsNonzero : ∀ p ∈ l.filter Slot.isProcess, k.pid p ≠ 0#32
  tids : ((l.filter Slot.isThread).map k.tid).Pairwise (· < ·)
  tidsNonzero : ∀ t ∈ l.filter Slot.isThread, k.tid t ≠ 0#32
  tag : ∀ b ∈ l, k.pid b = 0#32 ↔ ∃ i, b = .tcb i
  casts : k.cmdThreads.isSome ∧ k.cmdLs.isSome

structure Labelled (k : Kernel Slot) (l : List Slot) (processes threads : Nat) : Prop where
  pids : Increasing k.pid (l.filter Slot.isProcess) k.nextPid
  tids : Increasing k.tid (l.filter Slot.isThread) k.nextTid
  tag : ∀ t ∈ l.filter Slot.isThread, k.pid t = 0#32
  -- Idle has the first PID.
  nextPid : k.nextPid.toNat = processes + 1
  nextTid : k.nextTid.toNat = threads

theorem mapM_isSome {A C : Type} {f : A → Option C} {xs : List A} (all : ∀ a ∈ xs, (f a).isSome) :
    (xs.mapM f).isSome := by
  induction xs with
  | nil => rfl
  | cons a rest ih =>
      obtain ⟨c, here⟩ := Option.isSome_iff_exists.mp (all a List.mem_cons_self)
      obtain ⟨cs, later⟩ := Option.isSome_iff_exists.mp
        (ih fun b member => all b (List.mem_cons_of_mem _ member))
      simp [List.mapM_cons, here, later]

theorem Labelled.identified {k : Kernel Slot} {l : List Slot} {processes threads : Nat}
    (h : Labelled k l processes threads) (queue : k.Queue l) : Identified k l := by
  have tag (b : Slot) (member : b ∈ l) : k.pid b = 0#32 ↔ ∃ i, b = .tcb i := by
    cases b with
    | pcb i =>
        have nonzero := h.pids.nonzero (.pcb i) (List.mem_filter.mpr ⟨member, rfl⟩)
        simp [nonzero]
    | tcb i =>
        have zero := h.tag (.tcb i) (List.mem_filter.mpr ⟨member, rfl⟩)
        simp [zero]
  have casts : k.cmdThreads.isSome := by
    simp only [Kernel.cmdThreads, queue.entries, Option.bind_eq_bind, Option.bind_some]
    apply mapM_isSome
    intro b member
    obtain ⟨listed, zero⟩ := List.mem_filter.mp member
    obtain ⟨i, rfl⟩ := (tag b listed).mp (of_decide_eq_true zero)
    rfl
  refine ⟨List.pairwise_map.mpr h.pids.sorted, h.pids.nonzero, List.pairwise_map.mpr h.tids.sorted,
    h.tids.nonzero, tag, casts, ?_⟩
  obtain ⟨threads, listed⟩ := Option.isSome_iff_exists.mp casts
  simp [Kernel.cmdLs, Kernel.cmdPs, queue.entries, listed]

theorem Labelled.congr {k k' : Kernel Slot} {l : List Slot} {processes threads : Nat}
    (h : Labelled k l processes threads) (pids : ∀ b ∈ l, k'.pid b = k.pid b)
    (tids : ∀ b ∈ l, k'.tid b = k.tid b) (nextPid : k'.nextPid = k.nextPid)
    (nextTid : k'.nextTid = k.nextTid) : Labelled k' l processes threads where
  pids := nextPid ▸ h.pids.congr fun b member => pids b (List.mem_of_mem_filter member)
  tids := nextTid ▸ h.tids.congr fun b member => tids b (List.mem_of_mem_filter member)
  tag t member := (pids t (List.mem_of_mem_filter member)).trans (h.tag t member)
  nextPid := nextPid ▸ h.nextPid
  nextTid := nextTid ▸ h.nextTid

theorem Labelled.erase {k : Kernel Slot} {l : List Slot} {processes threads : Nat}
    (h : Labelled k l processes threads) (b : Slot) : Labelled k (l.erase b) processes threads where
  pids := h.pids.sublist (List.erase_sublist.filter _)
  tids := h.tids.sublist (List.erase_sublist.filter _)
  tag t member := h.tag t ((List.erase_sublist.filter _).subset member)
  nextPid := h.nextPid
  nextTid := h.nextTid

theorem Labelled.released {k : Kernel Slot} {l : List Slot} {processes threads : Nat}
    (h : Labelled k l processes threads) (distinct : l.Nodup) (b : Slot) (wipe : Tcb Slot → Tcb Slot)
    (next : Slot → Option Slot) (head : Option Slot) :
    Labelled (k.released b wipe next head) (l.erase b) processes threads := by
  have other (c : Slot) (member : c ∈ l.erase b) :
      (k.released b wipe next head).block c = { k.block c with next := next c } :=
    Kernel.released_block_other k b wipe next head (distinct.mem_erase_iff.mp member).1
  refine (h.erase b).congr (fun c member => ?_) (fun c member => ?_) rfl rfl
  · rw [Kernel.pid, other c member, Kernel.pid]
  · rw [Kernel.tid, other c member, Kernel.tid]

theorem Labelled.withProcess {k : Kernel Slot} {l : List Slot} {processes threads : Nat}
    (h : Labelled k l processes threads) {i : Fin maxProcesses} (fresh : Slot.pcb i ∉ l)
    (entryFn : U32) (priority : U8) (next : Slot → Option Slot) (head : Option Slot)
    (room : processes + 1 < 2 ^ 32 - 1) :
    Labelled (k.withProcess (.pcb i) entryFn priority next head) (l ++ [.pcb i]) (processes + 1)
      threads := by
  have nextPid := h.nextPid
  have older (b : Slot) (member : b ∈ l) :
      (k.withProcess (.pcb i) entryFn priority next head).pid b = k.pid b := by
    have different : b ≠ Slot.pcb i := fun same => fresh (same ▸ member)
    rw [Kernel.withProcess_pid, if_neg different]
  refine ⟨?_, ?_, ?_, ?_, h.nextTid⟩
  · rw [List.filter_append]
    refine h.pids.append (by omega) (fun b member => older b (List.mem_of_mem_filter member)) ?_
    rw [Kernel.withProcess_pid, if_pos rfl]
  · rw [List.filter_append, show [Slot.pcb i].filter Slot.isThread = [] from rfl, List.append_nil]
    exact h.tids.congr fun b _ => Kernel.withProcess_tid k _ entryFn priority next head b
  · intro t member
    rw [List.filter_append, show [Slot.pcb i].filter Slot.isThread = [] from rfl,
      List.append_nil] at member
    rw [older t (List.mem_of_mem_filter member)]
    exact h.tag t member
  · change (k.nextPid + 1#32).toNat = processes + 1 + 1
    rw [BitVec.toNat_add, nextPid]
    exact Nat.mod_eq_of_lt (by rw [BitVec.toNat_ofNat]; omega)

theorem Labelled.withThread {k : Kernel Slot} {l : List Slot} {processes threads : Nat}
    (h : Labelled k.ensurePoolInit l processes threads) {i : Fin maxThreads} (fresh : Slot.tcb i ∉ l)
    (parent : Option Slot) (entryFn : U32) (next : Slot → Option Slot) (head : Option Slot)
    (room : threads + 1 < 2 ^ 32 - 1) :
    Labelled (k.withThread (.tcb i) parent entryFn next head) (l ++ [.tcb i]) processes
      (threads + 1) := by
  have nextTid := h.nextTid
  have different (b : Slot) (member : b ∈ l) : b ≠ Slot.tcb i := fun same => fresh (same ▸ member)
  have older (b : Slot) (member : b ∈ l) :
      (k.withThread (.tcb i) parent entryFn next head).pid b = k.ensurePoolInit.pid b := by
    rw [Kernel.withThread_pid, if_neg (different b member)]
  refine ⟨?_, ?_, ?_, h.nextPid, ?_⟩
  · rw [List.filter_append, show [Slot.tcb i].filter Slot.isProcess = [] from rfl, List.append_nil]
    exact h.pids.congr fun b member => older b (List.mem_of_mem_filter member)
  · rw [List.filter_append]
    refine h.tids.append (by omega) (fun b member => ?_) ?_
    · rw [Kernel.withThread_tid, if_neg (different b (List.mem_of_mem_filter member))]
    · rw [Kernel.withThread_tid, if_pos rfl, Kernel.ensurePoolInit_nextTid]
  · intro t member
    rw [List.filter_append, List.mem_append] at member
    rcases member with listed | isNew
    next =>
      rw [older t (List.mem_of_mem_filter listed)]
      exact h.tag t listed
    next =>
      have same : t = Slot.tcb i := List.mem_singleton.mp (List.mem_of_mem_filter isNew)
      rw [Kernel.withThread_pid, if_pos same]
  · change (k.ensurePoolInit.nextTid + 1#32).toNat = threads + 1
    rw [BitVec.toNat_add, nextTid]
    exact Nat.mod_eq_of_lt (by rw [BitVec.toNat_ofNat]; omega)

theorem Labelled.ensurePoolInit {k : Kernel Slot} {l : List Slot} {processes threads : Nat}
    (h : Labelled k l processes threads) (consistent : k.Consistent l) :
    Labelled k.ensurePoolInit l processes threads := by
  refine h.congr (fun b member => ?_) (fun b member => ?_) (by simp) (by simp)
  · rw [Kernel.pid, consistent.ensurePoolInit_block member, Kernel.pid]
  · rw [Kernel.tid, consistent.ensurePoolInit_block member, Kernel.tid]

theorem Labelled.outcome {k k' : Kernel Slot} {l : List Slot} {processes threads : Nat}
    (h : Labelled k l processes threads) (consistent : k.Consistent l) {op : Op}
    {block : Option Slot} (outcome : Kernel.Outcome k l op block k')
    (roomForProcess : processes + op.processesMade block < 2 ^ 32 - 1)
    (roomForThread : threads + op.threadsMade block < 2 ^ 32 - 1) :
    Labelled k' (op.edit block l) (processes + op.processesMade block)
      (threads + op.threadsMade block) := by
  have distinct := consistent.queue.nodup
  cases outcome with
  | processPoolFull => exact h
  | processNoStack => exact h.congr (fun _ _ => rfl) (fun _ _ => rfl) rfl rfl
  | process entryFn priority i next head found _ =>
      have fresh := consistent.allocPcb_fresh found
      exact h.withProcess fresh entryFn priority next head roomForProcess
  | newprocessFailed _ _ failed =>
      cases failed with
      | processPoolFull => exact h
      | processNoStack => exact h.congr (fun _ _ => rfl) (fun _ _ => rfl) rfl rfl
  | newprocess counterProcess _ _ created =>
      cases created with
      | process _ _ i next head found _ =>
          have fresh := consistent.allocPcb_fresh found
          have made := h.withProcess fresh counterProcess 1#8 next head roomForProcess
          exact made.congr (by simp) (by simp) rfl rfl
  | threadPoolFull => exact h.ensurePoolInit consistent
  | threadNoStack =>
      exact (h.ensurePoolInit consistent).congr (fun _ _ => rfl) (fun _ _ => rfl) rfl rfl
  | thread parent entryFn i next head found _ =>
      have fresh := consistent.allocTcb_fresh found
      exact (h.ensurePoolInit consistent).withThread fresh parent entryFn next head roomForThread
  | schedule current idle _ running idling scheduled =>
      have switched (next : Slot) : Labelled (k.switchTo current next) l processes threads :=
        h.congr (by simp) (by simp) (by simp) (by simp)
      cases scheduled with
      | idles => exact h
      | itself => exact h
      | ready next => exact switched next
      | fallback => exact switched idle
  | exit current idle next head =>
      have shorter := h.released distinct current Kernel.wipeExit next head
      exact shorter.congr (by simp) (by simp) rfl rfl
  | killNothing => exact h
  | kill name argument rest p next head => exact h.released distinct p Kernel.wipeProcess next head
  | deleteNothing => exact h.ensurePoolInit consistent
  | delete tid i next head =>
      exact (h.ensurePoolInit consistent).released distinct (.tcb i) Kernel.wipeThread next head

/-- The labels are right unless a counter has wrapped. -/
def Sound (s : Counted) : Prop :=
  ∃ l, s.kernel.Consistent l ∧ (s.processes < 2 ^ 32 - 1 → s.threads < 2 ^ 32 - 1 →
    Labelled s.kernel l s.processes s.threads)

theorem Sound.step {s t : Counted} (h : Sound s) {c : Call} (taken : step s c = some t) :
    Sound t := by
  obtain ⟨l, consistent, labelled⟩ := h
  obtain ⟨block, k, result, outcome, kept⟩ := consistent.call c
  simp only [Identity.step, result, Option.map_some, Option.some.injEq] at taken
  subst taken
  refine ⟨_, kept, fun processes threads => ?_⟩
  have before := labelled (by simp only at processes; omega) (by simp only at threads; omega)
  have placed : Labelled { s.kernel with esp := c.esp } l s.processes s.threads :=
    before.congr (fun _ _ => rfl) (fun _ _ => rfl) rfl rfl
  exact placed.outcome (consistent.withEsp c.esp) outcome processes threads

theorem sound_of_booted {pmm : Pmm} {esp idleTask : U32} {memory : U32 → U32} {k : Kernel Slot}
    (booted : (Kernel.bss pmm esp memory).schedulerInit idleTask = some k) : Sound ⟨k, 0, 0⟩ := by
  obtain ⟨i, next, head, _, shape, consistent⟩ := Kernel.schedulerInit_spec booted
  have first : k.pid (.pcb i) = 1#32 := by
    have made := Kernel.withProcess_pid (Kernel.bss pmm esp memory).zeroPcbPool (.pcb i) idleTask
      0#8 next head (.pcb i)
    rw [if_pos rfl] at made
    rw [shape, Kernel.setState_pid]
    exact made
  have nextPid : k.nextPid = 1#32 := by
    rw [shape]
    rfl
  refine ⟨_, consistent, fun _ _ => ⟨⟨List.pairwise_singleton _ _, ?_, ?_⟩, ⟨List.Pairwise.nil, ?_, ?_⟩,
    ?_, by rw [nextPid]; rfl, by rw [shape]; rfl⟩⟩
  · intro b member
    rw [List.mem_singleton.mp member, first]
    decide
  · intro b member
    rw [List.mem_singleton.mp member, first, nextPid]
    decide
  · exact fun b member => absurd member List.not_mem_nil
  · exact fun b member => absurd member List.not_mem_nil
  · exact fun b member => absurd member List.not_mem_nil

/--
In every run from `scheduler_init` with fewer than 2^32 - 1 creations of each kind, the queue lists
its processes by increasing PID and its threads, which alone have PID zero, by increasing TID.
-/
theorem identified_of_run (pmm : Pmm) (esp idleTask : U32) (memory : U32 → U32) (k : Kernel Slot)
    (booted : (Kernel.bss pmm esp memory).schedulerInit idleTask = some k) (calls : List Call)
    (s : Counted) (ran : run ⟨k, 0, 0⟩ calls = some s) (processes : s.processes < 2 ^ 32 - 1)
    (threads : s.threads < 2 ^ 32 - 1) : ∃ l, s.kernel.Queue l ∧ Identified s.kernel l := by
  have keeps (s t : Counted) (held : Sound s) : (∃ c, step s c = some t) → Sound t :=
    fun ⟨_, taken⟩ => held.step taken
  obtain ⟨l, consistent, labelled⟩ := Transition.reachable_invariant keeps (sound_of_booted booted)
    (Transition.reachable_of_run ran)
  exact ⟨l, consistent.queue, (labelled processes threads).identified consistent.queue⟩

theorem identified_of_run_boot :
    ∃ k s, smallBoot = some k ∧
      run ⟨k, 0, 0⟩ [⟨.createThread none 0x100300#32, 0x10FF00#32⟩,
        ⟨.newprocess 0x100200#32, 0x10FF00#32⟩, ⟨.createThread none 0x100300#32, 0x10FF00#32⟩,
        ⟨.createProcess 0x100200#32 1#8, 0x10FF00#32⟩, ⟨.killprocess [[], [48#8]], 0x10FF00#32⟩] =
          some s ∧
      (s.processes, s.threads) = (2, 2) ∧ ∃ l, s.kernel.Queue l ∧ Identified s.kernel l := by
  have evaluated : (smallBoot.bind fun k =>
      (run ⟨k, 0, 0⟩ [⟨.createThread none 0x100300#32, 0x10FF00#32⟩,
        ⟨.newprocess 0x100200#32, 0x10FF00#32⟩, ⟨.createThread none 0x100300#32, 0x10FF00#32⟩,
        ⟨.createProcess 0x100200#32 1#8, 0x10FF00#32⟩, ⟨.killprocess [[], [48#8]], 0x10FF00#32⟩]).map
          fun s => (s.processes, s.threads)) = some (2, 2) := by
    decide +kernel
  obtain ⟨k, booted, evaluated⟩ := Option.bind_eq_some_iff.mp evaluated
  obtain ⟨s, ran, counts⟩ := Option.map_eq_some_iff.mp evaluated
  obtain ⟨processes, threads⟩ := Prod.mk.inj counts
  exact ⟨k, s, booted, ran, counts, identified_of_run _ _ _ _ k booted _ s ran
    (by rw [processes]; decide) (by rw [threads]; decide)⟩

end Identity

end SoraOS
