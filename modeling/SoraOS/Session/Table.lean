import SoraOS.Scheduler.Creation
import SoraOS.Scheduler.Killprocess

set_option autoImplicit false

/-!
What the commands of the shell make of the kernel: a table of processes, at most as many as there
are slots and stack pages.
-/

namespace SoraOS

namespace Session

structure Process where
  pid : Nat
  state : ProcessState
  priority : U8
  deriving DecidableEq

/-- The processes in the order of their creation, with PIDs that are never given out again. -/
structure Table where
  processes : List Process
  lastPid : Nat
  increasing : processes.Pairwise fun p q => p.pid < q.pid
  issued : ∀ p ∈ processes, 0 < p.pid ∧ p.pid ≤ lastPid
  asleep : ∀ p ∈ processes, p.state ≠ .ready

namespace Table

def initial : Table where
  processes := [{ pid := 1, state := .running, priority := 0#8 }]
  lastPid := 1
  increasing := by simp
  issued := by simp
  asleep := by simp

def append (t : Table) : Table where
  processes := t.processes ++ [{ pid := t.lastPid + 1, state := .blocked, priority := 1#8 }]
  lastPid := t.lastPid + 1
  increasing := by
    refine List.pairwise_append.mpr ⟨t.increasing, List.pairwise_singleton _ _, ?_⟩
    intro p older q newest
    have bound := (t.issued p older).2
    rw [List.mem_singleton.mp newest]
    exact Nat.lt_succ_of_le bound
  issued := by
    intro p member
    rcases List.mem_append.mp member with older | newest
    · have bound := t.issued p older
      omega
    · rw [List.mem_singleton.mp newest]
      simp
  asleep := by
    intro p member
    rcases List.mem_append.mp member with older | newest
    · exact t.asleep p older
    · rw [List.mem_singleton.mp newest]
      simp

@[simp] theorem append_processes (t : Table) : t.append.processes =
    t.processes ++ [{ pid := t.lastPid + 1, state := .blocked, priority := 1#8 }] := rfl
@[simp] theorem append_lastPid (t : Table) : t.append.lastPid = t.lastPid + 1 := rfl

/-- `newprocess`: the PID of the new process, none when the table is full. -/
def create (capacity : Nat) (t : Table) : Option Nat × Table :=
  if t.processes.length < capacity then (some (t.lastPid + 1), t.append) else (none, t)

def kill (pid : Nat) (t : Table) : Bool × Table :=
  (t.processes.any fun p => p.pid = pid,
    { processes := t.processes.eraseP fun p => p.pid = pid
      lastPid := t.lastPid
      increasing := t.increasing.sublist List.eraseP_sublist
      issued := fun p member => t.issued p (List.mem_of_mem_eraseP member)
      asleep := fun p member => t.asleep p (List.mem_of_mem_eraseP member) })

theorem kill_found (pid : Nat) (t : Table) :
    (t.kill pid).1 = t.processes.any fun p => p.pid = pid := rfl
@[simp] theorem kill_processes (pid : Nat) (t : Table) :
    (t.kill pid).2.processes = t.processes.eraseP fun p => p.pid = pid := rfl
@[simp] theorem kill_lastPid (pid : Nat) (t : Table) : (t.kill pid).2.lastPid = t.lastPid := rfl

end Table

-- The free pages that `pmm_alloc_page` searches.
def searched (s : Pmm) : Finset Nat := s.freeSet.filter fun page => page < s.totalPages / 32 * 32

def capacity (init : Pmm) : Nat := min maxProcesses (searched init).card

def process (k : Kernel Slot) (b : Slot) : Process where
  pid := (k.pid b).toNat
  state := k.state b
  priority := (k.block b).priority

/-- The queue `l` holds the table, and no process can take the CPU from the shell. -/
structure Represents (init : Pmm) (k : Kernel Slot) (l : List Slot) (t : Table) : Prop where
  consistent : k.Consistent l
  booked : Stacks.Booked init k l
  page0 : 0 ∉ init.freeSet
  processes : l.map (process k) = t.processes
  counter : k.nextPid.toNat = t.lastPid
  only : ∀ b ∈ l, ∃ i, b = .pcb i
  current : k.currentPcb = k.idlePcb
  unlisted : ∀ i, .pcb i ∉ l → k.state (.pcb i) = .dead
  found : ∀ b ∈ l, k.stackPage b < init.totalPages / 32 * 32

theorem Represents.length {init : Pmm} {k : Kernel Slot} {l : List Slot} {t : Table}
    (h : Represents init k l t) : t.processes.length = l.length := by
  rw [← h.processes, List.length_map]

theorem Represents.notReady {init : Pmm} {k : Kernel Slot} {l : List Slot} {t : Table}
    (h : Represents init k l t) {b : Slot} (listed : b ∈ l) : k.state b ≠ .ready := by
  apply t.asleep (process k b)
  rw [← h.processes]
  exact List.mem_map_of_mem listed

theorem pool_length {l : List Slot} (distinct : l.Nodup) (only : ∀ b ∈ l, ∃ i, b = .pcb i) :
    (l.length < maxProcesses ↔ ∃ i, Slot.pcb i ∉ l) := by
  have inside : l.toFinset ⊆ Finset.univ.image Slot.pcb := by
    intro b member
    obtain ⟨i, rfl⟩ := only b (List.mem_toFinset.mp member)
    exact Finset.mem_image_of_mem _ (Finset.mem_univ i)
  have size : (Finset.univ.image Slot.pcb).card = maxProcesses := by
    rw [Finset.card_image_of_injective _ fun i j same => Slot.pcb.inj same, Finset.card_univ,
      Fintype.card_fin]
  have count := List.toFinset_card_of_nodup distinct
  constructor
  next =>
    intro fewer
    rw [← count, ← size] at fewer
    obtain ⟨b, isPcb, absent⟩ := Finset.exists_mem_notMem_of_card_lt_card fewer
    obtain ⟨i, -, rfl⟩ := Finset.mem_image.mp isPcb
    exact ⟨i, fun member => absent (List.mem_toFinset.mpr member)⟩
  next =>
    rintro ⟨i, absent⟩
    rw [← count, ← size]
    apply Finset.card_lt_card
    refine Finset.ssubset_iff_subset_ne.mpr ⟨inside, fun same => absent ?_⟩
    rw [← List.mem_toFinset, same]
    exact Finset.mem_image_of_mem _ (Finset.mem_univ i)

theorem Represents.searched_card {init : Pmm} {k : Kernel Slot} {l : List Slot} {t : Table}
    (h : Represents init k l t) :
    (searched k.pmm).card + l.length = (searched init).card := by
  have splits := h.booked.paged.splits
  have total := h.booked.paged.total
  have restricted : Ledger.Splits (searched init) (searched k.pmm) (l.map k.stackPage) := by
    constructor
    next => exact splits.nodup
    next =>
      intro page held free
      exact splits.apart page held (Finset.mem_filter.mp free).1
    next =>
      intro page
      have held : page ∈ l.map k.stackPage → page < init.totalPages / 32 * 32 := by
        intro member
        obtain ⟨b, listed, rfl⟩ := List.mem_map.mp member
        exact h.found b listed
      rw [searched, searched, Finset.mem_filter, Finset.mem_filter, splits.covers page, total]
      tauto
  have count := restricted.card
  rwa [List.length_map] at count

theorem Represents.free_card {init : Pmm} {k : Kernel Slot} {l : List Slot} {t : Table}
    (h : Represents init k l t) : k.pmm.freePages.toNat + l.length = init.freeSet.card := by
  have count := h.booked.paged.splits.card
  rw [List.length_map] at count
  rw [h.booked.paged.wf.counted]
  exact count

theorem alloc_none_iff {s : Pmm} (wf : s.Wf) (page0 : 0 ∉ s.freeSet) :
    s.pmmAllocPage.1 = 0#32 ↔ searched s = ∅ := by
  rcases s.pmmAllocPage_cases with ⟨full, result⟩ | ⟨page, free, inside, -, result⟩
  · simp only [result, true_iff, searched, Finset.filter_eq_empty_iff]
    intro page free inside
    have clear := ((Pmm.mem_freeSet s page).mp free).2
    rw [full page inside] at clear
    cases clear
  · have some : searched s ≠ ∅ :=
      Finset.ne_empty_of_mem (Finset.mem_filter.mpr ⟨free, inside⟩)
    simp only [some, iff_false]
    intro null
    have value := Pmm.toNat_pageAddress page (wf.page_small free)
    rw [result] at null
    rw [show BitVec.ofNat 32 (page * pageSize) = 0#32 from null] at value
    have zero : page = 0 := by simpa [pageSize] using value.symm
    exact page0 (zero ▸ free)

theorem Represents.room {init : Pmm} {k : Kernel Slot} {l : List Slot} {t : Table}
    (h : Represents init k l t) :
    t.processes.length < capacity init ↔ k.allocPcb ≠ none ∧ k.pmm.pmmAllocPage.1 ≠ 0#32 := by
  have slots := pool_length h.consistent.queue.nodup h.only
  have pages := h.searched_card
  have null := alloc_none_iff h.booked.paged.wf (h.booked.paged.page0_used h.page0)
  have page : k.pmm.pmmAllocPage.1 ≠ 0#32 ↔ l.length < (searched init).card := by
    rw [ne_eq, null, ← ne_eq, ← Finset.nonempty_iff_ne_empty, ← Finset.card_pos]
    omega
  have slot : k.allocPcb ≠ none ↔ l.length < maxProcesses := by
    rw [slots]
    constructor
    next =>
      intro some
      obtain ⟨b, found⟩ := Option.ne_none_iff_exists'.mp some
      obtain ⟨i, rfl⟩ := (Kernel.allocPcb_some found).1
      exact ⟨i, h.consistent.allocPcb_fresh found⟩
    next =>
      intro ⟨i, absent⟩ full
      exact Kernel.allocPcb_none full i (h.unlisted i absent)
  rw [slot, page, h.length, capacity, lt_min_iff]

def withBlocked (k : Kernel Slot) (b : Slot) (counterProcess : U32) (next : Slot → Option Slot)
    (head : Option Slot) : Kernel Slot :=
  (k.withProcess b counterProcess 1#8 next head).setState b .blocked

theorem withBlocked_block (k : Kernel Slot) (b : Slot) (counterProcess : U32)
    (next : Slot → Option Slot) (head : Option Slot) (c : Slot) :
    (withBlocked k b counterProcess next head).block c =
      if c = b then
        { k.block b with
          pid := k.nextPid + 1#32
          state := .blocked
          priority := 1#8
          esp := k.pmm.pmmAllocPage.1 + 4096#32 - 4#32
          stackBase := k.pmm.pmmAllocPage.1
          next := next b }
      else { k.block c with next := next c } := by
  rw [withBlocked, Kernel.setState, Kernel.modify_block]
  by_cases same : c = b <;> simp [same, Kernel.withProcess_block, Kernel.pcbFields]

theorem Represents.created {init : Pmm} {k : Kernel Slot} {l : List Slot} {t : Table}
    (h : Represents init k l t) (more : t.lastPid + 1 < 2 ^ 32) {counterProcess : U32}
    {i : Fin maxProcesses} {next : Slot → Option Slot} {head : Option Slot}
    (fresh : Slot.pcb i ∉ l) (stack : k.pmm.pmmAllocPage.1 ≠ 0#32)
    (kept : (withBlocked k (.pcb i) counterProcess next head).Consistent (l ++ [.pcb i]))
    (booked : Stacks.Booked init (withBlocked k (.pcb i) counterProcess next head)
      (l ++ [.pcb i])) :
    Represents init (withBlocked k (.pcb i) counterProcess next head) (l ++ [.pcb i]) t.append ∧
      ((withBlocked k (.pcb i) counterProcess next head).pid (.pcb i)).toNat = t.lastPid + 1 := by
  have counter := h.counter
  have nextPid : (k.nextPid + 1#32).toNat = t.lastPid + 1 := by
    rw [BitVec.toNat_add, BitVec.toNat_ofNat]
    omega
  have blocks := withBlocked_block k (.pcb i) counterProcess next head
  have older (b : Slot) (listed : b ∈ l) : b ≠ .pcb i := fun same => fresh (same ▸ listed)
  have newest : process (withBlocked k (.pcb i) counterProcess next head) (.pcb i) =
      { pid := t.lastPid + 1, state := .blocked, priority := 1#8 } := by
    simp only [process, Kernel.pid, Kernel.state, blocks, if_pos, nextPid]
  refine ⟨?_, congrArg Process.pid newest⟩
  constructor
  next => exact kept
  next => exact booked
  next => exact h.page0
  next =>
    rw [List.map_append, List.map_singleton, newest, Table.append_processes, ← h.processes]
    congr 1
    apply List.map_congr_left
    intro b listed
    simp only [process, Kernel.pid, Kernel.state, blocks, if_neg (older b listed)]
  next => exact nextPid
  next =>
    intro b member
    rcases List.mem_append.mp member with listed | new
    · exact h.only b listed
    · exact ⟨i, List.mem_singleton.mp new⟩
  next => exact h.current
  next =>
    intro j absent
    have different : Slot.pcb j ≠ .pcb i := by
      intro same
      simp [same] at absent
    have dead := h.unlisted j fun listed => absent (List.mem_append_left _ listed)
    simpa only [Kernel.state, blocks, if_neg different] using dead
  next =>
    intro b member
    rcases List.mem_append.mp member with listed | new
    · have found := h.found b listed
      simpa only [Kernel.stackPage, Kernel.stackBase, blocks, if_neg (older b listed)] using found
    · obtain rfl := List.mem_singleton.mp new
      rcases k.pmm.pmmAllocPage_cases with ⟨-, null⟩ | ⟨page, free, inside, -, result⟩
      · exact absurd (congrArg Prod.fst null) stack
      · have value := Pmm.toNat_pageAddress page (h.booked.paged.wf.page_small free)
        rw [h.booked.paged.total] at inside
        simp only [Kernel.stackPage, Kernel.stackBase, blocks, if_true, result, value]
        rwa [Nat.mul_div_cancel _ (by decide : 0 < pageSize)]

theorem Represents.newprocess {init : Pmm} {k : Kernel Slot} {l : List Slot} {t : Table}
    (h : Represents init k l t) (more : t.lastPid + 1 < 2 ^ 32) (counterProcess : U32) :
    ∃ block k' l', k.cmdNewprocess counterProcess = some (block, k') ∧
      Represents init k' l' (t.create (capacity init)).2 ∧
      block.map (fun b => (k'.pid b).toNat) = (t.create (capacity init)).1 := by
  obtain ⟨block, k', run, outcome, kept⟩ := h.consistent.perform (.newprocess counterProcess)
  have room := h.room
  have allowed : Stacks.Allowed k (.newprocess counterProcess) := by simp [Stacks.Allowed]
  have booked := h.booked.outcome h.consistent h.page0 allowed outcome
  cases outcome with
  | newprocessFailed _ _ failed =>
      have full : ¬t.processes.length < capacity init ∧ k' = k := by
        rw [room]
        cases failed with
        | processPoolFull _ _ full => exact ⟨fun both => both.1 full, rfl⟩
        | processNoStack _ _ null =>
            refine ⟨fun both => both.2 null, ?_⟩
            rw [h.booked.paged.failed h.page0 null]
      obtain ⟨full, rfl⟩ := full
      rw [Table.create, if_neg full]
      exact ⟨none, k', l, run, h, rfl⟩
  | newprocess _ pcb made success =>
      cases success with
      | process _ _ i next head found stack =>
          have free : t.processes.length < capacity init :=
            room.mpr ⟨by rw [found]; exact Option.some_ne_none _, stack⟩
          rw [Table.create, if_pos free]
          obtain ⟨longer, pid⟩ :=
            h.created more (h.consistent.allocPcb_fresh found) stack kept booked
          exact ⟨_, _, _, run, longer, congrArg some pid⟩

theorem erase_of_find? {A : Type} [DecidableEq A] {test : A → Bool} {l : List A} {a : A}
    (first : l.find? test = some a) : l.erase a = l.eraseP test := by
  induction l with
  | nil => cases first
  | cons b l ih =>
      by_cases hit : test b = true
      next =>
        obtain rfl : b = a := by simpa [hit] using first
        simp [hit]
      next =>
        have passes := List.find?_some first
        have other : b ≠ a := by
          rintro rfl
          exact hit passes
        simp [hit, other, ih (by simpa [hit] using first)]

theorem Represents.killed {init : Pmm} {k : Kernel Slot} {l : List Slot} {t : Table}
    (h : Represents init k l t) {p : Slot} {pid : Nat} {next : Slot → Option Slot}
    {head : Option Slot} (first : l.find? (fun b => (k.pid b).toNat = pid) = some p)
    (kept : (k.released p Kernel.wipeProcess next head).Consistent (l.erase p))
    (booked : Stacks.Booked init (k.released p Kernel.wipeProcess next head) (l.erase p)) :
    Represents init (k.released p Kernel.wipeProcess next head) (l.erase p) (t.kill pid).2 := by
  have distinct := h.consistent.queue.nodup
  have other (b : Slot) (left : b ∈ l.erase p) : b ≠ p ∧ b ∈ l := distinct.mem_erase_iff.mp left
  have blocks (b : Slot) (different : b ≠ p) :=
    Kernel.released_block_other k p Kernel.wipeProcess next head different
  constructor
  next => exact kept
  next => exact booked
  next => exact h.page0
  next =>
    have same : (l.erase p).map (process (k.released p Kernel.wipeProcess next head)) =
        (l.erase p).map (process k) := by
      apply List.map_congr_left
      intro b left
      simp only [process, Kernel.pid, Kernel.state, blocks b (other b left).1]
    rw [same, erase_of_find? first, Table.kill_processes, ← h.processes, List.eraseP_map]
    rfl
  next => exact h.counter
  next => exact fun b left => h.only b (other b left).2
  next => exact h.current
  next =>
    intro i absent
    rw [Kernel.released_state k p Kernel.wipeProcess next head fun _ => rfl]
    by_cases victim : Slot.pcb i = p
    next => simp [victim]
    next =>
      rw [Function.update_of_ne victim]
      exact h.unlisted i fun listed => absent (distinct.mem_erase_iff.mpr ⟨victim, listed⟩)
  next =>
    intro b left
    have found := h.found b (other b left).2
    simpa only [Kernel.stackPage, Kernel.stackBase, blocks b (other b left).1] using found

theorem Represents.killprocess {init : Pmm} {k : Kernel Slot} {l : List Slot} {t : Table}
    (h : Represents init k l t) (command argument : List U8) (rest : List (List U8)) :
    ∃ block k' l', k.cmdKillprocess (command :: argument :: rest) = some (block, k') ∧
      Represents init k' l' (t.kill (Killprocess.leadingNumber argument)).2 ∧
      block.isSome = (t.kill (Killprocess.leadingNumber argument)).1 := by
  obtain ⟨block, k', run, outcome, kept⟩ :=
    h.consistent.perform (.killprocess (command :: argument :: rest))
  have allowed : Stacks.Allowed k (.killprocess (command :: argument :: rest)) := by
    simp [Stacks.Allowed]
  have booked := h.booked.outcome h.consistent h.page0 allowed outcome
  have test : (fun b => decide ((k.block b).pid = Kernel.parseTarget argument 0#32)) =
      fun b => decide ((k.pid b).toNat = Killprocess.leadingNumber argument) := by
    funext b
    rw [← Killprocess.parseTarget_eq]
    exact decide_eq_decide.mpr BitVec.toNat_inj.symm
  have hit : (t.kill (Killprocess.leadingNumber argument)).1 =
      (l.find? fun b => (k.pid b).toNat = Killprocess.leadingNumber argument).isSome := by
    rw [Table.kill_found, ← h.processes, List.any_map, List.isSome_find?]
    rfl
  cases outcome with
  | killNothing _ nobody =>
      have none := nobody command argument rest rfl
      rw [test] at none
      rw [none] at hit
      have same : (t.kill (Killprocess.leadingNumber argument)).2 = t := by
        have missing : ∀ p ∈ t.processes, ¬p.pid = Killprocess.leadingNumber argument := by
          simpa [Table.kill] using hit
        have kept : t.processes.eraseP (fun p => p.pid = Killprocess.leadingNumber argument) =
            t.processes := List.eraseP_of_forall_not (by simpa using missing)
        simp only [Table.kill, kept]
      rw [same, hit]
      exact ⟨_, _, l, run, h, rfl⟩
  | kill _ _ _ p next head first =>
      rw [test] at first
      rw [first] at hit
      exact ⟨_, _, _, run, h.killed first kept booked, hit.symm⟩

theorem Represents.schedule {init : Pmm} {k : Kernel Slot} {l : List Slot} {t : Table}
    (h : Represents init k l t) : k.schedule = some k := by
  obtain ⟨current, running⟩ := h.consistent.current
  obtain ⟨idle, idling⟩ := h.consistent.idle
  obtain rfl : current = idle := by
    have same := h.current
    rw [running, idling] at same
    exact Option.some.inj same
  obtain ⟨k', run, -, scheduled⟩ := h.consistent.toLinked.schedule running idling
  rw [run]
  cases scheduled with
  | idles => rfl
  | itself => rfl
  | ready next _ listed isReady => exact absurd isReady (h.notReady listed)
  | fallback different => exact absurd rfl different

theorem represents_boot {init : Pmm} (wf : init.Wf) {esp idleTask : U32} {memory : U32 → U32}
    {k : Kernel Slot} (booted : (Kernel.bss init esp memory).schedulerInit idleTask = some k) :
    ∃ l, Represents init k l Table.initial := by
  obtain ⟨i, next, head, stack, shape, consistent⟩ := Kernel.schedulerInit_spec booted
  obtain ⟨page0, l, consistent', booked⟩ := Stacks.conserved_of_booted wf booted
  obtain rfl := consistent.queue.unique consistent'.queue
  -- the block that `scheduler_init` fills, before it becomes the current one
  have filled (b : Slot) : k.block b =
      if b = .pcb i then
        { Kernel.pcbFields 1#32 0#8 init.pmmAllocPage.1 (init.pmmAllocPage.1 + 4096#32 - 4#32)
            ((Kernel.bss init esp memory).zeroPcbPool.block (.pcb i)) with
          state := .running
          next := next (.pcb i) }
      else { (Kernel.bss init esp memory).zeroPcbPool.block b with next := next b } := by
    rw [shape, Kernel.setState, Kernel.modify_block]
    by_cases same : b = .pcb i
    next =>
      simp only [same, if_true, Kernel.withProcess_block]
      rfl
    next => simp only [same, if_false, Kernel.withProcess_block]
  refine ⟨[.pcb i], ?_⟩
  constructor
  next => exact consistent
  next => exact booked
  next => exact page0
  next => simp [process, Kernel.pid, Kernel.state, filled, Kernel.pcbFields, Table.initial]
  next =>
    rw [shape]
    rfl
  next =>
    intro b listed
    exact ⟨i, List.mem_singleton.mp listed⟩
  next => rw [shape]; rfl
  next =>
    intro j absent
    have different : Slot.pcb j ≠ .pcb i := by simpa using absent
    simp [Kernel.state, filled, different, Kernel.zeroPcbPool]
  next =>
    intro b listed
    obtain rfl := List.mem_singleton.mp listed
    rcases init.pmmAllocPage_cases with ⟨-, null⟩ | ⟨page, free, inside, -, result⟩
    · exact absurd (congrArg Prod.fst null) stack
    · have value := Pmm.toNat_pageAddress page (wf.page_small free)
      simp only [Kernel.stackPage, Kernel.stackBase, filled, if_true, Kernel.pcbFields, result,
        value]
      rwa [Nat.mul_div_cancel _ (by decide : 0 < pageSize)]

/-- What the shell asks of the kernel, and the timer interrupts in between. -/
inductive Request where
  | newprocess (counterProcess : U32)
  | killprocess (command argument : List U8) (rest : List (List U8))
  | timer

def serve (k : Kernel Slot) : Request → Option (Kernel Slot)
  | .newprocess counterProcess => (k.cmdNewprocess counterProcess).map Prod.snd
  | .killprocess command argument rest =>
      (k.cmdKillprocess (command :: argument :: rest)).map Prod.snd
  | .timer => k.schedule

def Table.serve (capacity : Nat) (t : Table) : Request → Table
  | .newprocess _ => (t.create capacity).2
  | .killprocess _ argument _ => (t.kill (Killprocess.leadingNumber argument)).2
  | .timer => t

theorem Table.serve_lastPid (capacity : Nat) (t : Table) (r : Request) :
    (t.serve capacity r).lastPid ≤ t.lastPid + 1 := by
  cases r with
  | newprocess counterProcess =>
      rw [Table.serve, Table.create]
      split
      next => exact le_rfl
      next => exact Nat.le_succ _
  | killprocess command argument rest => exact Nat.le_succ _
  | timer => exact Nat.le_succ _

theorem Represents.serve {init : Pmm} {k : Kernel Slot} {l : List Slot} {t : Table}
    (h : Represents init k l t) (more : t.lastPid + 1 < 2 ^ 32) (r : Request) :
    ∃ k' l', Session.serve k r = some k' ∧ Represents init k' l' (t.serve (capacity init) r) := by
  cases r with
  | newprocess counterProcess =>
      obtain ⟨block, k', l', run, next, -⟩ := h.newprocess more counterProcess
      exact ⟨k', l', by rw [Session.serve, run]; rfl, next⟩
  | killprocess command argument rest =>
      obtain ⟨block, k', l', run, next, -⟩ := h.killprocess command argument rest
      exact ⟨k', l', by rw [Session.serve, run]; rfl, next⟩
  | timer => exact ⟨k, l, h.schedule, h⟩

theorem Represents.serveAll {init : Pmm} {k : Kernel Slot} {l : List Slot} {t : Table}
    (h : Represents init k l t) (requests : List Request)
    (few : t.lastPid + requests.length < 2 ^ 32) :
    ∃ k' l', requests.foldlM Session.serve k = some k' ∧
      Represents init k' l' (requests.foldl (Table.serve (capacity init)) t) := by
  induction requests generalizing k l t with
  | nil => exact ⟨k, l, rfl, h⟩
  | cons r rest ih =>
      rw [List.length_cons] at few
      obtain ⟨k', l', run, next⟩ := h.serve (by omega) r
      have bound := t.serve_lastPid (capacity init) r
      obtain ⟨k'', l'', later, last⟩ := ih next (by omega)
      exact ⟨k'', l'', by rw [List.foldlM_cons, run]; exact later, last⟩

def Process.line (p : Process) : ProcessLine where
  pid := BitVec.ofNat 32 p.pid
  state := p.state
  priority := p.priority

theorem Represents.pid_pos {init : Pmm} {k : Kernel Slot} {l : List Slot} {t : Table}
    (h : Represents init k l t) {b : Slot} (listed : b ∈ l) : k.pid b ≠ 0#32 := by
  intro zero
  have member : process k b ∈ t.processes := by
    rw [← h.processes]
    exact List.mem_map_of_mem listed
  have positive := (t.issued _ member).1
  simp [process, zero] at positive

theorem Represents.entries {init : Pmm} {k : Kernel Slot} {l : List Slot} {t : Table}
    (h : Represents init k l t) :
    k.entries = some l ∧ (l.filter fun p => k.pid p ≠ 0#32) = l ∧
      (l.filter fun p => k.pid p = 0#32) = [] := by
  refine ⟨h.consistent.queue.entries, ?_, ?_⟩
  · rw [List.filter_eq_self]
    intro b listed
    simpa using h.pid_pos listed
  · rw [List.filter_eq_nil_iff]
    intro b listed
    simpa using h.pid_pos listed

theorem Represents.cmdPs {init : Pmm} {k : Kernel Slot} {l : List Slot} {t : Table}
    (h : Represents init k l t) : k.cmdPs = some (t.processes.map Process.line) := by
  obtain ⟨walked, all, -⟩ := h.entries
  have lines : l.map k.processLine = l.map (Process.line ∘ process k) := by
    apply List.map_congr_left
    intro b _
    simp [Process.line, process, Kernel.processLine]
  rw [Kernel.cmdPs, walked, Option.bind_eq_bind, Option.bind_some, all, lines, ← h.processes,
    List.map_map]
  rfl

/--
After `pmm_init` and `scheduler_init`, through any commands and timer interrupts, `ps` shows the
table that creating and killing gives, there are no threads, every process holds one page, and the
shell is never switched away from.
-/
theorem table_kept (ram : Ram) (mb : MultibootInfo) (kernelEnd : U32) (fuel : Nat) (init : Pmm)
    (started : Pmm.pmmInit ram mb kernelEnd fuel = some init) (esp idleTask : U32)
    (memory : U32 → U32) (k : Kernel Slot)
    (booted : (Kernel.bss init esp memory).schedulerInit idleTask = some k)
    (requests : List Request) (few : requests.length + 1 < 2 ^ 32) :
    let t := requests.foldl (Table.serve (capacity init)) Table.initial
    ∃ k', requests.foldlM serve k = some k' ∧
      k'.cmdPs = some (t.processes.map Process.line) ∧ k'.cmdThreads = some [] ∧
      k'.pmm.freePages.toNat + t.processes.length = init.freePages.toNat ∧
      k'.currentPcb = k'.idlePcb ∧ k'.schedule = some k' := by
  have wf := (Pmm.pmmInit_spec started).1
  obtain ⟨l, start⟩ := represents_boot wf booted
  obtain ⟨k', l', run, last⟩ := start.serveAll requests (by simp only [Table.initial]; omega)
  refine ⟨k', run, last.cmdPs, ?_, ?_, last.current, last.schedule⟩
  · obtain ⟨walked, -, none⟩ := last.entries
    rw [Kernel.cmdThreads, walked, Option.bind_eq_bind, Option.bind_some, none]
    rfl
  · rw [last.length, last.free_card, wf.counted]

theorem sixtyFourPages_boots :
    ∃ init k, Pmm.pmmInit Stacks.sixtyFourPagesRam Stacks.sixtyFourPagesInfo 0x110000#32 2 =
        some init ∧ (Kernel.bss init 0x110000#32 fun _ => 0#32).schedulerInit 0x100100#32 = some k := by
  have evaluated : ((Pmm.pmmInit Stacks.sixtyFourPagesRam Stacks.sixtyFourPagesInfo 0x110000#32
      2).bind fun init => ((Kernel.bss init 0x110000#32 fun _ => 0#32).schedulerInit
        0x100100#32).map fun _ => ()) = some () := by
    decide +kernel
  obtain ⟨init, started, afterInit⟩ := Option.bind_eq_some_iff.mp evaluated
  obtain ⟨k, booted, -⟩ := Option.map_eq_some_iff.mp afterInit
  exact ⟨init, k, started, booted⟩

theorem table_kept_sixtyFourPages :
    ∃ init k, Pmm.pmmInit Stacks.sixtyFourPagesRam Stacks.sixtyFourPagesInfo 0x110000#32 2 =
        some init ∧ (Kernel.bss init 0x110000#32 fun _ => 0#32).schedulerInit 0x100100#32 = some k ∧
      let t := [Request.newprocess 0x100200#32, .timer, .killprocess [] [50#8] []].foldl
        (Table.serve (capacity init)) Table.initial
      ∃ k', [Request.newprocess 0x100200#32, .timer, .killprocess [] [50#8] []].foldlM serve k =
          some k' ∧ k'.cmdPs = some (t.processes.map Process.line) ∧ k'.cmdThreads = some [] ∧
        k'.pmm.freePages.toNat + t.processes.length = init.freePages.toNat ∧
        k'.currentPcb = k'.idlePcb ∧ k'.schedule = some k' := by
  obtain ⟨init, k, started, booted⟩ := sixtyFourPages_boots
  exact ⟨init, k, started, booted, table_kept _ _ _ _ init started _ _ _ k booted _ (by decide)⟩

end Session

end SoraOS
