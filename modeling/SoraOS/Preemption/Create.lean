import SoraOS.Preemption.CreateStatements
import SoraOS.Scheduler.Identity

set_option autoImplicit false

namespace SoraOS

namespace Create

/-- Two contexts on one CPU, each in a call of `create_process`. -/
structure Machine where
  kernel : Kernel Slot
  context : Bool → Slot
  creator : Bool → Creator

inductive Event where
  | statement (x : Bool)
  -- a timer interrupt, wherever the running context is
  | tick

def step (m : Machine) : Event → Option Machine
  | .statement x =>
      if m.kernel.currentPcb = some (m.context x) then
        (m.kernel.createStatement (m.creator x)).map fun r =>
          { m with kernel := r.1, creator := Function.update m.creator x r.2 }
      else none
  | .tick => m.kernel.schedule.map fun k => { m with kernel := k }

def Step (m : Machine) (e : Event) (m' : Machine) : Prop := step m e = some m'

def result (c : Creator) : Option Slot := if c.pc = .returned then c.pcb else none

def Collisionless (k₀ : Kernel Slot) (m : Machine) : Prop :=
  ∀ p q, result (m.creator false) = some p → result (m.creator true) = some q →
    p ≠ q ∧ m.kernel.stackPage p ≠ m.kernel.stackPage q ∧
      m.kernel.pid p ≠ m.kernel.pid q ∧
      m.kernel.Listed p ∧ m.kernel.Listed q ∧
      m.kernel.pmm.freePages.toNat + 2 = k₀.pmm.freePages.toNat

/-- How far a call has got; a call that returned `NULL` no longer counts. -/
def rank : CreatePc → Nat
  | .testUnused _ => 0
  | .testUsedBefore _ => 1
  | .testWord _ => 2
  | .testPage _ _ => 3
  | .setPage => 4
  | .decrement => 5
  | .storeEntry => 6
  | .setPid => 7
  | .setState => 8
  | .setPriority => 9
  | .setEsp => 10
  | .setStackBase => 11
  | .setNext => 12
  | .clearNext => 13
  | .testHead => 14
  | .setHead => 15
  | .loadHead => 16
  | .testTail _ => 17
  | .advance _ => 18
  | .linkTail _ => 19
  | .returned => 20
  | .returnedNull => 0

def reserves (c : Creator) (p : Slot) : Bool := 2 ≤ rank c.pc && rank c.pc ≤ 8 && c.pcb = some p

/--
The next test of `c` succeeds on what the other call tested successfully and has not yet
written: a free slot, a clear bit, the last link of the queue.
-/
def conflict (k : Kernel Slot) (c other : Creator) : Bool :=
  match c.pc with
  | .testUnused i => k.slotUnused i && reserves other (.pcb i)
  | .testUsedBefore i => k.slotUsedBefore i && reserves other (.pcb i)
  | .testPage i bit =>
      !k.pmm.bitmapTest (i * 32 + bit) && other.pc = .setPage && other.page = i * 32 + bit
  | .testTail tail => (k.links tail).isNone && other.pc = .linkTail tail
  | _ => false

def Harmless (m : Machine) : Event → Prop
  | .statement x => conflict m.kernel (m.creator x) (m.creator !x) = false
  | .tick => True

instance (m : Machine) : (e : Event) → Decidable (Harmless m e)
  | .statement x =>
      inferInstanceAs (Decidable (conflict m.kernel (m.creator x) (m.creator !x) = false))
  | .tick => inferInstanceAs (Decidable True)

def start (k : Kernel Slot) (context : Bool → Slot) (entryFn : Bool → U32) (priority : Bool → U8) :
    Machine where
  kernel := k
  context := context
  creator := fun x => .call (entryFn x) (priority x)

def Placed (k₀ k : Kernel Slot) (l : List Slot) : CreatePc → Prop
  | .testPage i bit => i < k₀.pmm.totalPages / 32 ∧ bit < 32
  | .setHead => False
  | .testTail tail => tail ∈ l
  | .advance tail => tail ∈ l ∧ k.links tail ≠ none
  | .linkTail tail => l.getLast? = some tail
  | _ => True

structure Owns (k₀ k : Kernel Slot) (l : List Slot) (c : Creator) : Prop where
  picked : 2 ≤ rank c.pc → ∃ p, c.pcb = some p
  unlisted : 2 ≤ rank c.pc → rank c.pc ≤ 19 → ∀ p, c.pcb = some p → p ∉ l
  wasFree : 4 ≤ rank c.pc → c.page ∈ k₀.pmm.freeSet
  used : 5 ≤ rank c.pc → k.pmm.bitmapTest c.page = true
  alive : 9 ≤ rank c.pc → ∀ p, c.pcb = some p → k.state p ≠ .dead
  based : 12 ≤ rank c.pc → ∀ p, c.pcb = some p → k.stackBase p = c.stack
  listed : c.pc = .returned → ∀ p, c.pcb = some p → p ∈ l
  place : Placed k₀ k l c.pc

structure Apart (k : Kernel Slot) (c d : Creator) : Prop where
  slots : 2 ≤ rank c.pc → 2 ≤ rank d.pc → c.pcb ≠ d.pcb
  pages : 4 ≤ rank c.pc → 4 ≤ rank d.pc → c.page ≠ d.page
  pids : 8 ≤ rank c.pc → 8 ≤ rank d.pc → ∀ p q, c.pcb = some p → d.pcb = some q →
    k.pid p ≠ k.pid q
  newest : 8 ≤ rank c.pc → rank d.pc ≤ 7 → ∀ p, c.pcb = some p → k.pid p = k.nextPid
  newest' : 8 ≤ rank d.pc → rank c.pc ≤ 7 → ∀ q, d.pcb = some q → k.pid q = k.nextPid
  tails : ∀ t u, c.pc = .linkTail t → d.pc ≠ .linkTail u

theorem Apart.symm {k : Kernel Slot} {c d : Creator} (h : Apart k c d) : Apart k d c where
  slots far near := (h.slots near far).symm
  pages far near := (h.pages near far).symm
  pids far near p q isP isQ := (h.pids near far q p isQ isP).symm
  newest := h.newest'
  newest' := h.newest
  tails t u isT isU := h.tails u t isU isT

def spent (c : Creator) : U32 := if 6 ≤ rank c.pc then 1#32 else 0#32

structure Pair (k₀ k : Kernel Slot) (l : List Slot) (c d : Creator) : Prop where
  linked : k.Linked l
  nonempty : l ≠ []
  own : Owns k₀ k l c
  other : Owns k₀ k l d
  apart : Apart k c d
  total : k.pmm.totalPages = k₀.pmm.totalPages
  subset : k.pmm.freeSet ⊆ k₀.pmm.freeSet
  count : k.pmm.freePages + spent c + spent d = k₀.pmm.freePages

theorem Pair.symm {k₀ k : Kernel Slot} {l : List Slot} {c d : Creator} (h : Pair k₀ k l c d) :
    Pair k₀ k l d c :=
  ⟨h.linked, h.nonempty, h.other, h.own, h.apart.symm, h.total, h.subset, by
    rw [← h.count, BitVec.add_assoc, BitVec.add_assoc, BitVec.add_comm (spent d)]⟩

/-- The calls do not see the difference; only DEAD blocks may come to life. -/
structure Undisturbed (k k' : Kernel Slot) : Prop where
  links : k'.links = k.links
  runQueue : k'.runQueue = k.runQueue
  pids : k'.pid = k.pid
  bases : k'.stackBase = k.stackBase
  alive : ∀ b, k'.state b = .dead → k.state b = .dead
  nextPid : k'.nextPid = k.nextPid
  pmm : k'.pmm = k.pmm

theorem Undisturbed.refl (k : Kernel Slot) : Undisturbed k k :=
  ⟨rfl, rfl, rfl, rfl, fun _ dead => dead, rfl, rfl⟩

theorem Undisturbed.modify (k : Kernel Slot) (b : Slot) {f : Tcb Slot → Tcb Slot}
    (next : ∀ t, (f t).next = t.next) (pid : ∀ t, (f t).pid = t.pid)
    (base : ∀ t, (f t).stackBase = t.stackBase) (state : ∀ t, (f t).state = t.state) :
    Undisturbed k (k.modify b f) := by
  refine ⟨Kernel.modify_links k b f (next _), rfl, Kernel.modify_pid k b f (pid _),
    Kernel.modify_stackBase k b f (base _), ?_, rfl, rfl⟩
  intro c dead
  rwa [Kernel.modify_state k b f (state _)] at dead

theorem Undisturbed.schedule {k k' : Kernel Slot} (result : k.schedule = some k') :
    Undisturbed k k' := by
  cases current : k.currentPcb with
  | none =>
      have same : k = k' := by simpa [Kernel.schedule, current] using result
      exact same ▸ .refl k
  | some old =>
      rcases Kernel.schedule_target current result with ⟨_, rfl⟩ | ⟨next, _, _, rfl⟩
      · exact .refl _
      · exact ⟨by simp, by simp, by simp, by simp, fun _ => Kernel.switchTo_dead, by simp, by simp⟩

theorem Placed.congr {k₀ k k' : Kernel Slot} {l : List Slot} {pc : CreatePc}
    (h : Placed k₀ k l pc) (links : k'.links = k.links) : Placed k₀ k' l pc := by
  cases pc with
  | advance tail => exact ⟨h.1, by rw [links]; exact h.2⟩
  | _ => exact h

theorem Owns.undisturbed {k₀ k k' : Kernel Slot} {l : List Slot} {c : Creator}
    (h : Owns k₀ k l c) (u : Undisturbed k k') : Owns k₀ k' l c where
  picked := h.picked
  unlisted := h.unlisted
  wasFree := h.wasFree
  used := u.pmm ▸ h.used
  alive far p isP dead := h.alive far p isP (u.alive p dead)
  based far p isP := u.bases ▸ h.based far p isP
  listed := h.listed
  place := h.place.congr u.links

theorem Apart.undisturbed {k k' : Kernel Slot} {c d : Creator} (h : Apart k c d)
    (u : Undisturbed k k') : Apart k' c d where
  slots := h.slots
  pages := h.pages
  pids := by simpa only [u.pids] using h.pids
  newest := by simpa only [u.pids, u.nextPid] using h.newest
  newest' := by simpa only [u.pids, u.nextPid] using h.newest'
  tails := h.tails

theorem Pair.undisturbed {k₀ k k' : Kernel Slot} {l : List Slot} {c d : Creator}
    (h : Pair k₀ k l c d) (u : Undisturbed k k') : Pair k₀ k' l c d where
  linked := h.linked.congr u.links u.runQueue fun b _ => u.alive b
  nonempty := h.nonempty
  own := h.own.undisturbed u
  other := h.other.undisturbed u
  apart := h.apart.undisturbed u
  total := u.pmm ▸ h.total
  subset := u.pmm ▸ h.subset
  count := u.pmm ▸ h.count

theorem Pair.moved {k₀ k : Kernel Slot} {l : List Slot} {c c' d : Creator} (h : Pair k₀ k l c d)
    (own : Owns k₀ k l c') (apart : Apart k c' d) (count : spent c' = spent c) :
    Pair k₀ k l c' d :=
  ⟨h.linked, h.nonempty, own, h.other, apart, h.total, h.subset, by rw [count, h.count]⟩

section Statement

variable {k₀ k k' : Kernel Slot} {l : List Slot} {c c' d : Creator}

theorem Owns.pass (h : Owns k₀ k l c) (pc : CreatePc) (running : rank c.pc ≤ 19)
    (notReturned : pc ≠ .returned) (stages : ∀ n ∈ [2, 4], n ≤ rank pc → n ≤ rank c.pc)
    (used : 5 ≤ rank pc → k.pmm.bitmapTest c.page = true)
    (alive : 9 ≤ rank pc → ∀ p, c.pcb = some p → k.state p ≠ .dead)
    (based : 12 ≤ rank pc → ∀ p, c.pcb = some p → k.stackBase p = c.stack)
    (place : Placed k₀ k l pc) : Owns k₀ k l (c.goto pc) where
  picked far := h.picked (stages 2 (by simp) far)
  unlisted far _ := h.unlisted (stages 2 (by simp) far) running
  wasFree far := h.wasFree (stages 4 (by simp) far)
  used := used
  alive := alive
  based := based
  listed done := absurd done notReturned
  place := place

theorem Owns.goto (h : Owns k₀ k l c) (pc : CreatePc) (running : rank c.pc ≤ 19)
    (notReturned : pc ≠ .returned)
    (stages : ∀ n ∈ [2, 4, 5, 9, 12], n ≤ rank pc → n ≤ rank c.pc) (place : Placed k₀ k l pc) :
    Owns k₀ k l (c.goto pc) :=
  h.pass pc running notReturned (fun n inside => stages n (by simp at inside ⊢; omega))
    (fun far => h.used (stages 5 (by simp) far)) (fun far => h.alive (stages 9 (by simp) far))
    (fun far => h.based (stages 12 (by simp) far)) place

theorem Apart.goto (h : Apart k c d) (pc : CreatePc)
    (stages : ∀ n ∈ [2, 4], n ≤ rank pc → n ≤ rank c.pc) (same : 8 ≤ rank pc ↔ 8 ≤ rank c.pc)
    (tails : ∀ t, pc = .linkTail t → ∀ u, d.pc ≠ .linkTail u) : Apart k (c.goto pc) d where
  slots far := h.slots (stages 2 (by simp) far)
  pages far := h.pages (stages 4 (by simp) far)
  pids far := h.pids (same.mp far)
  newest far := h.newest (same.mp far)
  newest' far near := h.newest' far (by
    have notPast := mt same.mpr (Nat.not_le.mpr (Nat.lt_succ_of_le near))
    omega)
  tails t u isT := tails t isT u

theorem Pair.goto (h : Pair k₀ k l c d) (pc : CreatePc) (running : rank c.pc ≤ 19)
    (notReturned : pc ≠ .returned)
    (stages : ∀ n ∈ [2, 4, 5, 9, 12], n ≤ rank pc → n ≤ rank c.pc)
    (same : ∀ n ∈ [6, 8], n ≤ rank pc ↔ n ≤ rank c.pc) (place : Placed k₀ k l pc)
    (tails : ∀ t, pc = .linkTail t → ∀ u, d.pc ≠ .linkTail u) : Pair k₀ k l (c.goto pc) d :=
  h.moved (h.own.goto pc running notReturned stages place)
    (h.apart.goto pc (fun n inside => stages n (by simp at inside ⊢; omega)) (same 8 (by simp)) tails)
    (by simp [spent, same 6 (by simp)])

theorem Pair.pick (h : Pair k₀ k l c d) (early : rank c.pc ≤ 1) {i : Fin maxProcesses}
    (dead : k.state (.pcb i) = .dead) (calm : reserves d (.pcb i) = false) :
    Pair k₀ k l { c with pcb := some (.pcb i), pc := .testWord 0 } d := by
  -- A slot that passes a test of `alloc_pcb` is not one that the other call holds.
  have unlisted : Slot.pcb i ∉ l := fun member => h.linked.live _ member dead
  have different : 2 ≤ rank d.pc → d.pcb ≠ some (.pcb i) := by
    intro far same
    by_cases filled : rank d.pc ≤ 8
    · simp [reserves, far, filled, same] at calm
    · exact h.other.alive (by omega) _ same dead
  refine h.moved ?_ ?_ ?_
  · constructor <;> simp [rank, unlisted, Placed]
  · refine ⟨fun _ far => (different far).symm, by simp [rank], by simp [rank], by simp [rank], ?_, by simp⟩
    intro far _
    exact h.apart.newest' far (by omega)
  · have notCounted : ¬ 6 ≤ rank c.pc := by omega
    rw [spent, spent, if_neg notCounted]
    rfl

theorem Pair.choose (h : Pair k₀ k l c d) {i bit : Nat} (pc : c.pc = .testPage i bit)
    (free : k.pmm.bitmapTest (i * 32 + bit) = false)
    (calm : ¬ (d.pc = .setPage ∧ d.page = i * 32 + bit)) :
    Pair k₀ k l { c with page := i * 32 + bit, pc := .setPage } d := by
  have own := h.own
  have place := own.place
  rw [pc] at place
  have inside : i * 32 + bit < k.pmm.totalPages := by
    rw [h.total]
    have := place.1
    have := place.2
    omega
  have wasFree := h.subset ((Pmm.mem_freeSet _ _).mpr ⟨inside, free⟩)
  have different : 4 ≤ rank d.pc → i * 32 + bit ≠ d.page := by
    intro far same
    by_cases taken : 5 ≤ rank d.pc
    · have set := h.other.used taken
      rw [← same, free] at set
      cases set
    · refine calm ⟨?_, same.symm⟩
      cases isAt : d.pc <;> simp [isAt, rank] at far taken ⊢
  refine h.moved ?_ ?_ (by rw [spent, spent, pc]; rfl)
  · have picked := own.picked
    have unlisted := own.unlisted
    simp only [pc, rank] at picked unlisted
    constructor <;> simp_all [rank, Placed]
  · have slots := h.apart.slots
    have newest' := h.apart.newest'
    simp only [pc, rank] at slots newest'
    refine ⟨?_, fun _ => different, by simp [rank], by simp [rank], ?_, by simp⟩
    · simpa [rank] using slots
    · simpa [rank] using newest'

theorem Owns.frame (h : Owns k₀ k l c) (links : k'.links = k.links)
    (bits : ∀ q, k.pmm.bitmapTest q = true → k'.pmm.bitmapTest q = true)
    (states : ∀ p, k'.state p = .dead → k.state p = .dead)
    (bases : 12 ≤ rank c.pc → ∀ p, c.pcb = some p → k'.stackBase p = k.stackBase p) :
    Owns k₀ k' l c where
  picked := h.picked
  unlisted := h.unlisted
  wasFree := h.wasFree
  used far := bits _ (h.used far)
  alive far p isP dead := h.alive far p isP (states p dead)
  based far p isP := (bases far p isP).trans (h.based far p isP)
  listed := h.listed
  place := h.place.congr links

theorem Apart.frame (h : Apart k c d) (pids : k'.pid = k.pid)
    (nextPid : k'.nextPid = k.nextPid) : Apart k' c d where
  slots := h.slots
  pages := h.pages
  pids := by simpa only [pids] using h.pids
  newest := by simpa only [pids, nextPid] using h.newest
  newest' := by simpa only [pids, nextPid] using h.newest'
  tails := h.tails

theorem Apart.different (h : Apart k c d) (far : 2 ≤ rank c.pc) {p q : Slot} (isP : c.pcb = some p)
    (far' : 2 ≤ rank d.pc) (isQ : d.pcb = some q) : q ≠ p := by
  rintro rfl
  exact h.slots far far' (isP.trans isQ.symm)

theorem Pair.setPage (h : Pair k₀ k l c d) (pc : c.pc = .setPage)
    (shape : k' = { k with pmm := k.pmm.bitmapSet c.page }) : Pair k₀ k' l (c.goto .decrement) d := by
  have tested (q : Nat) : k'.pmm.bitmapTest q = (decide (q = c.page) || k.pmm.bitmapTest q) :=
    shape ▸ Bitmap.test_set (by decide) k.pmm.bitmap c.page q
  have own (e : Creator) (known : Owns k₀ k l e) : Owns k₀ k' l e :=
    known.frame (shape ▸ rfl) (fun q used => by simp [tested, used])
      (fun _ dead => by subst shape; exact dead) fun _ _ _ => shape ▸ rfl
  have apart : Apart k' c d := h.apart.frame (shape ▸ rfl) (shape ▸ rfl)
  have total : k'.pmm.totalPages = k.pmm.totalPages := shape ▸ rfl
  refine ⟨shape ▸ h.linked.congr rfl rfl fun _ _ dead => dead, h.nonempty, ?_, own d h.other,
    apart.goto _ (by simp [pc, rank]) (by simp [pc, rank]) (by simp), total.trans h.total, ?_, ?_⟩
  · exact (own c h.own).pass _ (by simp [pc, rank]) (by simp) (by simp [pc, rank])
      (fun _ => by simp [tested]) (by simp [rank]) (by simp [rank]) trivial
  · intro q free
    rw [Pmm.mem_freeSet, tested, Bool.or_eq_false_iff, total] at free
    exact h.subset ((Pmm.mem_freeSet _ _).mpr ⟨free.1, free.2.2⟩)
  · have count := h.count
    rw [spent, pc] at count
    exact shape ▸ count

theorem Pair.stack_nonNull (h : Pair k₀ k l c d) (wf : k₀.pmm.Wf) (page0 : 0 ∉ k₀.pmm.freeSet)
    (far : 4 ≤ rank c.pc) : c.stack ≠ 0#32 := by
  -- Page 0 was in use, so the stack is not `NULL`.
  intro null
  have wasFree := h.own.wasFree far
  have inside := ((Pmm.mem_freeSet _ _).mp wasFree).1
  have value := Pmm.toNat_pageAddress c.page (by have := wf.bounded; omega)
  rw [show BitVec.ofNat 32 (c.page * pageSize) = 0#32 from null] at value
  have zero : c.page = 0 := by simpa [pageSize] using value.symm
  exact page0 (zero ▸ wasFree)

theorem Pair.decrement (h : Pair k₀ k l c d) (pc : c.pc = .decrement)
    (shape : k' = { k with pmm := { k.pmm with freePages := k.pmm.freePages - 1#32 } }) :
    Pair k₀ k' l (c.goto .storeEntry) d := by
  have own (e : Creator) (known : Owns k₀ k l e) : Owns k₀ k' l e :=
    known.frame (shape ▸ rfl) (fun _ used => shape ▸ used) (fun _ dead => by subst shape; exact dead)
      fun _ _ _ => shape ▸ rfl
  have apart : Apart k' c d := h.apart.frame (shape ▸ rfl) (shape ▸ rfl)
  refine ⟨shape ▸ h.linked.congr rfl rfl fun _ _ dead => dead, h.nonempty, ?_, own d h.other,
    apart.goto _ (by simp [pc, rank]) (by simp [pc, rank]) (by simp), shape ▸ h.total,
    shape ▸ h.subset, ?_⟩
  · exact (own c h.own).goto _ (by simp [pc, rank]) (by simp) (by simp [pc, rank]) trivial
  · have count := h.count
    rw [spent, pc] at count
    rw [shape, ← count]
    change k.pmm.freePages - 1#32 + 1#32 + spent d = k.pmm.freePages + 0#32 + spent d
    rw [BitVec.sub_add_cancel, BitVec.add_zero]

theorem Pair.setPid (h : Pair k₀ k l c d) (pc : c.pc = .setPid) {p : Slot} (isP : c.pcb = some p)
    (shape : k' = ({ k with nextPid := k.nextPid + 1#32 } : Kernel Slot).modify p fun t =>
      { t with pid := k.nextPid + 1#32 }) : Pair k₀ k' l (c.goto .setState) d := by
  have apart := h.apart
  have far : 2 ≤ rank c.pc := by simp [pc, rank]
  have states : k'.state = k.state := shape ▸ Kernel.modify_state _ _ _ rfl
  have bases : k'.stackBase = k.stackBase := shape ▸ Kernel.modify_stackBase _ _ _ rfl
  have links : k'.links = k.links := shape ▸ Kernel.modify_links _ _ _ rfl
  have pmm : k'.pmm = k.pmm := shape ▸ rfl
  have nextPid : k'.nextPid = k.nextPid + 1#32 := shape ▸ rfl
  have own (e : Creator) (known : Owns k₀ k l e) : Owns k₀ k' l e :=
    known.frame links (fun _ used => pmm ▸ used) (fun _ dead => states ▸ dead) fun _ _ _ => by rw [bases]
  have mine : k'.pid p = k.nextPid + 1#32 := by
    rw [Kernel.pid, shape, Kernel.modify_block_self]
  have kept (b : Slot) (different : b ≠ p) : k'.pid b = k.pid b := by
    rw [Kernel.pid, shape, Kernel.modify_block_other _ _ different]
    rfl
  refine ⟨h.linked.congr links (shape ▸ rfl) fun _ _ dead => by rwa [states] at dead, h.nonempty, ?_,
    own d h.other, ?_, pmm ▸ h.total, pmm ▸ h.subset, ?_⟩
  · exact (own c h.own).goto .setState (by simp [pc, rank]) (by simp) (by simp [pc, rank]) trivial
  · refine ⟨fun _ => apart.slots far, fun _ => apart.pages (by simp [pc, rank]), ?_, ?_, by simp [rank],
      by simp⟩
    · intro _ past b q isB isQ
      obtain rfl : p = b := Option.some.inj (isP.symm.trans isB)
      -- The other call has the newest PID so far.
      have newest := apart.newest' past (by simp [pc, rank]) q isQ
      rw [kept q (apart.different far isP (by omega) isQ), mine, newest]
      simp
    · intro _ _ b isB
      obtain rfl : p = b := Option.some.inj (isP.symm.trans isB)
      rw [mine, nextPid]
  · have count := h.count
    rw [spent, pc] at count
    exact pmm ▸ count

theorem Pair.setState (h : Pair k₀ k l c d) (pc : c.pc = .setState) {p : Slot} (isP : c.pcb = some p) :
    Pair k₀ (k.setState p .ready) l (c.goto .setPriority) d := by
  have alive (b : Slot) (dead : (k.setState p .ready).state b = .dead) : k.state b = .dead := by
    rw [Kernel.setState_state, Function.update_apply] at dead
    split at dead
    next => cases dead
    next => exact dead
  have own (e : Creator) (known : Owns k₀ k l e) : Owns k₀ (k.setState p .ready) l e :=
    known.frame (by simp) (fun _ used => used) alive fun _ _ _ => by simp
  refine ⟨h.linked.setState p (by decide), h.nonempty, ?_, own d h.other, ?_, h.total, h.subset, ?_⟩
  · have filled (b : Slot) (isB : c.pcb = some b) : (k.setState p .ready).state b ≠ .dead := by
      obtain rfl : p = b := Option.some.inj (isP.symm.trans isB)
      simp [Kernel.setState_state]
    exact (own c h.own).pass .setPriority (by simp [pc, rank]) (by simp) (by simp [pc, rank])
      (fun _ => h.own.used (by simp [pc, rank])) (fun _ => filled) (by simp [rank]) trivial
  · exact (h.apart.frame (Kernel.setState_pid k p .ready) rfl).goto .setPriority
      (by simp [pc, rank]) (by simp [pc, rank]) (by simp)
  · have count := h.count
    rw [spent, pc] at count
    exact count

theorem Pair.setStackBase (h : Pair k₀ k l c d) (pc : c.pc = .setStackBase) {p : Slot}
    (isP : c.pcb = some p) (shape : k' = k.modify p fun t => { t with stackBase := c.stack }) :
    Pair k₀ k' l (c.goto .setNext) d := by
  have far : 2 ≤ rank c.pc := by simp [pc, rank]
  have states : k'.state = k.state := shape ▸ Kernel.modify_state k p _ rfl
  have links : k'.links = k.links := shape ▸ Kernel.modify_links k p _ rfl
  have pids : k'.pid = k.pid := shape ▸ Kernel.modify_pid k p _ rfl
  have own (e : Creator) (known : Owns k₀ k l e)
      (bases : 12 ≤ rank e.pc → ∀ b, e.pcb = some b → k'.stackBase b = k.stackBase b) :
      Owns k₀ k' l e :=
    known.frame links (fun _ used => shape ▸ used) (fun _ dead => states ▸ dead) bases
  have apart : Apart k' c d := h.apart.frame pids (shape ▸ rfl)
  refine ⟨h.linked.congr links (shape ▸ rfl) fun _ _ dead => states ▸ dead, h.nonempty, ?_,
    own d h.other ?_, apart.goto _ (by simp [pc, rank]) (by simp [pc, rank]) (by simp),
    shape ▸ h.total, shape ▸ h.subset, ?_⟩
  · have mine := own c h.own (by simp [pc, rank])
    have based (b : Slot) (isB : c.pcb = some b) : k'.stackBase b = c.stack := by
      obtain rfl : p = b := Option.some.inj (isP.symm.trans isB)
      simp [shape, Kernel.stackBase]
    exact mine.pass _ (by simp [pc, rank]) (by simp) (by simp [pc, rank])
      (fun _ => mine.used (by simp [pc, rank])) (fun _ => mine.alive (by simp [pc, rank]))
      (fun _ => based) trivial
  · intro past b isB
    have different := h.apart.different far isP (by omega) isB
    rw [Kernel.stackBase, shape, Kernel.modify_block_other _ _ different, Kernel.stackBase]
  · have count := h.count
    rw [spent, pc] at count
    exact shape ▸ count

theorem Pair.linkTail (h : Pair k₀ k l c d) {tail : Slot} (pc : c.pc = .linkTail tail) {p : Slot}
    (isP : c.pcb = some p) :
    Pair k₀ (k.setNext tail (some p)) (l ++ [p]) (c.goto .returned) d := by
  -- The tail is still the last block of the queue, so nothing is cut off.
  have own := h.own
  have far : 2 ≤ rank c.pc := by simp [pc, rank]
  have fresh : p ∉ l := own.unlisted far (by simp [pc, rank]) p isP
  have last : l.getLast? = some tail := by
    have place := own.place
    rwa [pc] at place
  have alive : k.state p ≠ .dead := own.alive (by simp [pc, rank]) p isP
  have longer := h.linked.linkTail last fresh alive
  rw [Kernel.setNext_eq_relink] at longer ⊢
  refine ⟨longer, by simp, ?_, ?_, ?_, h.total, h.subset, ?_⟩
  · refine ⟨fun _ => own.picked far, by simp [rank], fun _ => own.wasFree (by simp [pc, rank]),
      fun _ => own.used (by simp [pc, rank]), fun _ => own.alive (by simp [pc, rank]),
      fun _ => own.based (by simp [pc, rank]), ?_, trivial⟩
    intro _ b isB
    obtain rfl : p = b := Option.some.inj (isP.symm.trans isB)
    simp
  · have known := h.other
    refine ⟨known.picked, ?_, known.wasFree, known.used, known.alive, known.based, ?_, ?_⟩
    · intro far' before q isQ
      simp [known.unlisted far' before q isQ, h.apart.different far isP far' isQ]
    · exact fun done q isQ => List.mem_append_left _ (known.listed done q isQ)
    · have place := known.place
      cases here : d.pc with
      | testTail t =>
          rw [here] at place
          exact List.mem_append_left _ place
      | advance t =>
          rw [here] at place
          refine ⟨List.mem_append_left _ place.1, ?_⟩
          rw [Kernel.relink_links, Function.update_apply]
          split
          next => simp
          next => exact place.2
      | linkTail t => exact absurd here (h.apart.tails tail t pc)
      | testPage i bit => rwa [here] at place
      | setHead =>
          rw [here] at place
          exact place.elim
      | _ => trivial
  · have apart : Apart (k.relink (Function.update k.links tail (some p)) k.runQueue) c d :=
      h.apart.frame rfl rfl
    exact apart.goto _ (by simp [pc, rank]) (by simp [pc, rank]) (by simp)
  · have count := h.count
    rw [spent, pc] at count
    exact count

theorem Pair.statement (h : Pair k₀ k l c d) (wf : k₀.pmm.Wf) (page0 : 0 ∉ k₀.pmm.freeSet)
    (calm : conflict k c d = false) (ran : k.createStatement c = some (k', c')) :
    ∃ l', Pair k₀ k' l' c' d := by
  unfold Kernel.createStatement at ran
  cases pc : c.pc with
  | testUnused i =>
      simp only [pc] at ran
      split at ran
      next passed =>
        cases ran
        have dead : k.state (.pcb i) = .dead := by
          simp only [Kernel.slotUnused, Bool.and_eq_true, decide_eq_true_eq] at passed
          exact passed.1
        exact ⟨l, h.pick (by simp [pc, rank]) dead (by simpa [conflict, pc, passed] using calm)⟩
      next =>
        split at ran <;> cases ran <;>
          exact ⟨l, h.goto _ (by simp [pc, rank]) (by simp) (by simp [rank]) (by simp [pc, rank])
            trivial (by simp)⟩
  | testUsedBefore i =>
      simp only [pc] at ran
      split at ran
      next passed =>
        cases ran
        have dead : k.state (.pcb i) = .dead := by simpa [Kernel.slotUsedBefore] using passed
        exact ⟨l, h.pick (by simp [pc, rank]) dead (by simpa [conflict, pc, passed] using calm)⟩
      next =>
        split at ran <;> cases ran <;>
          exact ⟨l, h.goto _ (by simp [pc, rank]) (by simp) (by simp [rank]) (by simp [pc, rank])
            trivial (by simp)⟩
  | testWord i =>
      simp only [pc] at ran
      split at ran
      next inside =>
        rw [h.total] at inside
        split at ran <;> cases ran
        · exact ⟨l, h.goto _ (by simp [pc, rank]) (by simp) (by simp [pc, rank]) (by simp [pc, rank])
            trivial (by simp)⟩
        · exact ⟨l, h.goto _ (by simp [pc, rank]) (by simp) (by simp [pc, rank]) (by simp [pc, rank])
            ⟨inside, by decide⟩ (by simp)⟩
      next =>
        cases ran
        exact ⟨l, h.goto _ (by simp [pc, rank]) (by simp) (by simp [rank]) (by simp [pc, rank])
          trivial (by simp)⟩
  | testPage i bit =>
      have place := h.own.place
      rw [pc] at place
      simp only [pc] at ran
      split at ran
      next free =>
        cases ran
        refine ⟨l, h.choose pc free ?_⟩
        simpa [conflict, pc, free] using calm
      next =>
        split at ran <;> cases ran
        next more =>
          exact ⟨l, h.goto _ (by simp [pc, rank]) (by simp) (by simp [pc, rank]) (by simp [pc, rank])
            ⟨place.1, more⟩ (by simp)⟩
        next =>
          exact ⟨l, h.goto _ (by simp [pc, rank]) (by simp) (by simp [pc, rank]) (by simp [pc, rank])
            trivial (by simp)⟩
  | setPage =>
      simp only [pc] at ran
      cases ran
      exact ⟨l, h.setPage pc rfl⟩
  | decrement =>
      simp only [pc, h.stack_nonNull wf page0 (by simp [pc, rank]), if_false] at ran
      cases ran
      exact ⟨l, h.decrement pc rfl⟩
  | storeEntry =>
      simp only [pc] at ran
      cases ran
      have stored : Undisturbed k { k with memory := Function.update k.memory c.sp c.entryFn } :=
        ⟨rfl, rfl, rfl, rfl, fun _ dead => dead, rfl, rfl⟩
      exact ⟨l, (h.undisturbed stored).goto _ (by simp [pc, rank]) (by simp) (by simp [pc, rank])
        (by simp [pc, rank]) trivial (by simp)⟩
  | setPid =>
      simp only [pc] at ran
      obtain ⟨p, isP, made⟩ := Option.map_eq_some_iff.mp ran
      cases made
      exact ⟨l, h.setPid pc isP rfl⟩
  | setState =>
      simp only [pc] at ran
      obtain ⟨p, isP, made⟩ := Option.map_eq_some_iff.mp ran
      cases made
      exact ⟨l, h.setState pc isP⟩
  | setPriority =>
      simp only [pc] at ran
      obtain ⟨p, isP, made⟩ := Option.map_eq_some_iff.mp ran
      cases made
      have stored := Undisturbed.modify k p (f := fun t => { t with priority := c.priority })
        (fun _ => rfl) (fun _ => rfl) (fun _ => rfl) (fun _ => rfl)
      exact ⟨l, (h.undisturbed stored).goto _ (by simp [pc, rank]) (by simp) (by simp [pc, rank])
        (by simp [pc, rank]) trivial (by simp)⟩
  | setEsp =>
      simp only [pc] at ran
      obtain ⟨p, isP, made⟩ := Option.map_eq_some_iff.mp ran
      cases made
      have stored := Undisturbed.modify k p (f := fun t => { t with esp := c.sp })
        (fun _ => rfl) (fun _ => rfl) (fun _ => rfl) (fun _ => rfl)
      exact ⟨l, (h.undisturbed stored).goto _ (by simp [pc, rank]) (by simp) (by simp [pc, rank])
        (by simp [pc, rank]) trivial (by simp)⟩
  | setStackBase =>
      simp only [pc] at ran
      obtain ⟨p, isP, made⟩ := Option.map_eq_some_iff.mp ran
      cases made
      exact ⟨l, h.setStackBase pc isP rfl⟩
  | setNext =>
      simp only [pc] at ran
      obtain ⟨p, isP, made⟩ := Option.map_eq_some_iff.mp ran
      cases made
      have fresh := h.own.unlisted (by simp [pc, rank]) (by simp [pc, rank]) p isP
      rw [Kernel.setNext_unlinked (h.linked.unlinked p fresh)]
      exact ⟨l, h.goto _ (by simp [pc, rank]) (by simp) (by simp [pc, rank]) (by simp [pc, rank])
        trivial (by simp)⟩
  | clearNext =>
      simp only [pc] at ran
      obtain ⟨p, isP, made⟩ := Option.map_eq_some_iff.mp ran
      cases made
      have fresh := h.own.unlisted (by simp [pc, rank]) (by simp [pc, rank]) p isP
      rw [Kernel.setNext_unlinked (h.linked.unlinked p fresh)]
      exact ⟨l, h.goto _ (by simp [pc, rank]) (by simp) (by simp [pc, rank]) (by simp [pc, rank])
        trivial (by simp)⟩
  | testHead =>
      have occupied : k.runQueue ≠ none := by
        intro empty
        have queue := h.linked.queue
        rw [Kernel.Queue, empty] at queue
        exact h.nonempty queue.head_none
      simp only [pc, occupied, if_false] at ran
      cases ran
      exact ⟨l, h.goto _ (by simp [pc, rank]) (by simp) (by simp [pc, rank]) (by simp [pc, rank])
        trivial (by simp)⟩
  | setHead =>
      have place := h.own.place
      rw [pc] at place
      exact place.elim
  | loadHead =>
      simp only [pc] at ran
      obtain ⟨tail, isHead, made⟩ := Option.map_eq_some_iff.mp ran
      cases made
      have queue := h.linked.queue
      rw [Kernel.Queue, isHead] at queue
      obtain ⟨rest, rfl, _⟩ := queue.head_some
      exact ⟨_, h.goto _ (by simp [pc, rank]) (by simp) (by simp [pc, rank]) (by simp [pc, rank])
        List.mem_cons_self (by simp)⟩
  | testTail tail =>
      have place := h.own.place
      rw [pc] at place
      simp only [pc] at ran
      split at ran
      next final =>
        cases ran
        have last := h.linked.queue.last_of_next_none place final
        refine ⟨l, h.goto _ (by simp [pc, rank]) (by simp) (by simp [pc, rank]) (by simp [pc, rank])
          last ?_⟩
        -- The other call's tail would be this same last block.
        rintro t ⟨⟩ u isU
        have place' := h.other.place
        rw [isU] at place'
        obtain rfl : tail = u := Option.some.inj (last.symm.trans place')
        simp [conflict, pc, final, isU] at calm
      next more =>
        cases ran
        exact ⟨l, h.goto _ (by simp [pc, rank]) (by simp) (by simp [pc, rank]) (by simp [pc, rank])
          ⟨place, more⟩ (by simp)⟩
  | advance tail =>
      have place := h.own.place
      rw [pc] at place
      simp only [pc] at ran
      obtain ⟨next, link, made⟩ := Option.map_eq_some_iff.mp ran
      cases made
      exact ⟨l, h.goto _ (by simp [pc, rank]) (by simp) (by simp [pc, rank]) (by simp [pc, rank])
        (h.linked.queue.next_mem place.1 link) (by simp)⟩
  | linkTail tail =>
      simp only [pc] at ran
      obtain ⟨p, isP⟩ := h.own.picked (by simp [pc, rank])
      cases ran
      rw [isP]
      exact ⟨_, h.linkTail pc isP⟩
  | returned => simp [pc] at ran
  | returnedNull => simp [pc] at ran

end Statement

theorem Pair.collisionless {k₀ k : Kernel Slot} {l : List Slot} {c d : Creator} (h : Pair k₀ k l c d)
    (wf : k₀.pmm.Wf) {p q : Slot} (isP : result c = some p) (isQ : result d = some q) :
    p ≠ q ∧ k.stackPage p ≠ k.stackPage q ∧ k.pid p ≠ k.pid q ∧ k.Listed p ∧ k.Listed q ∧
      k.pmm.freePages.toNat + 2 = k₀.pmm.freePages.toNat := by
  have returned (e : Creator) (b : Slot) (isB : result e = some b) :
      e.pc = .returned ∧ e.pcb = some b := by
    unfold result at isB
    split at isB
    next done => exact ⟨done, isB⟩
    next => cases isB
  obtain ⟨doneC, pcbC⟩ := returned c p isP
  obtain ⟨doneD, pcbD⟩ := returned d q isQ
  have queue := h.linked.queue
  have stackPage (e : Creator) (b : Slot) (known : Owns k₀ k l e) (done : e.pc = .returned)
      (isB : e.pcb = some b) : k.stackPage b = e.page := by
    have inside := ((Pmm.mem_freeSet _ _).mp (known.wasFree (by simp [done, rank]))).1
    rw [Kernel.stackPage, known.based (by simp [done, rank]) b isB, Creator.stack,
      Pmm.toNat_pageAddress _ (by have := wf.bounded; omega),
      Nat.mul_div_cancel _ (by decide : 0 < pageSize)]
  have pages := h.apart.pages (by simp [doneC, rank]) (by simp [doneD, rank])
  refine ⟨?_, ?_, ?_, ⟨l, queue, h.own.listed doneC p pcbC⟩, ⟨l, queue, h.other.listed doneD q pcbD⟩, ?_⟩
  · exact (h.apart.different (by simp [doneC, rank]) pcbC (by simp [doneD, rank]) pcbD).symm
  · rw [stackPage c p h.own doneC pcbC, stackPage d q h.other doneD pcbD]
    exact pages
  · exact h.apart.pids (by simp [doneC, rank]) (by simp [doneD, rank]) p q pcbC pcbD
  · have count := h.count
    rw [spent, spent, doneC, doneD] at count
    -- Two different pages were free at the start, so the counter does not wrap.
    have two : ({c.page, d.page} : Finset Nat).card ≤ k₀.pmm.freeSet.card := by
      apply Finset.card_le_card
      intro page member
      rcases Finset.mem_insert.mp member with rfl | member
      · exact h.own.wasFree (by simp [doneC, rank])
      · rw [Finset.mem_singleton.mp member]
        exact h.other.wasFree (by simp [doneD, rank])
    rw [Finset.card_pair pages, ← wf.counted] at two
    have value : k.pmm.freePages + 1#32 + 1#32 = k₀.pmm.freePages := count
    rw [← value] at two ⊢
    simp only [BitVec.toNat_add, BitVec.toNat_ofNat] at two ⊢
    omega

def Calm (k₀ : Kernel Slot) (m : Machine) : Prop :=
  ∃ l, Pair k₀ m.kernel l (m.creator false) (m.creator true)

theorem Calm.collisionless {k₀ : Kernel Slot} {m : Machine} (h : Calm k₀ m) (wf : k₀.pmm.Wf) :
    Collisionless k₀ m := by
  obtain ⟨l, pair⟩ := h
  exact fun p q isP isQ => pair.collisionless wf isP isQ

theorem Calm.step {k₀ : Kernel Slot} {m m' : Machine} {e : Event} (h : Calm k₀ m) (wf : k₀.pmm.Wf)
    (page0 : 0 ∉ k₀.pmm.freeSet) (harmless : Harmless m e) (taken : Step m e m') : Calm k₀ m' := by
  obtain ⟨l, pair⟩ := h
  cases e with
  | tick =>
      obtain ⟨k, scheduled, rfl⟩ := Option.map_eq_some_iff.mp taken
      exact ⟨l, pair.undisturbed (.schedule scheduled)⟩
  | statement x =>
      simp only [Step, Create.step] at taken
      split at taken
      next =>
        obtain ⟨⟨k, c⟩, ran, rfl⟩ := Option.map_eq_some_iff.mp taken
        cases x with
        | false =>
            obtain ⟨l', kept⟩ := pair.statement wf page0 harmless ran
            exact ⟨l', by simpa using kept⟩
        | true =>
            obtain ⟨l', kept⟩ := pair.symm.statement wf page0 harmless ran
            exact ⟨l', by simpa using kept.symm⟩
      next => cases taken

/--
From any reachable kernel with both contexts in its run queue, two calls of `create_process`
never collide in any interleaving without a conflicting test.
-/
theorem always_collisionless (ram : Ram) (mb : MultibootInfo) (kernelEnd : U32) (fuel : Nat)
    (init : Pmm) (started : Pmm.pmmInit ram mb kernelEnd fuel = some init) (esp idleTask : U32)
    (memory : U32 → U32) (k₀ : Kernel Slot)
    (booted : (Kernel.bss init esp memory).schedulerInit idleTask = some k₀) (k : Kernel Slot)
    (reached : Relation.ReflTransGen Stacks.Step k₀ k) (context : Bool → Slot)
    (listed : ∀ x, k.Listed (context x)) (entryFn : Bool → U32) (priority : Bool → U8)
    (events : List Event)
    (harmless : Transition.Meets Step Harmless (start k context entryFn priority) events) :
    Transition.Always Step (Collisionless k) (start k context entryFn priority) events := by
  obtain ⟨page0, conserved⟩ := Stacks.conserved_of_booted (Pmm.pmmInit_spec started).1 booted
  obtain ⟨l, consistent, owned⟩ :=
    Transition.reachable_invariant (fun _ _ h taken => h.step page0 taken) conserved reached
  have wf := owned.paged.wf
  have page0' := owned.paged.page0_used page0
  have member : context false ∈ l := (consistent.queue.listed _).mp (listed false)
  have fresh (x : Bool) : Owns k k l (.call (entryFn x) (priority x)) := by
    constructor <;> simp [Creator.call, rank, Placed]
  have calm : Calm k (start k context entryFn priority) := by
    refine ⟨l, consistent.toLinked, List.ne_nil_of_mem member, fresh false, fresh true, ?_, rfl,
      subset_rfl, ?_⟩
    · constructor <;> simp [start, Creator.call, rank]
    · simp [start, Creator.call, spent, rank]
  exact Transition.always_of_meets (fun _ h => h.collisionless wf)
    (fun _ _ _ h harmless taken => h.step wf page0' harmless taken) calm events harmless

def twoProcesses : Option (Pmm × Kernel Slot × Kernel Slot) := do
  let init ← Pmm.pmmInit Stacks.sixtyFourPagesRam Stacks.sixtyFourPagesInfo 0x110000#32 2
  let k₀ ← (Kernel.bss init 0x110000#32 fun _ => 0#32).schedulerInit 0x100100#32
  let (_, k) ← k₀.call ⟨.createProcess 0x100200#32 1#8, 0x10FF00#32⟩
  let (_, k) ← k.call ⟨.createProcess 0x100300#32 1#8, 0x10FF00#32⟩
  let (_, k) ← k.call ⟨.schedule, 0x10FF00#32⟩
  return (init, k₀, k)

theorem twoProcesses_reached {init : Pmm} {k₀ k : Kernel Slot}
    (made : twoProcesses = some (init, k₀, k)) :
    Pmm.pmmInit Stacks.sixtyFourPagesRam Stacks.sixtyFourPagesInfo 0x110000#32 2 = some init ∧
      (Kernel.bss init 0x110000#32 fun _ => 0#32).schedulerInit 0x100100#32 = some k₀ ∧
      Relation.ReflTransGen Stacks.Step k₀ k := by
  simp only [twoProcesses, Option.bind_eq_bind, Option.bind_eq_some_iff, Option.pure_def,
    Option.some.injEq, Prod.exists, Prod.mk.injEq] at made
  obtain ⟨_, started, _, booted, _, _, first, _, _, second, _, _, scheduled, rfl, rfl, rfl⟩ := made
  refine ⟨started, booted, ((Relation.ReflTransGen.single ⟨_, _, ?_, first⟩).tail
    ⟨_, _, ?_, second⟩).tail ⟨_, _, ?_, scheduled⟩⟩ <;>
    simp [Stacks.Allowed]

def contexts (x : Bool) : Slot := if x then .pcb ⟨2, by decide⟩ else .pcb ⟨1, by decide⟩

def twoCalls (k : Kernel Slot) : Machine := start k contexts (fun _ => 0x100400#32) fun _ => 1#8

def oneAfterTheOther : List Event :=
  List.replicate 51 (.statement false) ++ [.tick] ++ List.replicate 55 (.statement true)

theorem always_collisionless_oneAfterTheOther :
    ∃ init k₀ k, twoProcesses = some (init, k₀, k) ∧
      ((oneAfterTheOther.foldlM step (twoCalls k)).map fun m =>
        (result (m.creator false), result (m.creator true))) =
          some (some (.pcb 3), some (.pcb 4)) ∧
      Transition.Always Step (Collisionless k) (twoCalls k) oneAfterTheOther := by
  have evaluated : (twoProcesses.map fun s => decide (
      s.2.2.Queue [.pcb 0, .pcb 1, .pcb 2] ∧
      (oneAfterTheOther.foldlM (fun m e => if Harmless m e then step m e else none)
        (twoCalls s.2.2)).isSome ∧
      ((oneAfterTheOther.foldlM step (twoCalls s.2.2)).map fun m =>
        (result (m.creator false), result (m.creator true))) =
          some (some (.pcb 3), some (.pcb 4)))) = some true := by
    decide +kernel
  obtain ⟨⟨init, k₀, k⟩, made, values⟩ := Option.map_eq_some_iff.mp evaluated
  obtain ⟨queue, guarded, ran⟩ := of_decide_eq_true values
  obtain ⟨started, booted, reached⟩ := twoProcesses_reached made
  obtain ⟨m, harmless⟩ := Option.isSome_iff_exists.mp guarded
  refine ⟨init, k₀, k, made, ran, ?_⟩
  refine always_collisionless _ _ _ _ init started _ _ _ k₀ booted k reached contexts ?_ _ _ _
    (.of_run harmless)
  intro x
  exact ⟨_, queue, by cases x <;> decide⟩

/-- A tick between the first call's choice of a slot and its `state = READY`. -/
def tickAfterPick : List Event :=
  List.replicate 4 (.statement false) ++ [.tick] ++ List.replicate 51 (.statement true) ++
    [.tick, .tick, .tick] ++ List.replicate 50 (.statement false)

theorem not_always_collisionless_tickAfterPick :
    ∃ init k₀ k, twoProcesses = some (init, k₀, k) ∧ (∀ x, k.Listed (contexts x)) ∧
      ¬ Transition.Always Step (Collisionless k) (twoCalls k) tickAfterPick := by
  have evaluated : (twoProcesses.bind fun s =>
      (tickAfterPick.foldlM step (twoCalls s.2.2)).map fun m => decide (
        s.2.2.Queue [.pcb 0, .pcb 1, .pcb 2] ∧
        result (m.creator false) = some (.pcb 3) ∧ result (m.creator true) = some (.pcb 3))) =
      some true := by
    decide +kernel
  obtain ⟨⟨init, k₀, k⟩, made, afterStart⟩ := Option.bind_eq_some_iff.mp evaluated
  obtain ⟨m, ran, values⟩ := Option.map_eq_some_iff.mp afterStart
  obtain ⟨queue, first, second⟩ := of_decide_eq_true values
  refine ⟨init, k₀, k, made, fun x => ⟨_, queue, by cases x <;> decide⟩, fun always => ?_⟩
  exact ((always.of_run ran) _ _ first second).1 rfl

end Create

end SoraOS
