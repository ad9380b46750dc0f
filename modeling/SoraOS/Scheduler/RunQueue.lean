import Mathlib.Data.Fintype.Card
import SoraOS.Memory.Pmm
import SoraOS.Shared.PointerList

set_option autoImplicit false

namespace SoraOS

inductive ProcessState where
  | ready
  | running
  | blocked
  | dead
  deriving DecidableEq, Repr

/-- `pcb_t`, over an arbitrary type of block addresses. -/
structure Pcb (B : Type) where
  pid : U32
  state : ProcessState
  priority : U8
  esp : U32
  stackBase : U32
  next : Option B

/--
`tcb_t`. A `pcb_pool` slot has the last fields only through casts: `wait_next` of `pcb_pool[i]`
lies on `pcb_pool[i + 1].priority`, but is a field of its own here.
-/
structure Tcb (B : Type) extends Pcb B where
  tid : U32
  parent : Option B
  waitNext : Option B

/-- The statics of `scheduler.c` and `thread.c`, the allocator, the CPU's ESP and RAM words. -/
structure Kernel (B : Type) where
  block : B → Tcb B
  runQueue : Option B
  currentPcb : Option B
  idlePcb : Option B
  nextPid : U32
  nextTid : U32
  tcbPoolInitialized : Bool
  pmm : Pmm
  esp : U32
  memory : U32 → U32

namespace Kernel

variable {B : Type}

def links (k : Kernel B) (b : B) : Option B := (k.block b).next

def state (k : Kernel B) (b : B) : ProcessState := (k.block b).state

def relink (k : Kernel B) (next : B → Option B) (head : Option B) : Kernel B :=
  { k with
    block := fun b => { k.block b with next := next b }
    runQueue := head }

@[simp] theorem relink_links (k : Kernel B) (next : B → Option B) (head : Option B) :
    (k.relink next head).links = next := rfl
@[simp] theorem relink_runQueue (k : Kernel B) (next : B → Option B) (head : Option B) :
    (k.relink next head).runQueue = head := rfl
@[simp] theorem relink_state (k : Kernel B) (next : B → Option B) (head : Option B) :
    (k.relink next head).state = k.state := rfl
@[simp] theorem relink_currentPcb (k : Kernel B) (next : B → Option B) (head : Option B) :
    (k.relink next head).currentPcb = k.currentPcb := rfl
@[simp] theorem relink_idlePcb (k : Kernel B) (next : B → Option B) (head : Option B) :
    (k.relink next head).idlePcb = k.idlePcb := rfl
@[simp] theorem relink_pmm (k : Kernel B) (next : B → Option B) (head : Option B) :
    (k.relink next head).pmm = k.pmm := rfl
@[simp] theorem relink_tcbPoolInitialized (k : Kernel B) (next : B → Option B) (head : Option B) :
    (k.relink next head).tcbPoolInitialized = k.tcbPoolInitialized := rfl

section Fields

variable [DecidableEq B]

def modify (k : Kernel B) (b : B) (f : Tcb B → Tcb B) : Kernel B :=
  { k with block := Function.update k.block b (f (k.block b)) }

def setNext (k : Kernel B) (b : B) (link : Option B) : Kernel B :=
  k.modify b fun t => { t with next := link }

def setState (k : Kernel B) (b : B) (s : ProcessState) : Kernel B :=
  k.modify b fun t => { t with state := s }

theorem modify_block (k : Kernel B) (b : B) (f : Tcb B → Tcb B) (c : B) :
    (k.modify b f).block c = if c = b then f (k.block b) else k.block c := by
  simp [modify, Function.update_apply]

@[simp] theorem modify_block_self (k : Kernel B) (b : B) (f : Tcb B → Tcb B) :
    (k.modify b f).block b = f (k.block b) := by
  simp [modify_block]

theorem modify_block_other (k : Kernel B) {b c : B} (f : Tcb B → Tcb B) (different : c ≠ b) :
    (k.modify b f).block c = k.block c := by
  simp [modify_block, different]

theorem modify_modify (k : Kernel B) (b : B) (f g : Tcb B → Tcb B) :
    (k.modify b f).modify b g = k.modify b (g ∘ f) := by
  simp [modify]

@[simp] theorem modify_runQueue (k : Kernel B) (b : B) (f : Tcb B → Tcb B) :
    (k.modify b f).runQueue = k.runQueue := rfl
@[simp] theorem modify_currentPcb (k : Kernel B) (b : B) (f : Tcb B → Tcb B) :
    (k.modify b f).currentPcb = k.currentPcb := rfl
@[simp] theorem modify_idlePcb (k : Kernel B) (b : B) (f : Tcb B → Tcb B) :
    (k.modify b f).idlePcb = k.idlePcb := rfl
@[simp] theorem modify_pmm (k : Kernel B) (b : B) (f : Tcb B → Tcb B) :
    (k.modify b f).pmm = k.pmm := rfl
@[simp] theorem modify_tcbPoolInitialized (k : Kernel B) (b : B) (f : Tcb B → Tcb B) :
    (k.modify b f).tcbPoolInitialized = k.tcbPoolInitialized := rfl

theorem modify_links (k : Kernel B) (b : B) (f : Tcb B → Tcb B)
    (kept : (f (k.block b)).next = (k.block b).next) : (k.modify b f).links = k.links := by
  funext c
  by_cases same : c = b
  · simp [links, same, kept]
  · simp [links, modify_block_other k f same]

theorem modify_state (k : Kernel B) (b : B) (f : Tcb B → Tcb B)
    (kept : (f (k.block b)).state = (k.block b).state) : (k.modify b f).state = k.state := by
  funext c
  by_cases same : c = b
  · simp [state, same, kept]
  · simp [state, modify_block_other k f same]

theorem setNext_eq_relink (k : Kernel B) (b : B) (link : Option B) :
    k.setNext b link = k.relink (Function.update k.links b link) k.runQueue := by
  have blocks : (k.setNext b link).block =
      (k.relink (Function.update k.links b link) k.runQueue).block := by
    funext c
    by_cases same : c = b
    · subst c
      simp [setNext, relink]
    · simp [setNext, relink, modify_block_other, Function.update_of_ne, same, links]
  simp only [setNext, modify, relink] at blocks ⊢
  rw [blocks]

theorem setNext_unlinked {k : Kernel B} {b : B} (unlinked : k.links b = none) :
    k.setNext b none = k := by
  rw [setNext_eq_relink, ← unlinked, Function.update_eq_self]
  rfl

omit [DecidableEq B] in
@[simp] theorem relink_relink (k : Kernel B) (next next' : B → Option B) (head head' : Option B) :
    (k.relink next head).relink next' head' = k.relink next' head' := rfl

@[simp] theorem setState_links (k : Kernel B) (b : B) (s : ProcessState) :
    (k.setState b s).links = k.links := modify_links k b _ rfl

theorem setState_state (k : Kernel B) (b : B) (s : ProcessState) :
    (k.setState b s).state = Function.update k.state b s := by
  funext c
  by_cases same : c = b
  · subst c
    simp [state, setState]
  · simp [state, setState, modify_block_other, Function.update_of_ne, same]

@[simp] theorem setState_runQueue (k : Kernel B) (b : B) (s : ProcessState) :
    (k.setState b s).runQueue = k.runQueue := rfl
@[simp] theorem setState_currentPcb (k : Kernel B) (b : B) (s : ProcessState) :
    (k.setState b s).currentPcb = k.currentPcb := rfl
@[simp] theorem setState_idlePcb (k : Kernel B) (b : B) (s : ProcessState) :
    (k.setState b s).idlePcb = k.idlePcb := rfl
@[simp] theorem setState_pmm (k : Kernel B) (b : B) (s : ProcessState) :
    (k.setState b s).pmm = k.pmm := rfl
@[simp] theorem setState_tcbPoolInitialized (k : Kernel B) (b : B) (s : ProcessState) :
    (k.setState b s).tcbPoolInitialized = k.tcbPoolInitialized := rfl

end Fields

section Queue

variable [DecidableEq B] [Fintype B]

/-- A walk that visits more blocks than there are is in a cycle and never ends. -/
def loopFuel (B : Type) [Fintype B] : Nat := Fintype.card B + 1

def findTail (k : Kernel B) : Option (Option B) :=
  -- `while (tail->next != NULL) tail = tail->next;`
  PointerList.walk k.links (fun tail => (k.links tail).isNone) (loopFuel B) k.runQueue

def enqueue (k : Kernel B) (pcb : B) : Option (Kernel B) :=
  let k := k.setNext pcb none
  match k.runQueue with
  | none => some { k with runQueue := some pcb }
  | some _ => do
      let tail ← (← k.findTail)
      return k.setNext tail (some pcb)

def findPrevious (k : Kernel B) (pcb : B) : Option (Option B) :=
  -- `while (prev && prev->next != pcb) prev = prev->next;`
  PointerList.walk k.links (fun prev => k.links prev = some pcb) (loopFuel B) k.runQueue

def dequeue (k : Kernel B) (pcb : B) : Option (Kernel B) :=
  if k.runQueue = some pcb then
    let k := { k with runQueue := k.links pcb }
    some (k.setNext pcb none)
  else do
    match ← k.findPrevious pcb with
    | none => return k
    | some prev =>
        let k := k.setNext prev (k.links pcb)
        return k.setNext pcb none

def Queue (k : Kernel B) (l : List B) : Prop := PointerList.Reads k.links k.runQueue l

instance (k : Kernel B) (l : List B) : Decidable (k.Queue l) :=
  inferInstanceAs (Decidable (PointerList.Reads k.links k.runQueue l))

def Listed (k : Kernel B) (b : B) : Prop := ∃ l, k.Queue l ∧ b ∈ l

omit [DecidableEq B] [Fintype B] in
theorem Queue.listed {k : Kernel B} {l : List B} (h : k.Queue l) (b : B) : k.Listed b ↔ b ∈ l := by
  constructor
  · rintro ⟨l', queue, member⟩
    rwa [PointerList.Reads.unique h queue]
  · exact fun member => ⟨l, h, member⟩

omit [DecidableEq B] [Fintype B] in
theorem Queue.nodup {k : Kernel B} {l : List B} (h : k.Queue l) : l.Nodup :=
  PointerList.Reads.nodup h

omit [DecidableEq B] in
theorem Queue.length_lt {k : Kernel B} {l : List B} (h : k.Queue l) : l.length < loopFuel B :=
  Nat.lt_succ_of_le h.nodup.length_le_card

theorem enqueue_spec {k : Kernel B} {l : List B} {pcb : B} (h : k.Queue l) (fresh : pcb ∉ l) :
    ∃ next head, k.enqueue pcb = some (k.relink next head) ∧
      (k.relink next head).Queue (l ++ [pcb]) ∧
      ∀ b, b ≠ pcb → l.getLast? ≠ some b → next b = k.links b := by
  have cleared : PointerList.Reads (Function.update k.links pcb none) k.runQueue l :=
    PointerList.Reads.update_outside h fresh none
  rcases l.eq_nil_or_concat with rfl | ⟨front, last, rfl⟩
  · have empty : k.runQueue = none := h
    refine ⟨Function.update k.links pcb none, some pcb, ?_, ?_, ?_⟩
    · simp only [enqueue, setNext_eq_relink, relink_runQueue, empty]
      rfl
    · simp [Queue, PointerList.Reads]
    · intro b different _
      simp [different]
  · rw [List.concat_eq_append] at h fresh cleared ⊢
    obtain ⟨first, nonempty⟩ : ∃ first, k.runQueue = some first := by
      rw [h.head_eq]
      cases front <;> simp
    have found : PointerList.walk (Function.update k.links pcb none)
        (fun tail => (Function.update k.links pcb none tail).isNone) (loopFuel B) k.runQueue =
          some (some last) := by
      rw [PointerList.walk_eq_find _ cleared _ h.length_lt]
      have lastLink := cleared.next_eq front []
      have frontLinks : front.find?
          (fun tail => (Function.update k.links pcb none tail).isNone) = none := by
        rw [List.find?_eq_none]
        intro b member
        obtain ⟨before, after, rfl⟩ := List.append_of_mem member
        have link := PointerList.Reads.next_eq before (after ++ [last])
          (by simpa using cleared)
        rw [link]
        cases after <;> simp
      rw [List.find?_append, frontLinks]
      simp [lastLink]
    have appended := cleared.append fresh (Function.update_self pcb none k.links)
    refine ⟨Function.update (Function.update k.links pcb none) last (some pcb), k.runQueue, ?_, ?_, ?_⟩
    · simp only [enqueue, setNext_eq_relink, relink_runQueue, nonempty, findTail, relink_links]
      rw [nonempty] at found
      rw [found]
      simp
    · simpa [Queue] using appended
    · intro b different notLast
      have other : b ≠ last := by
        rintro rfl
        simp at notLast
      simp [Function.update_of_ne, other, different]

theorem enqueue_relink {k k' : Kernel B} {pcb : B} (result : k.enqueue pcb = some k') :
    ∃ next head, k' = k.relink next head := by
  simp only [enqueue, setNext_eq_relink, relink_runQueue] at result
  split at result
  next => exact ⟨_, _, (Option.some.inj result).symm⟩
  next =>
    obtain ⟨found, _, result⟩ := Option.bind_eq_some_iff.mp result
    obtain ⟨tail, _, result⟩ := Option.bind_eq_some_iff.mp result
    exact ⟨_, _, (Option.some.inj result).symm⟩

theorem dequeue_relink {k k' : Kernel B} {pcb : B} (result : k.dequeue pcb = some k') :
    ∃ next head, k' = k.relink next head := by
  simp only [dequeue] at result
  split at result
  next => exact ⟨_, _, (Option.some.inj result).symm.trans (setNext_eq_relink _ _ _)⟩
  next =>
    obtain ⟨found, _, result⟩ := Option.bind_eq_some_iff.mp result
    cases found with
    | none => exact ⟨k.links, k.runQueue, (Option.some.inj result).symm⟩
    | some prev =>
        simp only [setNext_eq_relink, relink_relink] at result
        exact ⟨_, _, (Option.some.inj result).symm⟩

omit [Fintype B] in
theorem erase_behind {front back : List B} {previous b : B}
    (distinct : (front ++ previous :: b :: back).Nodup) :
    (front ++ previous :: b :: back).erase b = front ++ previous :: back := by
  rw [List.append_cons, List.erase_append_right, List.erase_cons_head]
  · simp
  · intro again
    rw [List.append_cons, List.nodup_append] at distinct
    exact distinct.2.2 b again b (by simp) rfl

theorem dequeue_spec {k : Kernel B} {l : List B} (pcb : B) (h : k.Queue l)
    (unlinked : ∀ b ∉ l, k.links b = none) :
    ∃ next head, k.dequeue pcb = some (k.relink next head) ∧
      (k.relink next head).Queue (l.erase pcb) ∧ ∀ b ∉ l.erase pcb, next b = none := by
  have distinct := h.nodup
  have outside (b : B) (absent : b ∉ l.erase pcb) (different : b ≠ pcb) : k.links b = none := by
    apply unlinked
    rwa [List.mem_erase_of_ne different] at absent
  by_cases headed : k.runQueue = some pcb
  · have reads : PointerList.Reads k.links (some pcb) l := by
      rw [← headed]
      exact h
    obtain ⟨rest, rfl, tail⟩ := reads.head_some
    refine ⟨Function.update k.links pcb none, k.links pcb, ?_, ?_, ?_⟩
    · simp only [dequeue, headed, if_true, setNext_eq_relink]
      rfl
    · rw [List.erase_cons_head]
      exact PointerList.Reads.unlink_head ⟨rfl, tail⟩
    · intro b absent
      by_cases same : b = pcb
      · simp [same]
      · rw [Function.update_of_ne same]
        exact outside b absent same
  · by_cases member : pcb ∈ l
    · obtain ⟨front, previous, back, split, searched⟩ :
          ∃ front previous back, l = front ++ previous :: pcb :: back ∧
            l.find? (fun prev => k.links prev = some pcb) = some previous :=
        PointerList.Reads.find_previous h headed member
      have erased : l.erase pcb = front ++ previous :: back := by
        subst split
        exact erase_behind distinct
      refine ⟨Function.update (Function.update k.links previous (k.links pcb)) pcb none,
        k.runQueue, ?_, ?_, ?_⟩
      · simp only [dequeue, headed, if_false, findPrevious,
          PointerList.walk_eq_find _ h _ h.length_lt, searched]
        simp [setNext_eq_relink]
      · rw [erased]
        subst split
        exact PointerList.Reads.unlink_after h
      · intro b absent
        by_cases same : b = pcb
        · simp [same]
        · have notPrevious : b ≠ previous := by
            rintro rfl
            simp [erased] at absent
          rw [Function.update_of_ne same, Function.update_of_ne notPrevious]
          exact outside b absent same
    · have searched : l.find? (fun prev => k.links prev = some pcb) = none := by
        rw [List.find?_eq_none]
        intro b inside link
        exact member (PointerList.Reads.next_mem h inside (by simpa using link))
      refine ⟨k.links, k.runQueue, ?_, ?_, ?_⟩
      · simp only [dequeue, headed, if_false, findPrevious,
          PointerList.walk_eq_find _ h _ h.length_lt, searched]
        rfl
      · rw [List.erase_of_not_mem member]
        exact h
      · rw [List.erase_of_not_mem member]
        exact unlinked

end Queue

end Kernel

end SoraOS
