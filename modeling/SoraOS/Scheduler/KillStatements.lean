import Mathlib.Logic.Relation
import SoraOS.Scheduler.Linked

set_option autoImplicit false

/-! `killprocess` statement by statement, and queues that a timer interrupt leaves alone. -/

namespace SoraOS

/-- The next statement of `cmd_killprocess` once it has found the block, or of `dequeue`. -/
inductive KillPc where
  | setDead
  -- `dequeue`
  | unlink
  | clearNext
  | freePage
  | clearStackBase
  | clearPid
  deriving DecidableEq

namespace Kernel

section Statements

variable {B : Type} [DecidableEq B] [Fintype B]

/-- The store of `dequeue` that takes the block off the queue, if it is found there. -/
def unlink (k : Kernel B) (pcb : B) : Option (Option (Kernel B)) :=
  if k.runQueue = some pcb then some (some { k with runQueue := k.links pcb })
  else (k.findPrevious pcb).map fun found => found.map fun prev => k.setNext prev (k.links pcb)

theorem dequeue_eq (k : Kernel B) (pcb : B) :
    k.dequeue pcb = (k.unlink pcb).map fun unlinked => match unlinked with
      | some k => k.setNext pcb none
      | none => k := by
  rw [dequeue, unlink]
  split
  next => rfl
  next =>
    cases k.findPrevious pcb with
    | none => rfl
    | some found => cases found <;> rfl

/--
One statement; no next one where the deletion is complete. The search of `dequeue` and
`pmm_free_page` are one statement each: no interrupt handler stores to what the one reads, or
looks at what the other stores.
-/
def killStatement (k : Kernel B) (p : B) : KillPc → Option (Kernel B × Option KillPc)
  | .setDead => some (k.setState p .dead, some .unlink)
  | .unlink => (k.unlink p).map fun unlinked => match unlinked with
      | some k => (k, some .clearNext)
      | none => (k, some .freePage)
  | .clearNext => some (k.setNext p none, some .freePage)
  | .freePage =>
      some ({ k with pmm := k.pmm.pmmFreePage (k.block p).stackBase }, some .clearStackBase)
  | .clearStackBase => some (k.modify p fun t => { t with stackBase := 0#32 }, some .clearPid)
  | .clearPid => some (k.modify p fun t => { t with pid := 0#32 }, none)

end Statements

section Resting

variable {B : Type}

structure Resting (k : Kernel B) (l : List B) (c : B) : Prop where
  queue : k.Queue l
  current : k.currentPcb = some c
  idle : k.idlePcb = some c
  successor : ∀ b, k.links c = some b → b ∈ l
  notReady : ∀ b ∈ l, k.state b ≠ .ready

variable {k k' : Kernel B} {l : List B} {c : B}

theorem Resting.congr (h : k.Resting l c) (links : k'.links = k.links)
    (head : k'.runQueue = k.runQueue) (states : ∀ b ∈ l, k'.state b = .ready → k.state b = .ready)
    (current : k'.currentPcb = k.currentPcb) (idle : k'.idlePcb = k.idlePcb) : k'.Resting l c := by
  refine ⟨?_, current.trans h.current, idle.trans h.idle, ?_,
    fun b member ready => h.notReady b member (states b member ready)⟩
  · rw [Queue, links, head]
    exact h.queue
  · rw [links]
    exact h.successor

variable [DecidableEq B]

theorem Linked.resting (h : k.Linked l) (current : k.currentPcb = some c)
    (idle : k.idlePcb = some c) (notReady : ∀ b ∈ l, k.state b ≠ .ready) : k.Resting l c := by
  refine ⟨h.queue, current, idle, ?_, notReady⟩
  intro b link
  by_cases listed : c ∈ l
  next => exact h.queue.next_mem listed link
  next =>
    rw [h.unlinked c listed] at link
    cases link

theorem Resting.modify (h : k.Resting l c) (p : B) (f : Tcb B → Tcb B)
    (next : ∀ t, (f t).next = t.next)
    (state : ∀ t, (f t).state = .ready → t.state = .ready) : (k.modify p f).Resting l c := by
  refine h.congr (modify_links k p f (next _)) rfl ?_ rfl rfl
  intro b _ ready
  rw [Kernel.state, modify_block] at ready
  split at ready
  next same => exact same ▸ state _ ready
  next => exact ready

theorem Resting.clearNext (h : k.Resting l c) {p : B} (absent : p ∉ l) :
    (k.setNext p none).Resting l c := by
  rw [setNext_eq_relink]
  refine ⟨?_, h.current, h.idle, ?_, h.notReady⟩
  · exact PointerList.Reads.update_outside h.queue absent none
  · intro b link
    rw [relink_links, Function.update_apply] at link
    split at link
    next => cases link
    next => exact h.successor b link

variable [Fintype B]

theorem Resting.schedule (h : k.Resting l c) : k.schedule = some k := by
  have start : (k.links c).or k.runQueue = none ∨ ∃ b ∈ l, (k.links c).or k.runQueue = some b := by
    cases link : k.links c with
    | some b => exact Or.inr ⟨b, h.successor b link, rfl⟩
    | none =>
        cases head : k.runQueue with
        | none => exact Or.inl rfl
        | some b =>
            have isHead := h.queue.head_eq
            rw [head] at isHead
            exact Or.inr ⟨b, List.mem_of_mem_head? isHead.symm, rfl⟩
  have found : k.findReady c = some none := by
    rw [findReady]
    rcases start with none | ⟨b, listed, some⟩
    · rw [none]
      rfl
    · obtain ⟨front, back, rfl⟩ := List.append_of_mem listed
      rw [some, PointerList.walkRing_reads _ h.queue _ h.queue.length_lt.le, Option.some.injEq,
        List.find?_eq_none]
      intro d member
      have listed : d ∈ front ++ b :: back := by
        rw [List.mem_append] at member ⊢
        exact member.symm
      simpa using h.notReady d listed
  simp [Kernel.schedule, h.current, found, h.idle]

-- The block is off the queue, and its own link still leads into it.
theorem Resting.unlink (h : k.Resting l c) (unlinked : ∀ b ∉ l, k.links b = none) {p : B}
    (listed : p ∈ l) : ∃ k', k.unlink p = some (some k') ∧ k'.Resting (l.erase p) c := by
  have inside {b d : B} (link : k.links b = some d) : b ∈ l := by
    by_contra absent
    rw [unlinked b absent] at link
    cases link
  have kept {d : B} (member : d ∈ l) (other : d ≠ p) : d ∈ l.erase p :=
    h.queue.nodup.mem_erase_iff.mpr ⟨other, member⟩
  have notReady (b : B) (member : b ∈ l.erase p) : k.state b ≠ .ready :=
    h.notReady b (List.mem_of_mem_erase member)
  by_cases headed : k.runQueue = some p
  next =>
    have reads : PointerList.Reads k.links (some p) l := headed ▸ h.queue
    refine ⟨{ k with runQueue := k.links p }, by rw [Kernel.unlink, if_pos headed], ?_, h.current,
      h.idle, ?_, notReady⟩
    · obtain ⟨rest, rfl, tail⟩ := reads.head_some
      rw [List.erase_cons_head]
      exact tail
    · intro b link
      refine kept (h.successor b link) ?_
      rintro rfl
      exact reads.next_ne_head (inside link) link
  next =>
    obtain ⟨front, previous, back, split, found⟩ := h.queue.find_previous headed listed
    have search : k.findPrevious p = some (some previous) := by
      rw [findPrevious, PointerList.walk_eq_find _ h.queue _ h.queue.length_lt, found]
    have toVictim : k.links previous = some p := by simpa using List.find?_some found
    have distinct := h.queue.nodup
    have erased : l.erase p = front ++ previous :: back := by
      subst split
      exact erase_behind distinct
    have onward : k.links p ≠ some p := by
      intro loop
      obtain rfl := h.queue.next_injective listed (inside toVictim) loop toVictim
      simp [split, List.nodup_append] at distinct
    refine ⟨k.setNext previous (k.links p), by rw [Kernel.unlink, if_neg headed, search]; rfl, ?_⟩
    rw [setNext_eq_relink]
    refine ⟨?_, h.current, h.idle, ?_, notReady⟩
    · have reads := (split ▸ h.queue : PointerList.Reads k.links k.runQueue _).unlink_after
      rw [Queue, erased]
      refine reads.congr fun b member => ?_
      have other : b ≠ p := by
        rintro rfl
        exact distinct.not_mem_erase (erased ▸ member)
      rw [relink_links, Function.update_of_ne other]
    · intro b link
      rw [relink_links, Function.update_apply] at link
      split at link
      next =>
        refine kept (h.queue.next_mem listed link) ?_
        rintro rfl
        exact onward link
      next other =>
        refine kept (h.successor b link) ?_
        rintro rfl
        exact other (h.queue.next_injective (inside link) (inside toVictim) link toVictim)

end Resting

end Kernel

end SoraOS
