import SoraOS.Preemption.Newprocess
import SoraOS.Scheduler.KillStatements
import SoraOS.Session.Table

set_option autoImplicit false

/-!
The two commands that change the run queue, statement by statement, and what a timer interrupt
between two of the statements does.
-/

namespace SoraOS

namespace Session

/-- Where `cmd_newprocess` or `cmd_killprocess` stands, with its locals. -/
inductive KernelPc where
  -- in `create_process`, or behind it
  | create (c : Creator)
  -- the block with the PID `target` is found
  | kill (target : U32) (p : Slot) (pc : KillPc)
  -- what is left is to print
  | created (p : Option Slot)
  | deleted (target : U32)

def kernelStatement (k : Kernel Slot) : KernelPc → Option (Kernel Slot × KernelPc)
  | .create c =>
      match c.pc with
      | .returned => c.pcb.map fun p => (k.setState p .blocked, .created (some p))
      | .returnedNull => some (k, .created none)
      | _ => (k.createStatement c).map fun r => (r.1, .create r.2)
  | .kill target p pc => (k.killStatement p pc).map fun r =>
      (r.1, match r.2 with
        | some pc => .kill target p pc
        | none => .deleted target)
  | .created _ => none
  | .deleted _ => none

/--
`create_process` has returned, and the new block is READY. It is the current one only where the
deleted idle process has made room for it.
-/
def KernelPc.exposed (k : Kernel Slot) : KernelPc → Bool
  | .create c => c.pc = .returned ∧ k.currentPcb ≠ c.pcb
  | _ => false

-- What a timer interrupt does here: it takes the CPU away from the shell, or changes nothing.
def Ticks (k : Kernel Slot) (pc : KernelPc) : Prop :=
  if pc.exposed k then ∃ k', k.schedule = some k' ∧ k'.currentPcb ≠ k.currentPcb
  else k.schedule = some k

inductive Completes (done : Kernel Slot → KernelPc → Prop) : Nat → Kernel Slot → KernelPc → Prop
  | done {k : Kernel Slot} {pc : KernelPc} (holds : done k pc) : Completes done 0 k pc
  | statement {n : Nat} {k k' : Kernel Slot} {pc pc' : KernelPc} (ticks : Ticks k pc)
      (ran : kernelStatement k pc = some (k', pc')) (rest : Completes done n k' pc') :
      Completes done (n + 1) k pc

theorem ticks_of_calm {k : Kernel Slot} {pc : KernelPc} (outside : pc.exposed k = false)
    (calm : k.schedule = some k) : Ticks k pc := by
  rw [Ticks, if_neg (by simp [outside])]
  exact calm

theorem Completes.imp {done done' : Kernel Slot → KernelPc → Prop} {n : Nat} {k : Kernel Slot}
    {pc : KernelPc} (h : Completes done n k pc) (more : ∀ k pc, done k pc → done' k pc) :
    Completes done' n k pc := by
  induction h with
  | done holds => exact .done (more _ _ holds)
  | statement ticks ran _ ih => exact .statement ticks ran ih

section Create

variable {k k' : Kernel Slot} {l : List Slot} {c c' : Creator} {i : Slot}

theorem kernelStatement_create (moved : k.createStatement c = some (k', c')) :
    kernelStatement k (.create c) = some (k', .create c') := by
  rw [kernelStatement]
  split
  next returned => simp [Kernel.createStatement, returned] at moved
  next returned => simp [Kernel.createStatement, returned] at moved
  next => rw [moved]; rfl

structure Creating (k : Kernel Slot) (l : List Slot) (i : Slot) (c : Creator) : Prop where
  linked : k.Linked l
  building : Newprocess.Building k l c
  current : k.currentPcb = some i
  idle : k.idlePcb = some i
  notReady : ∀ b ∈ l, k.state b ≠ .ready

theorem Creating.statement (h : Creating k l i c) (moved : k.createStatement c = some (k', c')) :
    Creating k' l i c' ∨ c'.pc = .returned := by
  cases h.building.statement h.linked moved with
  | inside _ linked building _ _ states currentPcb idlePcb =>
      refine Or.inl ⟨linked, building, currentPcb.trans h.current, idlePcb.trans h.idle, ?_⟩
      intro b member
      rw [states b member]
      exact h.notReady b member
  | enqueued => exact Or.inr rfl

theorem completes_create {done : Kernel Slot → KernelPc → Prop} {s last : Kernel Slot × Creator}
    (path : Relation.ReflTransGen
      (fun s t : Kernel Slot × Creator => s.1.createStatement s.2 = some t) s last)
    (ended : last.1.createStatement last.2 = none) (start : Creating s.1 l i s.2) {n : Nat}
    (rest : Completes done n last.1 (.create last.2)) :
    ∃ n, Completes done n s.1 (.create s.2) := by
  induction path using Relation.ReflTransGen.head_induction_on with
  | refl => exact ⟨n, rest⟩
  | @head s t first later ih =>
      have outside : (KernelPc.create s.2).exposed s.1 = false := by
        rw [KernelPc.exposed, decide_eq_false_iff_not]
        rintro ⟨returned, -⟩
        simp [Kernel.createStatement, returned] at first
      have ticks := ticks_of_calm outside
        (start.linked.resting start.current start.idle start.notReady).schedule
      have taken := kernelStatement_create first
      rcases start.statement first with next | returned
      · obtain ⟨m, onward⟩ := ih next
        exact ⟨m + 1, .statement ticks taken onward⟩
      · -- A call that has returned is at its end.
        rcases later.cases_head with same | ⟨u, more, -⟩
        · subst same
          exact ⟨n + 1, .statement ticks taken rest⟩
        · simp [Kernel.createStatement, returned] at more

theorem ticks_exposed {p : Slot} (linked : k.Linked (l ++ [p])) (unlisted : p ∉ l)
    (notReady : ∀ b ∈ l, k.state b ≠ .ready) (ready : k.state p = .ready)
    (current : k.currentPcb = some i) (idle : k.idlePcb = some i) (returned : c.pc = .returned)
    (own : c.pcb = some p) : Ticks k (.create c) := by
  obtain ⟨k', ran, -, scheduled⟩ := linked.schedule current idle
  have only (b : Slot) (listed : b ∈ l ++ [p]) (isReady : k.state b = .ready) : b = p := by
    rcases List.mem_append.mp listed with older | new
    · exact absurd isReady (notReady b older)
    · exact List.mem_singleton.mp new
  have listed : p ∈ l ++ [p] := List.mem_append_right _ (List.mem_singleton_self p)
  rw [Ticks, KernelPc.exposed]
  cases scheduled with
  | idles _ nobody => exact absurd ready (nobody p listed)
  | fallback _ nobody => exact absurd ready (nobody p listed)
  | itself member isReady =>
      obtain rfl := only i member isReady
      rw [if_neg (by simp [current, own])]
      exact ran
  | ready next different member isReady =>
      obtain rfl := only next member isReady
      rw [if_pos (by simp [returned, current, own, Ne.symm different])]
      exact ⟨_, ran, by simp [current, Kernel.switchTo, different]⟩

end Create

section Represented

variable {init : Pmm} {k : Kernel Slot} {l : List Slot} {t : Table}

theorem Represents.completes_newprocess (h : Represents init k l t)
    (more : t.lastPid + 1 < 2 ^ 32) (counterProcess : U32) :
    ∃ n, Completes (fun k' pc => ∃ block l', pc = .created block ∧
        Represents init k' l' (t.create (capacity init)).2 ∧
        block.map (fun b => (k'.pid b).toNat) = (t.create (capacity init)).1) n k
      (.create (.call counterProcess 1#8)) := by
  obtain ⟨block, k', l', run, next, pid⟩ := h.newprocess more counterProcess
  obtain ⟨⟨made, k₁⟩, created, result⟩ := Option.bind_eq_some_iff.mp run
  obtain ⟨c, path, ended⟩ := Kernel.statements_createProcess created
  obtain ⟨i, running⟩ := h.consistent.current
  have idle : k.idlePcb = some i := h.current.symm.trans running
  have start : Creating k l i (.call counterProcess 1#8) := by
    refine ⟨h.consistent.toLinked, ?_, running, idle, fun b listed => h.notReady listed⟩
    constructor <;> simp [Creator.call, Create.rank, Newprocess.Placed]
  obtain ⟨made', k₂, again, outcome, after⟩ := h.consistent.createProcess_outcome counterProcess 1#8
  obtain ⟨rfl, rfl⟩ := Prod.mk.inj (Option.some.inj (created.symm.trans again))
  cases made with
  | none =>
      obtain ⟨rfl, rfl⟩ : none = block ∧ k₁ = k' := by simpa using result
      have ran : kernelStatement k₁ (.create c) = some (k₁, .created none) := by
        simp [kernelStatement, ended]
      have outside : (KernelPc.create c).exposed k₁ = false := by simp [KernelPc.exposed, ended]
      exact completes_create path (by simp [Kernel.createStatement, ended]) start
        (.statement (ticks_of_calm outside next.schedule) ran (.done ⟨_, l', rfl, next, pid⟩))
  | some p =>
      obtain ⟨returned, own⟩ := ended
      obtain ⟨rfl, rfl⟩ : some p = block ∧ k₁.setState p .blocked = k' := by simpa using result
      have ran : kernelStatement k₁ (.create c) = some (k₁.setState p .blocked, .created (some p)) := by
        simp [kernelStatement, returned, own]
      refine completes_create path (by simp [Kernel.createStatement, returned]) start
        (.statement ?_ ran (.done ⟨_, l', rfl, next, pid⟩))
      cases outcome with
      | process _ _ j next' head found stack =>
          have unlisted := h.consistent.allocPcb_fresh found
          refine ticks_exposed after.toLinked unlisted ?_ ?_ running idle returned own
          · intro b listed
            have older : b ≠ .pcb j := by
              rintro rfl
              exact unlisted listed
            rw [Kernel.withProcess_state, Function.update_of_ne older]
            exact h.notReady listed
          · rw [Kernel.withProcess_state, Function.update_self]

theorem Represents.resting (h : Represents init k l t) : ∃ c, k.Resting l c := by
  obtain ⟨c, running⟩ := h.consistent.current
  exact ⟨c, h.consistent.toLinked.resting running (h.current.symm.trans running)
    fun b listed => h.notReady listed⟩

-- The six statements of a deletion, up to the block as `release` leaves it.
theorem Represents.completes_release (h : Represents init k l t) {p : Slot} (listed : p ∈ l)
    (target : U32) {k' : Kernel Slot} (released : k.release p Kernel.wipeProcess = some k')
    {done : Kernel Slot → KernelPc → Prop} (last : done k' (.deleted target)) :
    Completes done 6 k (.kill target p .setDead) := by
  obtain ⟨c, resting⟩ := h.resting
  have marked : (k.setState p .dead).Resting l c :=
    resting.modify p (fun t => { t with state := .dead }) (fun _ => rfl) nofun
  obtain ⟨k₁, unlinked, off⟩ := marked.unlink (by simpa using h.consistent.unlinked) listed
  have dequeued : (k.setState p .dead).dequeue p = some (k₁.setNext p none) := by
    rw [Kernel.dequeue_eq, unlinked]
    rfl
  have cleared : (k₁.setNext p none).Resting (l.erase p) c :=
    off.clearNext h.consistent.queue.nodup.not_mem_erase
  obtain ⟨k₂, clearing⟩ : ∃ k₂, k₂ = k₁.setNext p none := ⟨_, rfl⟩
  rw [← clearing] at dequeued cleared
  have freed : ({ k₂ with pmm := k₂.pmm.pmmFreePage (k₂.block p).stackBase } : Kernel Slot).Resting
      (l.erase p) c := cleared.congr rfl rfl (fun _ _ => id) rfl rfl
  have wiped := freed.modify p (fun t => { t with stackBase := 0#32 }) (fun _ => rfl) fun _ => id
  have whole : ({ k₂ with pmm := k₂.pmm.pmmFreePage (k₂.block p).stackBase } : Kernel Slot).modify p
      Kernel.wipeProcess = k' := by
    simpa [Kernel.release, dequeued] using released
  rw [← whole] at last
  have unlinking : kernelStatement (k.setState p .dead) (.kill target p .unlink) =
      some (k₁, .kill target p .clearNext) := by
    simp [kernelStatement, Kernel.killStatement, unlinked]
  refine .statement (ticks_of_calm rfl resting.schedule) rfl ?_
  refine .statement (ticks_of_calm rfl marked.schedule) unlinking ?_
  have unlinkedNext : kernelStatement k₁ (.kill target p .clearNext) =
      some (k₂, .kill target p .freePage) := by
    rw [clearing]
    rfl
  refine .statement (ticks_of_calm rfl off.schedule) unlinkedNext ?_
  refine .statement (ticks_of_calm rfl cleared.schedule) rfl ?_
  refine .statement (ticks_of_calm rfl freed.schedule) rfl ?_
  refine .statement (ticks_of_calm rfl wiped.schedule) rfl (.done ?_)
  rwa [Kernel.modify_modify]

theorem Represents.completes_killprocess (h : Represents init k l t) (argument : List U8) :
    ∃ found, k.findPid (Kernel.parseTarget argument 0#32) = some found ∧
      found.isSome = (t.kill (Killprocess.leadingNumber argument)).1 ∧
      match found with
      | none => Represents init k l (t.kill (Killprocess.leadingNumber argument)).2
      | some p => Completes (fun k' pc => pc = .deleted (Kernel.parseTarget argument 0#32) ∧
          ∃ l', Represents init k' l' (t.kill (Killprocess.leadingNumber argument)).2) 6 k
            (.kill (Kernel.parseTarget argument 0#32) p .setDead) := by
  obtain ⟨block, k', l', run, next, hit⟩ := h.killprocess [] argument []
  simp only [Kernel.cmdKillprocess, Option.bind_eq_bind, Option.bind_eq_some_iff] at run
  obtain ⟨found, search, run⟩ := run
  refine ⟨found, search, ?_⟩
  cases found with
  | none =>
      cases run
      obtain rfl := h.consistent.queue.unique next.consistent.queue
      exact ⟨hit, next⟩
  | some p =>
      obtain ⟨k₁, released, result⟩ := Option.bind_eq_some_iff.mp run
      obtain ⟨rfl, rfl⟩ : some p = block ∧ k₁ = k' := by simpa using result
      have listed : p ∈ l := by
        rw [Kernel.findPid, PointerList.walk_eq_find _ h.consistent.queue _
          h.consistent.queue.length_lt, Option.some.injEq] at search
        exact List.mem_of_find?_eq_some search
      exact ⟨hit, h.completes_release listed _ released ⟨rfl, l', next⟩⟩

end Represented

end Session

end SoraOS
