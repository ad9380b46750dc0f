import SoraOS.Console.Number
import SoraOS.Mutex.Dispatch
import SoraOS.Scheduler.Listing

set_option autoImplicit false

/-! `cmd_killprocess` from its argument to the block that it deletes. -/

namespace SoraOS

namespace Killprocess

open Shell

structure NamedBy (k : Kernel Slot) (l : List Slot) (argument : List U8) (p : Slot) : Prop where
  nonempty : argument ≠ []
  digits : ∀ c ∈ argument, isDigit c = true
  listed : p ∈ l
  process : ∃ i, p = .pcb i
  value : number argument = (k.pid p).toNat

structure Deleted (k : Kernel Slot) (l : List Slot) (p : Slot) (k' : Kernel Slot) : Prop where
  queue : k'.Queue (l.erase p)
  dead : k'.state p = .dead
  cleared : k'.pid p = 0#32 ∧ (k'.block p).stackBase = 0#32
  stack : k'.pmm = k.pmm.pmmFreePage (k.block p).stackBase
  others : ∀ b, b ≠ p → { k'.block b with next := (k.block b).next } = k.block b
  current : k'.currentPcb = k.currentPcb ∧ k'.idlePcb = k.idlePcb
  counters : k'.nextPid = k.nextPid ∧ k'.nextTid = k.nextTid
  pool : k'.tcbPoolInitialized = k.tcbPoolInitialized
  machine : k'.esp = k.esp ∧ k'.memory = k.memory

structure HitsNamed (k : Kernel Slot) (l : List Slot) (argument : List U8)
    (result : Option Slot × Kernel Slot) : Prop where
  named : ∀ p, NamedBy k l argument p → result.1 = some p ∧ Deleted k l p result.2
  nobody : (∀ p, ¬NamedBy k l argument p) → result = (none, k)

/-- The number that the digits at the start of the argument stand for, as 32 bits hold it. -/
def leadingNumber (argument : List U8) : Nat := number (argument.takeWhile isDigit) % 2 ^ 32

/--
No block of the queue has the leading number for its PID; or the argument is a decimal number
below 2^32, and the first block with this PID is a process, and the only one.
-/
def Unmistakable (k : Kernel Slot) (l : List Slot) (argument : List U8) : Prop :=
  (∀ b ∈ l, (k.pid b).toNat ≠ leadingNumber argument) ∨
  (argument ≠ [] ∧ (∀ c ∈ argument, isDigit c = true) ∧ number argument < 2 ^ 32 ∧
    ∃ i, l.find? (fun b => (k.pid b).toNat = leadingNumber argument) = some (.pcb i) ∧
      ∀ j, .pcb j ∈ l → (k.pid (.pcb j)).toNat = leadingNumber argument → j = i)

theorem parseTarget_eq (argument : List U8) :
    (Kernel.parseTarget argument 0#32).toNat = leadingNumber argument :=
  parseTarget_toNat argument 0#32

theorem leadingNumber_of_digits {argument : List U8} (digits : ∀ c ∈ argument, isDigit c = true)
    (small : number argument < 2 ^ 32) : leadingNumber argument = number argument := by
  rw [leadingNumber, List.takeWhile_eq_self_iff.mpr digits, Nat.mod_eq_of_lt small]

theorem NamedBy.small {k : Kernel Slot} {l : List Slot} {argument : List U8} {p : Slot}
    (named : NamedBy k l argument p) : number argument < 2 ^ 32 := by
  rw [named.value]
  exact (k.pid p).isLt

theorem NamedBy.leading {k : Kernel Slot} {l : List Slot} {argument : List U8} {p : Slot}
    (named : NamedBy k l argument p) : (k.pid p).toNat = leadingNumber argument := by
  rw [leadingNumber_of_digits named.digits named.small, named.value]

theorem deleted_released {k : Kernel Slot} {l : List Slot} (p : Slot) (next : Slot → Option Slot)
    (head : Option Slot) (linked : (k.released p Kernel.wipeProcess next head).Linked (l.erase p)) :
    Deleted k l p (k.released p Kernel.wipeProcess next head) := by
  refine ⟨linked.queue, ?_, ⟨?_, ?_⟩, rfl, ?_, ⟨rfl, rfl⟩, ⟨rfl, rfl⟩, rfl, rfl, rfl⟩
  · rw [Kernel.released_state k p Kernel.wipeProcess next head fun _ => rfl, Function.update_self]
  · simp [Kernel.pid, Kernel.released, Kernel.wipeProcess]
  · simp [Kernel.released, Kernel.wipeProcess]
  · intro b different
    rw [Kernel.released_block_other k p Kernel.wipeProcess next head different]

theorem hitsNamed_first {k k' : Kernel Slot} {l : List Slot} {argument : List U8} {p : Slot}
    (first : l.find? (fun b => (k.pid b).toNat = leadingNumber argument) = some p)
    (deleted : Deleted k l p k') :
    HitsNamed k l argument (some p, k') ↔ Unmistakable k l argument := by
  have listed : p ∈ l := List.mem_of_find?_eq_some first
  have matched : (k.pid p).toNat = leadingNumber argument := by
    simpa using List.find?_some first
  constructor
  next =>
    intro hits
    obtain ⟨q, named⟩ : ∃ q, NamedBy k l argument q := by
      by_contra nobody
      have nothing := hits.nobody fun q named => nobody ⟨q, named⟩
      cases nothing
    obtain rfl : p = q := Option.some.inj (hits.named q named).1
    obtain ⟨i, rfl⟩ := named.process
    refine Or.inr ⟨named.nonempty, named.digits, named.small, i, first, ?_⟩
    intro j other same
    have alsoNamed : NamedBy k l argument (.pcb j) :=
      ⟨named.nonempty, named.digits, other, ⟨j, rfl⟩, by rw [named.value, matched, same]⟩
    have one := Option.some.inj (hits.named _ alsoNamed).1
    exact (Slot.pcb.inj one).symm
  next =>
    rintro (unmatched | ⟨nonempty, digits, small, i, found, single⟩)
    · exact absurd matched (unmatched p listed)
    · obtain rfl : p = .pcb i := Option.some.inj (first.symm.trans found)
      constructor
      next =>
        intro q named
        obtain ⟨j, rfl⟩ := named.process
        rw [single j named.listed named.leading]
        exact ⟨rfl, deleted⟩
      next =>
        intro nobody
        refine absurd ?_ (nobody (.pcb i))
        exact ⟨nonempty, digits, listed, ⟨i, rfl⟩,
          by rw [matched, leadingNumber_of_digits digits small]⟩

theorem hitsNamed_iff {k : Kernel Slot} {l : List Slot} (linked : k.Linked l)
    (command argument : List U8) (rest : List (List U8)) :
    ∃ result, k.cmdKillprocess (command :: argument :: rest) = some result ∧
      (HitsNamed k l argument result ↔ Unmistakable k l argument) := by
  have sameTest : (fun b => decide ((k.block b).pid = Kernel.parseTarget argument 0#32)) =
      fun b => decide ((k.pid b).toNat = leadingNumber argument) := by
    funext b
    rw [← parseTarget_eq]
    exact decide_eq_decide.mpr BitVec.toNat_inj.symm
  rcases linked.cmdKillprocess (command :: argument :: rest) with ⟨nobody, run⟩ |
    ⟨_, _, _, p, next, head, ⟨⟩, first, run, shorter⟩
  · -- no listed block has the number, so none is named either
    have missed := nobody _ _ _ rfl
    rw [sameTest, List.find?_eq_none] at missed
    have unmatched : ∀ b ∈ l, (k.pid b).toNat ≠ leadingNumber argument := by simpa using missed
    refine ⟨_, run, ?_⟩
    constructor
    next => exact fun _ => Or.inl unmatched
    next =>
      intro _
      exact ⟨fun p named => absurd named.leading (unmatched p named.listed), fun _ => rfl⟩
  · rw [sameTest] at first
    exact ⟨_, run, hitsNamed_first first (deleted_released p next head shorter)⟩

variable {M : Type} [DecidableEq M]

/--
In every state that calls and mutex operations lead to from `scheduler_init`, `killprocess` with
an argument hits exactly the process that it names if and only if the argument is unmistakable.
-/
theorem killprocess_hits_named (pmm : Pmm) (esp idleTask : U32) (memory : U32 → U32)
    (k : Kernel Slot) (initialized : (Kernel.bss pmm esp memory).schedulerInit idleTask = some k)
    (s : Dispatch.State M) (reached : Dispatch.Reachable (Dispatch.booted M k) s)
    (command argument : List U8) (rest : List (List U8)) :
    ∃ l result, PointerList.Reads s.kernel.links s.kernel.runQueue l ∧
      s.kernel.cmdKillprocess (command :: argument :: rest) = some result ∧
      (HitsNamed s.kernel l argument result ↔ Unmistakable s.kernel l argument) := by
  obtain ⟨i, _, _, _, _, consistent⟩ := Kernel.schedulerInit_spec initialized
  have start : Dispatch.Sound (Dispatch.booted M k) := ⟨_, consistent⟩
  obtain ⟨l, placed⟩ := start.reachable reached
  obtain ⟨result, run, iff⟩ := hitsNamed_iff placed.toLinked command argument rest
  exact ⟨l, result, placed.queue, run, iff⟩

theorem killprocess_hits_named_two :
    ∃ k s, smallBoot = some k ∧ Dispatch.Reachable (Dispatch.booted Unit k) s ∧
      ∃ l result, PointerList.Reads s.kernel.links s.kernel.runQueue l ∧
        s.kernel.cmdKillprocess [[], [50#8]] = some result ∧
        HitsNamed s.kernel l [50#8] result := by
  have evaluated : (smallBoot.bind fun k => (List.foldlM Dispatch.step (Dispatch.booted Unit k)
      [⟨.call (.newprocess 0x100200#32), 0x10FF00#32⟩]).map fun s =>
        decide (PointerList.Reads s.kernel.links s.kernel.runQueue [.pcb 0, .pcb 1] ∧
          s.kernel.pid (.pcb 0) = 1#32 ∧ s.kernel.pid (.pcb 1) = 2#32)) = some true := by
    decide +kernel
  obtain ⟨k, initialized, afterBoot⟩ := Option.bind_eq_some_iff.mp evaluated
  obtain ⟨s, ran, values⟩ := Option.map_eq_some_iff.mp afterBoot
  obtain ⟨queue, idle, new⟩ := of_decide_eq_true values
  have reached : Dispatch.Reachable (Dispatch.booted Unit k) s := Transition.reachable_of_run ran
  obtain ⟨l, result, reads, run, iff⟩ :=
    killprocess_hits_named smallPmm _ _ _ k initialized s reached [] [50#8] []
  obtain rfl := reads.unique queue
  refine ⟨k, s, initialized, reached, _, result, reads, run, iff.mpr (Or.inr ?_)⟩
  have two : leadingNumber [50#8] = 2 := by decide
  refine ⟨by decide, by decide, by decide, 1, by simp [two, idle, new], ?_⟩
  intro j listed same
  rcases List.mem_cons.mp listed with first | second
  · rw [first, idle, two] at same
    exact absurd same (by decide)
  · exact Slot.pcb.inj (List.mem_singleton.mp second)

-- Every thread has PID 0, which is also what `abc` is read as.
theorem killprocess_hits_thread :
    ¬∀ (pmm : Pmm) (esp idleTask : U32) (memory : U32 → U32) (k : Kernel Slot),
      (Kernel.bss pmm esp memory).schedulerInit idleTask = some k →
      ∀ s : Dispatch.State Unit, Dispatch.Reachable (Dispatch.booted Unit k) s →
      ∀ (command argument : List U8) (rest : List (List U8)),
        ∃ l result, PointerList.Reads s.kernel.links s.kernel.runQueue l ∧
          s.kernel.cmdKillprocess (command :: argument :: rest) = some result ∧
          HitsNamed s.kernel l argument result := by
  intro always
  have evaluated : (smallBoot.bind fun k => (List.foldlM Dispatch.step (Dispatch.booted Unit k)
      [⟨.call (.createThread none 0x100300#32), 0x10FF00#32⟩]).map fun s =>
        (s.kernel.cmdKillprocess [[], [97#8, 98#8, 99#8]]).map Prod.fst) =
          some (some (some (.tcb 0))) := by
    decide +kernel
  obtain ⟨k, initialized, afterBoot⟩ := Option.bind_eq_some_iff.mp evaluated
  obtain ⟨s, ran, killed⟩ := Option.map_eq_some_iff.mp afterBoot
  obtain ⟨l, result, -, run, hits⟩ := always smallPmm _ _ _ k initialized s
    (Transition.reachable_of_run ran) [] [97#8, 98#8, 99#8] []
  have untouched := hits.nobody fun p named => absurd (named.digits 97#8 (by simp)) (by decide)
  rw [run, untouched] at killed
  cases killed

end Killprocess

end SoraOS
