import SoraOS.Scheduler.Refinement

set_option autoImplicit false

namespace SoraOS

namespace Kernel

variable {B : Type} [DecidableEq B] [Fintype B]

-- The loop of `schedule()` with the entries whose state it tests, in order.
def searchTrace (k : Kernel B) (current : B) : Option (List B × Option B) :=
  let start := (k.links current).or k.runQueue
  PointerList.traceRing k.links k.runQueue (fun p => k.state p = .ready) start (loopFuel B) start

theorem searchTrace_result (k : Kernel B) (current : B) :
    (k.searchTrace current).map Prod.snd = k.findReady current :=
  PointerList.traceRing_result ..

structure Searches (k : Kernel B) (l : List B) (current : B) (tested : List B)
    (result : Option B) : Prop where
  trace : k.searchTrace current = some (tested, result)
  finds : k.findReady current = some result
  once : tested.Nodup
  listed : ∀ b ∈ tested, b ∈ l
  stops : ∀ b, result = some b → tested.getLast? = some b ∧ k.state b = .ready
  misses : result.isSome = true ↔ ∃ b ∈ l, k.state b = .ready

theorem searches {k : Kernel B} {l : List B} (current : B) (queue : k.Queue l)
    (unlinked : current ∉ l → k.links current = none) :
    ∃ tested result, k.Searches l current tested result := by
  have found := findReady_eq current queue unlinked
  obtain ⟨⟨tested, result⟩, trace, same⟩ :=
    Option.map_eq_some_iff.mp ((k.searchTrace_result current).trans found)
  change result = _ at same
  have finds : k.findReady current = some result := by rw [found, ← same]
  have front : tested <+: successors l current ∧ ∀ b, result = some b → tested.getLast? = some b := by
    rw [searchTrace] at trace
    rcases search_start current queue unlinked with ⟨rfl, start⟩ |
      ⟨x, front, back, rfl, start, order⟩
    · rw [start] at trace
      cases trace
      exact ⟨List.nil_prefix, fun b found => nomatch found⟩
    · rw [start] at trace
      rw [order]
      exact PointerList.traceRing_front (PointerList.Reads.ring queue).1 trace
  refine ⟨tested, result, trace, finds, ?_, ?_, ?_, ?_⟩
  · have distinct := (successors_perm l current).nodup_iff.mpr queue.nodup
    exact distinct.sublist front.1.sublist
  · exact fun b member => mem_successors.mp (front.1.subset member)
  · intro b stopped
    refine ⟨front.2 b stopped, ?_⟩
    have ready := List.find?_some (same.symm.trans stopped)
    simpa using ready
  · rw [same, List.find?_isSome]
    simp [mem_successors]

end Kernel

namespace Refinement

/-- In every state that calls lead to from `scheduler_init`, the search of `schedule()` ends. -/
theorem search_ends (pmm : Pmm) (esp idleTask : U32) (memory : U32 → U32) (k : Kernel Slot)
    (booted : (Kernel.bss pmm esp memory).schedulerInit idleTask = some k) (calls : List Call) :
    ∃ k' l, run (k, k.idlePcb.toList) calls = some (k', l) ∧
      PointerList.Reads k'.links k'.runQueue l ∧
      ∃ current tested result, k'.currentPcb = some current ∧
        k'.Searches l current tested result := by
  obtain ⟨i, next, head, -, shape, consistent⟩ := Kernel.schedulerInit_spec booted
  have idling : k.idlePcb = some (.pcb i) := by
    rw [shape]
    rfl
  obtain ⟨k', l, ran, final⟩ := consistent_run consistent calls
  rw [idling]
  obtain ⟨current, running⟩ := final.current
  obtain ⟨tested, result, searched⟩ :=
    Kernel.searches current final.queue (final.unlinked current)
  exact ⟨k', l, ran, final.queue, current, tested, result, running, searched⟩

theorem search_ends_smallBoot :
    ∃ k, smallBoot = some k ∧
      ∃ k' l, run (k, k.idlePcb.toList)
          [⟨.killprocess [[], [49#8]], 0x10FF00#32⟩, ⟨.newprocess 0x100200#32, 0x10FF00#32⟩] =
            some (k', l) ∧
        PointerList.Reads k'.links k'.runQueue l ∧
        ∃ current tested result, k'.currentPcb = some current ∧
          k'.Searches l current tested result := by
  obtain ⟨k, booted⟩ := Option.isSome_iff_exists.mp smallBoot_isSome
  exact ⟨k, booted, search_ends _ _ _ _ k booted _⟩

end Refinement

end SoraOS
