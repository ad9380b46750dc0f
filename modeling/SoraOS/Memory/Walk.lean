import SoraOS.Memory.MemoryMap
import SoraOS.Memory.Ownership
import SoraOS.Shared.Loop

set_option autoImplicit false

namespace SoraOS.MemoryMap

/-- `entry = (uintptr_t)entry + entry->size + sizeof(entry->size)` -/
def advance (ram : Ram) (entry : U32) : U32 := entry + (multibootMmapEntry ram entry).size + 4#32

def entryAddress (ram : Ram) (mb : MultibootInfo) (n : Nat) : U32 := (advance ram)^[n] mb.mmapAddr

def Reads (ram : Ram) (mb : MultibootInfo) (n : Nat) : Prop :=
  Loop.Makes (fun entry => entry < mb.mmapAddr + mb.mmapLength) (advance ram) mb.mmapAddr n

def Inside (mb : MultibootInfo) (entry : U32) : Prop :=
  mb.mmapAddr.toNat ≤ entry.toNat ∧
    entry.toNat + 24 ≤ mb.mmapAddr.toNat + mb.mmapLength.toNat

theorem mmapEntries_isSome (ram : Ram) (finish : U32) (fuel : Nat) (entry : U32) :
    (Pmm.mmapEntries ram finish fuel entry).isSome ↔
      ∃ n < fuel, ¬ (advance ram)^[n] entry < finish := by
  induction fuel generalizing entry with
  | zero => simp [Pmm.mmapEntries]
  | succ fuel ih =>
      rw [Pmm.mmapEntries]
      by_cases within : entry < finish
      next =>
        rw [if_pos within, Option.isSome_map]
        change (Pmm.mmapEntries ram finish fuel (advance ram entry)).isSome ↔ _
        rw [ih]
        constructor
        next =>
          rintro ⟨n, less, stops⟩
          exact ⟨n + 1, Nat.succ_lt_succ less, stops⟩
        next =>
          rintro ⟨n, less, stops⟩
          cases n with
          | zero => exact absurd within stops
          | succ n => exact ⟨n, Nat.lt_of_succ_lt_succ less, stops⟩
      next =>
        rw [if_neg within]
        exact ⟨fun _ => ⟨0, Nat.succ_pos fuel, within⟩, fun _ => rfl⟩

theorem pmmInit_isSome {ram : Ram} {mb : MultibootInfo}
    (mmap : mb.flags &&& multibootFlagMmap ≠ 0#32) (kernelEnd : U32) (fuel : Nat) :
    (Pmm.pmmInit ram mb kernelEnd fuel).isSome ↔
      ∃ n < fuel, ¬ entryAddress ram mb n < mb.mmapAddr + mb.mmapLength := by
  simp only [Pmm.pmmInit, mmap, ne_eq, not_false_eq_true, if_true, Option.isSome_map,
    Pmm.walkMmap_eq_foldl]
  exact mmapEntries_isSome ram _ fuel mb.mmapAddr

theorem mmapEntries_reads {ram : Ram} {finish : U32} {fuel : Nat} {entry : U32}
    {entries : List MultibootMmapEntry}
    (walked : Pmm.mmapEntries ram finish fuel entry = some entries) (n : Nat) :
    entries[n]? = some (multibootMmapEntry ram ((advance ram)^[n] entry)) ↔
      Loop.Makes (fun entry => entry < finish) (advance ram) entry n := by
  induction fuel generalizing entry entries n with
  | zero => cases walked
  | succ fuel ih =>
      rw [Pmm.mmapEntries] at walked
      by_cases within : entry < finish
      next =>
        rw [if_pos within] at walked
        obtain ⟨rest, later, rfl⟩ := Option.map_eq_some_iff.mp walked
        cases n with
        | zero =>
            simp only [List.getElem?_cons_zero, Function.iterate_zero, id, true_iff]
            intro i before
            obtain rfl := Nat.le_zero.mp before
            exact within
        | succ n =>
            rw [List.getElem?_cons_succ, Loop.makes_succ, Function.iterate_succ_apply]
            exact (ih later n).trans ⟨fun made => ⟨within, made⟩, And.right⟩
      next =>
        rw [if_neg within] at walked
        obtain rfl := Option.some.inj walked
        simp only [List.getElem?_nil, reduceCtorEq, false_iff]
        exact fun made => within (made 0 (Nat.zero_le n))

def NoWrap (ram : Ram) (mb : MultibootInfo) : Prop :=
  ∀ n, Reads ram mb n →
    (entryAddress ram mb n).toNat + (multibootMmapEntry ram (entryAddress ram mb n)).size.toNat + 4 <
      2 ^ 32

theorem Reads.climbs {ram : Ram} {mb : MultibootInfo} {n : Nat} (reads : Reads ram mb n)
    (noWrap : NoWrap ram mb) : mb.mmapAddr.toNat + 4 * n ≤ (entryAddress ram mb n).toNat := by
  apply Loop.Makes.climbs reads
  intro i before
  have here := noWrap i fun j less => reads j (by omega)
  rw [Function.iterate_succ_apply']
  change (entryAddress ram mb i).toNat + 4 ≤ (advance ram (entryAddress ram mb i)).toNat
  simp only [advance, BitVec.toNat_add, BitVec.toNat_ofNat]
  omega

theorem Reads.starts_inside {ram : Ram} {mb : MultibootInfo} {n : Nat} (reads : Reads ram mb n)
    (noWrap : NoWrap ram mb) :
    mb.mmapAddr.toNat + 4 * n ≤ (entryAddress ram mb n).toNat ∧
      (entryAddress ram mb n).toNat < mb.mmapAddr.toNat + mb.mmapLength.toNat := by
  -- The map does not wrap either, or its first entry would not come before its end.
  have first := reads 0 (Nat.zero_le n)
  have here := reads n le_rfl
  change entryAddress ram mb n < _ at here
  simp only [Function.iterate_zero, id] at first
  rw [BitVec.lt_def, BitVec.toNat_add] at first here
  exact ⟨reads.climbs noWrap, by omega⟩

theorem walk_ends_of_noWrap {ram : Ram} {mb : MultibootInfo}
    (mmap : mb.flags &&& multibootFlagMmap ≠ 0#32) (noWrap : NoWrap ram mb) (kernelEnd : U32) :
    (Pmm.pmmInit ram mb kernelEnd (mb.mmapLength.toNat / 4 + 2)).isSome := by
  rw [pmmInit_isSome mmap]
  apply Classical.byContradiction
  intro endless
  have reads : Reads ram mb (mb.mmapLength.toNat / 4 + 1) := by
    intro i before
    apply Classical.byContradiction
    exact fun stops => endless ⟨i, by omega, stops⟩
  have inside := reads.starts_inside noWrap
  omega

/--
The walk of the memory map ends exactly when it does not come back to an entry; so it does where no
size field takes the pointer past the end of the address space. Then all its entries start in the
map, and one lies wholly in it exactly when it starts 24 bytes before the end or earlier.
-/
theorem walk_ends_iff (ram : Ram) (mb : MultibootInfo)
    (mmap : mb.flags &&& multibootFlagMmap ≠ 0#32) (kernelEnd : U32) :
    ((∃ fuel s, Pmm.pmmInit ram mb kernelEnd fuel = some s) ↔
      ∀ m n, m < n → Reads ram mb n → entryAddress ram mb m ≠ entryAddress ram mb n) ∧
    (NoWrap ram mb →
      (∃ s, Pmm.pmmInit ram mb kernelEnd (mb.mmapLength.toNat / 4 + 2) = some s) ∧
      ∀ n, Reads ram mb n →
        mb.mmapAddr.toNat ≤ (entryAddress ram mb n).toNat ∧
        (entryAddress ram mb n).toNat < mb.mmapAddr.toNat + mb.mmapLength.toNat ∧
        (Inside mb (entryAddress ram mb n) ↔
          (entryAddress ram mb n).toNat + 24 ≤ mb.mmapAddr.toNat + mb.mmapLength.toNat)) := by
  refine ⟨?_, fun noWrap => ⟨?_, fun n reads => ?_⟩⟩
  · have finite : Finite U32 := .of_injective BitVec.toFin fun _ _ => BitVec.eq_of_toFin_eq
    have ends : (∃ fuel s, Pmm.pmmInit ram mb kernelEnd fuel = some s) ↔
        Loop.Ends (fun entry => entry < mb.mmapAddr + mb.mmapLength) (advance ram) mb.mmapAddr := by
      simp only [← Option.isSome_iff_exists, pmmInit_isSome mmap]
      exact ⟨fun ⟨_, n, _, stops⟩ => ⟨n, stops⟩, fun ⟨n, stops⟩ => ⟨n + 1, n, n.lt_succ_self, stops⟩⟩
    rw [ends]
    exact Loop.ends_iff_no_repeat
  · exact Option.isSome_iff_exists.mp (walk_ends_of_noWrap mmap noWrap kernelEnd)
  · have inside := reads.starts_inside noWrap
    have starts : mb.mmapAddr.toNat ≤ (entryAddress ram mb n).toNat := by omega
    exact ⟨starts, inside.2, and_iff_right starts⟩

/-- At 0x9000: an entry whose size field is -4. -/
def standingRam : Ram := fun addr =>
  if addr = 0x9000#32 then 0xFC#8
  else if addr = 0x9001#32 ∨ addr = 0x9002#32 ∨ addr = 0x9003#32 then 0xFF#8
  else 0#8

/-- A map of four bytes: the size field of its only entry. -/
def cutInfo : MultibootInfo := { Ownership.upperMemoryInfo with mmapLength := 4#32 }

/-- A size of -4 makes the walk stand still, and a map may end within the entry that it reads. -/
theorem not_robust_standing :
    ¬ (∀ ram mb kernelEnd, mb.flags &&& multibootFlagMmap ≠ 0#32 →
      ∃ fuel s, Pmm.pmmInit ram mb kernelEnd fuel = some s) ∧
    ¬ (∀ ram mb, mb.flags &&& multibootFlagMmap ≠ 0#32 →
      ∀ n, Reads ram mb n → Inside mb (entryAddress ram mb n)) := by
  constructor
  next =>
    intro all
    have mmap : Ownership.upperMemoryInfo.flags &&& multibootFlagMmap ≠ 0#32 := by decide
    obtain ⟨fuel, ended⟩ := all standingRam Ownership.upperMemoryInfo 0x110000#32 mmap
    obtain ⟨n, _, stops⟩ := (pmmInit_isSome mmap 0x110000#32 fuel).mp
      (Option.isSome_iff_exists.mpr ended)
    have stands : advance standingRam 0x9000#32 = 0x9000#32 := by decide +kernel
    have here : entryAddress standingRam Ownership.upperMemoryInfo n = 0x9000#32 :=
      Function.iterate_fixed stands n
    rw [here] at stops
    exact stops (by decide)
  next =>
    intro all
    have reads : Reads Ownership.upperMemoryRam cutInfo 0 := by
      intro i before
      obtain rfl := Nat.le_zero.mp before
      decide
    have inside := all Ownership.upperMemoryRam cutInfo (by decide) 0 reads
    exact absurd inside.2 (by decide)

theorem walk_ends_upperMemory :
    ∃ s, Pmm.pmmInit Ownership.upperMemoryRam Ownership.upperMemoryInfo 0x110000#32 8 = some s := by
  have second : entryAddress Ownership.upperMemoryRam Ownership.upperMemoryInfo 1 = 0x9018#32 := by
    decide +kernel
  have noWrap : NoWrap Ownership.upperMemoryRam Ownership.upperMemoryInfo := by
    intro n reads
    cases n with
    | zero => decide +kernel
    | succ n =>
        have beyond : entryAddress Ownership.upperMemoryRam Ownership.upperMemoryInfo 1 < 0x9018#32 :=
          reads 1 (Nat.succ_le_succ (Nat.zero_le n))
        rw [second] at beyond
        exact absurd beyond (by decide)
  exact ((walk_ends_iff _ _ (by decide) 0x110000#32).2 noWrap).1

end SoraOS.MemoryMap
