import Mathlib.Logic.Relation
import SoraOS.Memory.PmmInit

set_option autoImplicit false

namespace SoraOS.Ownership

/-- The allocator together with the addresses its clients currently hold. -/
structure Clients where
  pmm : Pmm
  held : Finset U32

inductive Step : Clients → Clients → Prop
  | alloc (c : Clients) :
      Step c
        { pmm := c.pmm.pmmAllocPage.2
          held := if c.pmm.pmmAllocPage.1 = 0#32 then c.held else insert c.pmm.pmmAllocPage.1 c.held }
  | free (c : Clients) (addr : U32) (owned : addr ∈ c.held) :
      Step c { pmm := c.pmm.pmmFreePage addr, held := c.held.erase addr }

def Reachable (init : Pmm) (c : Clients) : Prop :=
  Relation.ReflTransGen Step { pmm := init, held := ∅ } c

structure AllocSafe (kernelEnd : U32) (init : Pmm) (c : Clients) : Prop where
  aligned : c.pmm.pmmAllocPage.1 ≠ 0#32 → c.pmm.pmmAllocPage.1.toNat % pageSize = 0
  below : c.pmm.pmmAllocPage.1 ≠ 0#32 →
    c.pmm.pmmAllocPage.1.toNat < c.pmm.totalPages * pageSize
  unheld : c.pmm.pmmAllocPage.1 ≠ 0#32 → c.pmm.pmmAllocPage.1 ∉ c.held
  initiallyFree : c.pmm.pmmAllocPage.1 ≠ 0#32 →
    c.pmm.pmmAllocPage.1.toNat / pageSize ∈ init.freeSet
  outsideKernel : c.pmm.pmmAllocPage.1 ≠ 0#32 → kernelEnd.toNat ≤ c.pmm.pmmAllocPage.1.toNat
  nullTakesNothing : c.pmm.pmmAllocPage.1 = 0#32 → c.pmm.pmmAllocPage.2 = c.pmm

structure Disjoint (init : Pmm) (c : Clients) : Prop where
  wf : c.pmm.Wf
  total : c.pmm.totalPages = init.totalPages
  free : c.pmm.freeSet ⊆ init.freeSet
  heldAligned : ∀ addr ∈ c.held, addr.toNat % pageSize = 0
  heldFree : ∀ addr ∈ c.held, addr.toNat / pageSize ∈ init.freeSet
  heldTaken : ∀ addr ∈ c.held, addr.toNat / pageSize ∉ c.pmm.freeSet

theorem disjoint_init {init : Pmm} (wf : init.Wf) : Disjoint init { pmm := init, held := ∅ } :=
  ⟨wf, rfl, subset_rfl, by simp, by simp, by simp⟩

theorem Disjoint.take {init : Pmm} {c : Clients} (inv : Disjoint init c) {page : Nat}
    (free : page ∈ c.pmm.freeSet) :
    Disjoint init
      { pmm := c.pmm.take page, held := insert (BitVec.ofNat 32 (page * pageSize)) c.held } := by
  have small : page ≤ pmmMaxPages := by
    have below := (Pmm.mem_freeSet c.pmm page).mp free
    have bounded := inv.wf.bounded
    omega
  have value := Pmm.toNat_pageAddress page small
  have index : (BitVec.ofNat 32 (page * pageSize)).toNat / pageSize = page := by
    rw [value, Nat.mul_div_cancel _ (by decide : 0 < pageSize)]
  refine ⟨inv.wf.take free, inv.total, ?_, ?_, ?_, ?_⟩
  · rw [Pmm.freeSet_take]
    exact (Finset.erase_subset _ _).trans inv.free
  · intro addr member
    rcases Finset.mem_insert.mp member with rfl | older
    · rw [value]
      exact Nat.mul_mod_left _ _
    · exact inv.heldAligned addr older
  · intro addr member
    rcases Finset.mem_insert.mp member with rfl | older
    · rw [index]
      exact inv.free free
    · exact inv.heldFree addr older
  · intro addr member
    rw [Pmm.freeSet_take]
    rcases Finset.mem_insert.mp member with rfl | older
    · rw [index]
      exact Finset.notMem_erase page _
    · exact fun again => inv.heldTaken addr older (Finset.mem_of_mem_erase again)

theorem Disjoint.give {init : Pmm} {c : Clients} (inv : Disjoint init c) {addr : U32}
    (owned : addr ∈ c.held) :
    Disjoint init { pmm := c.pmm.pmmFreePage addr, held := c.held.erase addr } := by
  have wf := inv.wf.pmmFreePage addr
  obtain ignored | ⟨page, inside, value, used, result⟩ := c.pmm.pmmFreePage_cases addr
  · rw [ignored]
    exact ⟨inv.wf, inv.total, inv.free,
      fun a member => inv.heldAligned a (Finset.mem_of_mem_erase member),
      fun a member => inv.heldFree a (Finset.mem_of_mem_erase member),
      fun a member => inv.heldTaken a (Finset.mem_of_mem_erase member)⟩
  · have index : addr.toNat / pageSize = page := by
      rw [value, Nat.mul_div_cancel _ (by decide : 0 < pageSize)]
    rw [result] at wf ⊢
    refine ⟨wf, inv.total, ?_, fun a member => inv.heldAligned a (Finset.mem_of_mem_erase member),
      fun a member => inv.heldFree a (Finset.mem_of_mem_erase member), ?_⟩
    · rw [Pmm.freeSet_give _ _ inside]
      exact Finset.insert_subset (index ▸ inv.heldFree addr owned) inv.free
    · intro other member
      obtain ⟨different, older⟩ := Finset.mem_erase.mp member
      rw [Pmm.freeSet_give _ _ inside, Finset.mem_insert, not_or]
      refine ⟨?_, inv.heldTaken other older⟩
      -- Two aligned addresses of one page would be equal.
      intro samePage
      apply different
      apply BitVec.eq_of_toNat_eq
      have aligned := inv.heldAligned other older
      simp only [pageSize] at aligned samePage value
      omega

theorem Disjoint.step {init : Pmm} (page0 : 0 ∉ init.freeSet) {c d : Clients}
    (inv : Disjoint init c) (step : Step c d) : Disjoint init d := by
  cases step with
  | alloc =>
      obtain ⟨_, result⟩ | ⟨page, free, _, _, result⟩ := c.pmm.pmmAllocPage_cases
      · simpa [result] using inv
      · have small : page ≤ pmmMaxPages := by
          have below := (Pmm.mem_freeSet c.pmm page).mp free
          have bounded := inv.wf.bounded
          omega
        have nonzero : BitVec.ofNat 32 (page * pageSize) ≠ 0#32 := by
          intro null
          have value := Pmm.toNat_pageAddress page small
          rw [null] at value
          have zero : page = 0 := by simpa [pageSize] using value.symm
          exact page0 (zero ▸ inv.free free)
        simpa only [result, nonzero, if_false] using inv.take free
  | free addr owned => exact inv.give owned

theorem disjoint_of_reachable {init : Pmm} (wf : init.Wf) (page0 : 0 ∉ init.freeSet) {c : Clients}
    (reachable : Reachable init c) : Disjoint init c := by
  induction reachable with
  | refl => exact disjoint_init wf
  | tail _ step ih => exact ih.step page0 step

theorem kernelEnd_le_of_free {ram : Ram} {mb : MultibootInfo} {kernelEnd : U32} {fuel : Nat}
    {init : Pmm} (ended : Pmm.pmmInit ram mb kernelEnd fuel = some init)
    (high : kernelEnd.toNat ≤ 0xFFFFF000) {page : Nat} (free : page ∈ init.freeSet) :
    kernelEnd.toNat ≤ page * pageSize := by
  -- Below the last page of the address space, `kernel_pages` rounds `kernel_end` up.
  obtain ⟨_, _, reserved⟩ := Pmm.pmmInit_spec ended
  obtain ⟨inside, unused⟩ := (Pmm.mem_freeSet init page).mp free
  have outside : ¬ page < Pmm.kernelPages kernelEnd := by
    intro kernel
    simp [reserved page inside kernel] at unused
  have rounded : Pmm.kernelPages kernelEnd = (kernelEnd.toNat + 4095) / 4096 := by
    simp only [Pmm.kernelPages, BitVec.toNat_udiv, BitVec.toNat_sub, BitVec.toNat_add,
      BitVec.toNat_ofNat, Nat.reducePow, Nat.reduceMod]
    omega
  rw [rounded] at outside
  simp only [pageSize]
  omega

theorem allocSafe_of_reachable (ram : Ram) (mb : MultibootInfo) (kernelEnd : U32) (fuel : Nat)
    (init : Pmm) (ended : Pmm.pmmInit ram mb kernelEnd fuel = some init)
    (low : 0x100000 ≤ kernelEnd.toNat) (high : kernelEnd.toNat ≤ 0xFFFFF000)
    (c : Clients) (reachable : Reachable init c) : AllocSafe kernelEnd init c := by
  have wf := (Pmm.pmmInit_spec ended).1
  have page0 : 0 ∉ init.freeSet := by
    intro free
    have above := kernelEnd_le_of_free ended high free
    omega
  have inv := disjoint_of_reachable wf page0 reachable
  obtain ⟨_, result⟩ | ⟨page, free, _, _, result⟩ := c.pmm.pmmAllocPage_cases
  · have null : c.pmm.pmmAllocPage.1 = 0#32 := by rw [result]
    exact ⟨fun h => absurd null h, fun h => absurd null h, fun h => absurd null h,
      fun h => absurd null h, fun h => absurd null h, fun _ => by rw [result]⟩
  · have wasFree := inv.free free
    have above := kernelEnd_le_of_free ended high wasFree
    have below := (Pmm.mem_freeSet c.pmm page).mp free
    have value := Pmm.toNat_pageAddress page (by have := inv.wf.bounded; omega)
    have index : page * pageSize / pageSize = page := Nat.mul_div_cancel _ (by decide)
    constructor
    · intro _
      rw [result, value]
      exact Nat.mul_mod_left _ _
    · intro _
      rw [result, value]
      exact (Nat.mul_lt_mul_right (by decide : 0 < pageSize)).mpr below.1
    · intro _ again
      rw [result] at again
      have taken := inv.heldTaken _ again
      rw [value, index] at taken
      exact taken free
    · intro _
      rw [result, value, index]
      exact wasFree
    · intro _
      rw [result, value]
      exact above
    · intro null
      rw [result] at null
      rw [show BitVec.ofNat 32 (page * pageSize) = 0#32 from null] at value
      simp only [BitVec.toNat_ofNat] at value
      omega

/-- One AVAILABLE entry at 0x9000: base 1 MB, 0x7EE0000 bytes, as on a 128 MB machine. -/
def upperMemoryRam : Ram := fun addr =>
  if addr = 0x9000#32 then 20#8
  else if addr = 0x9006#32 then 0x10#8
  else if addr = 0x900E#32 then 0xEE#8
  else if addr = 0x900F#32 then 0x07#8
  else if addr = 0x9014#32 then 1#8
  else 0#8

def upperMemoryInfo : MultibootInfo where
  flags := 0x41#32
  memUpper := 0x1FB80#32
  mmapLength := 24#32
  mmapAddr := 0x9000#32

theorem allocSafe_upperMemory :
    ∃ init, Pmm.pmmInit upperMemoryRam upperMemoryInfo 0x110000#32 2 = some init ∧
      AllocSafe 0x110000#32 init { pmm := init, held := ∅ } := by
  obtain ⟨init, ended⟩ := Option.isSome_iff_exists.mp
    (by decide : (Pmm.pmmInit upperMemoryRam upperMemoryInfo 0x110000#32 2).isSome = true)
  exact ⟨init, ended, allocSafe_of_reachable _ _ _ _ init ended (by decide) (by decide) _ .refl⟩

/-- One AVAILABLE entry at 0x9000: base 0, 0x20000 bytes. -/
def lowMemoryRam : Ram := fun addr =>
  if addr = 0x9000#32 then 20#8
  else if addr = 0x900E#32 then 0x02#8
  else if addr = 0x9014#32 then 1#8
  else 0#8

def lowMemoryInfo : MultibootInfo where
  flags := 0x41#32
  memUpper := 0x3FFC00#32
  mmapLength := 24#32
  mmapAddr := 0x9000#32

/--
With `kernel_end` in the last page of the address space `kernel_pages` wraps to
zero, page 0 stays free, and the first allocation takes it and returns `NULL`.
-/
theorem not_allocSafe_kernelEnd_wraps :
    ∃ init, Pmm.pmmInit lowMemoryRam lowMemoryInfo 0xFFFFF001#32 2 = some init ∧
      0x100000 ≤ (0xFFFFF001#32 : U32).toNat ∧
      ¬ AllocSafe 0xFFFFF001#32 init { pmm := init, held := ∅ } := by
  have evaluated : (Pmm.pmmInit lowMemoryRam lowMemoryInfo 0xFFFFF001#32 2).map
      (fun s => (s.pmmAllocPage.1, s.bitmapTest 0, s.pmmAllocPage.2.bitmapTest 0)) =
        some (0#32, false, true) := by
    decide +kernel
  obtain ⟨init, ended, values⟩ := Option.map_eq_some_iff.mp evaluated
  simp only [Prod.mk.injEq] at values
  refine ⟨init, ended, by decide, ?_⟩
  intro safe
  have unchanged := safe.nullTakesNothing values.1
  rw [unchanged, values.2.1] at values
  simp at values

end SoraOS.Ownership
