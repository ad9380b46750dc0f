import Mathlib.Data.Finset.Max
import SoraOS.Memory.Ownership

set_option autoImplicit false

namespace SoraOS

namespace Pmm

inductive Request where
  | allocPage
  | freePage (addr : U32)

def serve (s : Pmm) : Request → Pmm
  | .allocPage => s.pmmAllocPage.2
  | .freePage addr => s.pmmFreePage addr

def serveAll (s : Pmm) (requests : List Request) : Pmm := requests.foldl serve s

theorem serve_totalPages (s : Pmm) (r : Request) : (s.serve r).totalPages = s.totalPages := by
  cases r with
  | allocPage =>
      obtain ⟨_, result⟩ | ⟨page, _, _, _, result⟩ := s.pmmAllocPage_cases <;> simp [serve, result]
  | freePage addr =>
      obtain result | ⟨page, _, _, _, result⟩ := s.pmmFreePage_cases addr <;> simp [serve, result]

theorem Wf.serve {s : Pmm} (wf : s.Wf) (r : Request) : (s.serve r).Wf := by
  cases r with
  | allocPage => exact wf.pmmAllocPage
  | freePage addr => exact wf.pmmFreePage addr

theorem Wf.serveAll {s : Pmm} (wf : s.Wf) (requests : List Request) :
    (s.serveAll requests).Wf ∧ (s.serveAll requests).totalPages = s.totalPages := by
  induction requests generalizing s with
  | nil => exact ⟨wf, rfl⟩
  | cons r rest ih =>
      obtain ⟨kept, total⟩ := ih (wf.serve r)
      exact ⟨kept, total.trans (serve_totalPages s r)⟩

theorem Wf.counter_zero {s : Pmm} (wf : s.Wf) : s.pmmGetFreePageCount = 0#32 ↔ s.freeSet = ∅ := by
  rw [← Finset.card_eq_zero, ← wf.counted, pmmGetFreePageCount]
  constructor
  next =>
    intro zero
    rw [zero]
    rfl
  next => exact fun zero => BitVec.eq_of_toNat_eq zero

structure AllocFinds (s : Pmm) : Prop where
  null : s.pmmAllocPage.1 = 0#32 ↔ s.pmmGetFreePageCount = 0#32
  lowest : s.pmmGetFreePageCount ≠ 0#32 →
    ∃ page ∈ s.freeSet, (∀ q ∈ s.freeSet, page ≤ q) ∧
      s.pmmAllocPage.1.toNat = page * pageSize ∧
      (∀ q, s.pmmAllocPage.2.bitmapTest q = (decide (q = page) || s.bitmapTest q)) ∧
      s.pmmAllocPage.2.totalPages = s.totalPages ∧
      s.pmmAllocPage.2.freePages.toNat + 1 = s.freePages.toNat

/-- Nothing is free, or the lowest free page lies in a whole word of the bitmap and is not page 0. -/
def Searched (s : Pmm) : Prop :=
  s.freeSet = ∅ ∨
    ∃ page ∈ s.freeSet, (∀ q ∈ s.freeSet, page ≤ q) ∧ page ≠ 0 ∧ page < s.totalPages / 32 * 32

theorem Wf.allocFinds_of_searched {s : Pmm} (wf : s.Wf) (searched : s.Searched) : s.AllocFinds := by
  rcases searched with nothing | ⟨page, free, least, notFirst, inWord⟩
  next =>
    have empty := wf.counter_zero.mpr nothing
    refine ⟨⟨fun _ => empty, fun _ => ?_⟩, fun some => absurd empty some⟩
    obtain ⟨_, result⟩ | ⟨page, free, _⟩ := s.pmmAllocPage_cases
    · rw [result]
    · rw [nothing] at free
      exact absurd free (Finset.notMem_empty page)
  next =>
    have some : s.pmmGetFreePageCount ≠ 0#32 := by
      rw [ne_eq, wf.counter_zero]
      exact Finset.ne_empty_of_mem free
    have clear := ((mem_freeSet s page).mp free).2
    obtain ⟨full, _⟩ | ⟨found, foundFree, _, below, result⟩ := s.pmmAllocPage_cases
    · rw [full page inWord] at clear
      cases clear
    · -- Nothing below the page found is clear, so it is the lowest free one.
      have same : found = page := by
        apply le_antisymm _ (least found foundFree)
        apply Classical.byContradiction
        intro above
        rw [below page (Nat.lt_of_not_le above)] at clear
        cases clear
      subst same
      have address := toNat_pageAddress found (wf.page_small free)
      refine ⟨⟨fun null => ?_, fun empty => absurd empty some⟩, fun _ => ?_⟩
      · rw [result] at null
        rw [show BitVec.ofNat 32 (found * pageSize) = 0#32 from null] at address
        have zero : found = 0 := by simpa [pageSize] using address.symm
        exact absurd zero notFirst
      · rw [result]
        exact ⟨found, free, least, address, bitmapTest_take s found, rfl, wf.take_counter free⟩

theorem Wf.searched_of_allocFinds {s : Pmm} (wf : s.Wf) (finds : s.AllocFinds) : s.Searched := by
  by_cases nothing : s.freeSet = ∅
  next => exact .inl nothing
  next =>
    have some : s.pmmGetFreePageCount ≠ 0#32 := mt wf.counter_zero.mp nothing
    have nonNull := mt finds.null.mp some
    obtain ⟨page, free, least, address, _⟩ := finds.lowest some
    refine .inr ⟨page, free, least, ?_, ?_⟩
    · rintro rfl
      exact nonNull (BitVec.eq_of_toNat_eq (by simpa using address))
    · obtain ⟨_, result⟩ | ⟨found, foundFree, inWord, _, _⟩ := s.pmmAllocPage_cases
      · exact absurd (congrArg Prod.fst result) nonNull
      · exact (least found foundFree).trans_lt inWord

theorem searched_of_whole_words {s : Pmm} (whole : s.totalPages % 32 = 0) (page0 : 0 ∉ s.freeSet) :
    s.Searched := by
  -- With whole words only, and page 0 in use, the search misses nothing.
  rcases s.freeSet.eq_empty_or_nonempty with nothing | free
  next => exact .inl nothing
  next =>
    have least := s.freeSet.min'_mem free
    refine .inr ⟨_, least, fun q => s.freeSet.min'_le q, ?_, ?_⟩
    · exact fun zero => page0 (zero ▸ least)
    · have below := ((mem_freeSet s _).mp least).1
      omega

/--
After `pmm_init` and any requests, `pmm_alloc_page` finds the lowest free page whenever there is one,
exactly when that page is not page 0 and not one of the last `pmm_total_pages % 32` pages.
-/
theorem allocFinds_iff_searched (ram : Ram) (mb : MultibootInfo) (kernelEnd : U32) (fuel : Nat)
    (init : Pmm) (started : pmmInit ram mb kernelEnd fuel = some init) (requests : List Request) :
    (init.serveAll requests).AllocFinds ↔ (init.serveAll requests).Searched := by
  have wf := ((pmmInit_spec started).1.serveAll requests).1
  exact ⟨wf.searched_of_allocFinds, wf.allocFinds_of_searched⟩

/-- 276 pages: `pmm_alloc_page` searches the first 256, and all of these are in use. -/
def oddMemoryInfo : MultibootInfo := { Ownership.upperMemoryInfo with memUpper := 0x50#32 }

def evenMemoryInfo : MultibootInfo := { Ownership.upperMemoryInfo with memUpper := 0x400#32 }

/-- Only the pages 272 to 275 are free, and none of them is found; page 0, once freed, is `NULL`. -/
theorem not_allocFinds_oddMemory :
    ¬ (∀ ram mb kernelEnd fuel init, pmmInit ram mb kernelEnd fuel = some init →
      ∀ requests, (init.serveAll requests).AllocFinds) ∧
    ∃ init, pmmInit Ownership.upperMemoryRam evenMemoryInfo 0x110000#32 2 = some init ∧
      ¬ (init.serveAll [.freePage 0#32]).AllocFinds := by
  constructor
  next =>
    intro all
    have evaluated : (pmmInit Ownership.upperMemoryRam oddMemoryInfo 0x110000#32 2).map
        (fun s => (s.pmmAllocPage.1, s.pmmGetFreePageCount)) = some (0#32, 4#32) := by
      decide +kernel
    obtain ⟨init, started, values⟩ := Option.map_eq_some_iff.mp evaluated
    obtain ⟨null, four⟩ := Prod.mk.inj values
    have zero := (all _ _ _ _ init started []).null.mp null
    exact absurd (four.symm.trans zero) (by decide)
  next =>
    have evaluated : (pmmInit Ownership.upperMemoryRam evenMemoryInfo 0x110000#32 2).map
        (fun s => ((s.serveAll [.freePage 0#32]).pmmAllocPage.1,
          decide ((s.serveAll [.freePage 0#32]).pmmGetFreePageCount = 0#32))) =
        some (0#32, false) := by
      decide +kernel
    obtain ⟨init, started, values⟩ := Option.map_eq_some_iff.mp evaluated
    obtain ⟨null, some⟩ := Prod.mk.inj values
    exact ⟨init, started, fun finds => of_decide_eq_false some (finds.null.mp null)⟩

theorem allocFinds_evenMemory :
    ∃ init, pmmInit Ownership.upperMemoryRam evenMemoryInfo 0x110000#32 2 = some init ∧
      (init.serveAll [.allocPage, .freePage 0x110000#32]).AllocFinds := by
  have evaluated : (pmmInit Ownership.upperMemoryRam evenMemoryInfo 0x110000#32 2).map
      (fun s => decide (s.totalPages % 32 = 0 ∧
        (s.serveAll [.allocPage, .freePage 0x110000#32]).bitmapTest 0 = true)) = some true := by
    decide +kernel
  obtain ⟨init, started, values⟩ := Option.map_eq_some_iff.mp evaluated
  obtain ⟨whole, used⟩ := of_decide_eq_true values
  refine ⟨init, started, (allocFinds_iff_searched _ _ _ _ init started _).mpr ?_⟩
  apply searched_of_whole_words
  · rw [((pmmInit_spec started).1.serveAll _).2]
    exact whole
  · simp [used]

end Pmm

end SoraOS
