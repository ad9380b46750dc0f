import SoraOS.Memory.Pmm
import SoraOS.Shared.ByteMemory

set_option autoImplicit false

namespace SoraOS

abbrev Ram := X86.Memory

structure MultibootMmapEntry where
  size : U32
  addrLow : U32
  addrHigh : U32
  lenLow : U32
  lenHigh : U32
  type : U32

def multibootMmapEntry (ram : Ram) (entry : U32) : MultibootMmapEntry where
  size := X86.loadWord ram entry
  addrLow := X86.loadWord ram (entry + 4#32)
  addrHigh := X86.loadWord ram (entry + 8#32)
  lenLow := X86.loadWord ram (entry + 12#32)
  lenHigh := X86.loadWord ram (entry + 16#32)
  type := X86.loadWord ram (entry + 20#32)

structure MultibootInfo where
  flags : U32
  memUpper : U32
  mmapLength : U32
  mmapAddr : U32

def multibootFlagMem : U32 := 0x001#32
def multibootFlagMmap : U32 := 0x040#32
def multibootMemoryAvailable : U32 := 1#32

namespace Pmm

/-- `total_kb` is 32 bits wide, so `1024 + mem_upper` wraps. -/
def detectTotalPages (mb : MultibootInfo) : Nat :=
  if mb.flags &&& multibootFlagMem ≠ 0#32 then
    let totalKb : U32 := 1024#32 + mb.memUpper
    min (totalKb / 4#32).toNat pmmMaxPages
  else pmmMaxPages

def releasePage (s : Pmm) (page : Nat) : Pmm :=
  -- `if (bitmap_test(p)) { bitmap_clear(p); pmm_free_pages++; }`
  if s.bitmapTest page then
    let s := s.bitmapClear page
    { s with freePages := s.freePages + 1#32 }
  else s

def protectPage (s : Pmm) (page : Nat) : Pmm :=
  -- `if (!bitmap_test(p)) { bitmap_set(p); if (pmm_free_pages > 0) pmm_free_pages--; }`
  if s.bitmapTest page then s
  else
    let s := s.bitmapSet page
    if s.freePages > 0#32 then { s with freePages := s.freePages - 1#32 } else s

/-- `for (p = first; p < last && p < pmm_total_pages; p++)` over one region; the sums wrap. -/
def releaseRegion (s : Pmm) (entry : MultibootMmapEntry) : Pmm :=
  let first := ((entry.addrLow + 4096#32 - 1#32) / 4096#32).toNat
  let last := ((entry.addrLow + entry.lenLow) / 4096#32).toNat
  (List.range' first (min last s.totalPages - first)).foldl releasePage s

/-- The `while (entry < end)` loop; `none` when it has not ended within the fuel. -/
def walkMmap (ram : Ram) (finish : U32) : Nat → U32 → Pmm → Option Pmm
  | 0, _, _ => none
  | fuel + 1, entry, s =>
      if entry < finish then
        let fields := multibootMmapEntry ram entry
        let s :=
          if fields.type = multibootMemoryAvailable ∧ fields.addrHigh = 0#32 then
            s.releaseRegion fields
          else s
        walkMmap ram finish fuel (entry + fields.size + 4#32) s
      else some s

/-- `(&kernel_end + PAGE_SIZE - 1) / PAGE_SIZE`, in 32 bits. -/
def kernelPages (kernelEnd : U32) : Nat := ((kernelEnd + 4096#32 - 1#32) / 4096#32).toNat

def protectKernel (s : Pmm) (kernelEnd : U32) : Pmm :=
  (List.range (min (kernelPages kernelEnd) s.totalPages)).foldl protectPage s

/-- `none` when the walk of the memory map has not ended within the fuel. -/
def pmmInit (ram : Ram) (mb : MultibootInfo) (kernelEnd : U32) (fuel : Nat) : Option Pmm :=
  let s : Pmm :=
    { bitmap := fun _ => 0xFFFFFFFF#32
      totalPages := detectTotalPages mb
      freePages := 0#32 }
  let walked :=
    if mb.flags &&& multibootFlagMmap ≠ 0#32 then
      walkMmap ram (mb.mmapAddr + mb.mmapLength) fuel mb.mmapAddr s
    else some s
  walked.map fun s => s.protectKernel kernelEnd

theorem releasePage_eq (s : Pmm) (page : Nat) :
    s.releasePage page = if s.bitmapTest page then s.give page else s := rfl

theorem Wf.protectPage_eq {s : Pmm} (wf : s.Wf) {page : Nat} (inside : page < s.totalPages) :
    s.protectPage page = if s.bitmapTest page then s else s.take page := by
  cases used : s.bitmapTest page with
  | true => simp [protectPage, used]
  | false =>
      have member : page ∈ s.freeSet := by simp [inside, used]
      have positive : 0 < s.freeSet.card := Finset.card_pos.mpr ⟨page, member⟩
      have counter : s.freePages > 0#32 := by
        rw [gt_iff_lt, BitVec.lt_def, wf.counted]
        simpa using positive
      have counterAfter : (s.bitmapSet page).freePages > 0#32 := counter
      simp only [protectPage, used, Bool.false_eq_true, if_false, counterAfter, if_true]
      rfl

theorem Wf.releasePage {s : Pmm} (wf : s.Wf) {page : Nat} (inside : page < s.totalPages) :
    (s.releasePage page).Wf := by
  rw [releasePage_eq]
  split
  next used => exact wf.give inside used
  next => exact wf

theorem Wf.protectPage {s : Pmm} (wf : s.Wf) {page : Nat} (inside : page < s.totalPages) :
    (s.protectPage page).Wf := by
  rw [wf.protectPage_eq inside]
  split
  next => exact wf
  next unused => exact wf.take (by simp [inside, unused])

theorem releasePage_totalPages (s : Pmm) (page : Nat) :
    (s.releasePage page).totalPages = s.totalPages := by
  rw [releasePage_eq]
  split <;> rfl

theorem Wf.foldl_releasePage {s : Pmm} (wf : s.Wf) (pages : List Nat)
    (inside : ∀ page ∈ pages, page < s.totalPages) :
    (pages.foldl Pmm.releasePage s).Wf ∧
      (pages.foldl Pmm.releasePage s).totalPages = s.totalPages := by
  induction pages generalizing s with
  | nil => exact ⟨wf, rfl⟩
  | cons page rest ih =>
      have total := releasePage_totalPages s page
      have kept := ih (wf.releasePage (inside page (by simp)))
        (fun q member => total.symm ▸ inside q (List.mem_cons_of_mem _ member))
      exact ⟨kept.1, kept.2.trans total⟩

theorem Wf.releaseRegion {s : Pmm} (wf : s.Wf) (entry : MultibootMmapEntry) :
    (s.releaseRegion entry).Wf ∧ (s.releaseRegion entry).totalPages = s.totalPages := by
  apply wf.foldl_releasePage
  intro page member
  rw [List.mem_range'_1] at member
  omega

theorem Wf.walkMmap {ram : Ram} {finish : U32} {fuel : Nat} {entry : U32} {s t : Pmm} (wf : s.Wf)
    (ended : walkMmap ram finish fuel entry s = some t) : t.Wf ∧ t.totalPages = s.totalPages := by
  induction fuel generalizing entry s with
  | zero => simp [Pmm.walkMmap] at ended
  | succ fuel ih =>
      simp only [Pmm.walkMmap] at ended
      split at ended
      next =>
        split at ended
        next =>
          have region := wf.releaseRegion (multibootMmapEntry ram entry)
          have rest := ih region.1 ended
          exact ⟨rest.1, rest.2.trans region.2⟩
        next => exact ih wf ended
      next =>
        obtain rfl : s = t := Option.some.inj ended
        exact ⟨wf, rfl⟩

theorem Wf.foldl_protectPage {s : Pmm} (wf : s.Wf) (pages : List Nat)
    (inside : ∀ page ∈ pages, page < s.totalPages) :
    (pages.foldl Pmm.protectPage s).Wf ∧
      (pages.foldl Pmm.protectPage s).totalPages = s.totalPages ∧
      ∀ page, (pages.foldl Pmm.protectPage s).bitmapTest page =
        (decide (page ∈ pages) || s.bitmapTest page) := by
  induction pages generalizing s with
  | nil => exact ⟨wf, rfl, by simp⟩
  | cons page rest ih =>
      have here := inside page (by simp)
      have step := wf.protectPage_eq here
      have total : (s.protectPage page).totalPages = s.totalPages := by
        rw [step]
        split <;> rfl
      have bits (q : Nat) : (s.protectPage page).bitmapTest q =
          (decide (q = page) || s.bitmapTest q) := by
        rw [step]
        split
        next used => by_cases same : q = page <;> simp [same, used]
        next => exact bitmapTest_take s page q
      have kept := ih (wf.protectPage here)
        (fun q member => total.symm ▸ inside q (List.mem_cons_of_mem _ member))
      refine ⟨kept.1, kept.2.1.trans total, ?_⟩
      intro q
      rw [List.foldl_cons, kept.2.2 q, bits q]
      by_cases same : q = page <;> by_cases later : q ∈ rest <;> simp [same, later]

theorem Wf.protectKernel {s : Pmm} (wf : s.Wf) (kernelEnd : U32) :
    (s.protectKernel kernelEnd).Wf ∧ (s.protectKernel kernelEnd).totalPages = s.totalPages ∧
      ∀ page, (s.protectKernel kernelEnd).bitmapTest page =
        (decide (page < min (kernelPages kernelEnd) s.totalPages) || s.bitmapTest page) := by
  have kept := wf.foldl_protectPage (List.range (min (kernelPages kernelEnd) s.totalPages))
    (fun page member => by have := List.mem_range.mp member; omega)
  simpa only [List.mem_range, Pmm.protectKernel] using kept

theorem wf_allUsed (total : Nat) (bounded : total ≤ pmmMaxPages) :
    ({ bitmap := fun _ => 0xFFFFFFFF#32, totalPages := total, freePages := 0#32 } : Pmm).Wf := by
  have full (page : Nat) : Bitmap.test (fun _ => 0xFFFFFFFF#32) page = true :=
    Bitmap.test_of_full (by decide) _ page rfl
  refine ⟨bounded, ?_, fun page _ => full page⟩
  simp [freeSet, Bitmap.free, full]

theorem detectTotalPages_le (mb : MultibootInfo) : detectTotalPages mb ≤ pmmMaxPages := by
  unfold detectTotalPages
  split
  next => exact Nat.min_le_right _ _
  next => exact le_rfl

theorem pmmInit_spec {ram : Ram} {mb : MultibootInfo} {kernelEnd : U32} {fuel : Nat} {s : Pmm}
    (ended : pmmInit ram mb kernelEnd fuel = some s) :
    s.Wf ∧ s.totalPages = detectTotalPages mb ∧
      ∀ page < s.totalPages, page < kernelPages kernelEnd → s.bitmapTest page = true := by
  have start := wf_allUsed (detectTotalPages mb) (detectTotalPages_le mb)
  obtain ⟨walked, ran, rfl⟩ := Option.map_eq_some_iff.mp ended
  have good : walked.Wf ∧ walked.totalPages = detectTotalPages mb := by
    split at ran
    next => exact start.walkMmap ran
    next =>
      obtain rfl := Option.some.inj ran
      exact ⟨start, rfl⟩
  obtain ⟨wf, total, bits⟩ := good.1.protectKernel kernelEnd
  refine ⟨wf, total.trans good.2, ?_⟩
  intro page inside reserved
  have below : page < min (kernelPages kernelEnd) walked.totalPages := by
    rw [total] at inside
    omega
  simp [bits, below]

end Pmm

end SoraOS
