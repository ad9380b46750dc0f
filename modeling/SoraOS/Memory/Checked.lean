import SoraOS.Memory.Allocation

set_option autoImplicit false

/-!
`pmm.c` once more, with every index into `pmm_bitmap` and every decrement of `pmm_free_pages`
checked before it is made.
-/

namespace SoraOS

namespace Pmm

/-- The words of `pmm_bitmap`. -/
def bitmapSize : Nat := pmmMaxPages / 32

inductive Fault where
  | outOfBounds
  | underflow
  -- The walk of the memory map has not ended within the fuel.
  | unended
  deriving DecidableEq

def wordChecked (s : Pmm) (i : Nat) : Except Fault U32 :=
  if i < bitmapSize then .ok (s.bitmap i) else .error .outOfBounds

def testChecked (s : Pmm) (page : Nat) : Except Fault Bool :=
  if page / 32 < bitmapSize then .ok (s.bitmapTest page) else .error .outOfBounds

def setChecked (s : Pmm) (page : Nat) : Except Fault Pmm :=
  if page / 32 < bitmapSize then .ok (s.bitmapSet page) else .error .outOfBounds

def clearChecked (s : Pmm) (page : Nat) : Except Fault Pmm :=
  if page / 32 < bitmapSize then .ok (s.bitmapClear page) else .error .outOfBounds

def decrementChecked (s : Pmm) : Except Fault Pmm :=
  if s.freePages = 0#32 then .error .underflow else .ok { s with freePages := s.freePages - 1#32 }

/-- The inner loop of `pmm_alloc_page`, over the bits still to test. -/
def allocBitsChecked (s : Pmm) (i : Nat) : List Nat → Except Fault (Option (U32 × Pmm))
  | [] => .ok none
  | bit :: bits => do
      let page := i * 32 + bit
      if ← s.testChecked page then s.allocBitsChecked i bits
      else
        let s ← s.setChecked page
        let s ← s.decrementChecked
        return some (BitVec.ofNat 32 (page * pageSize), s)

/-- The outer loop, over the words still to search. -/
def allocWordsChecked (s : Pmm) : List Nat → Except Fault (U32 × Pmm)
  | [] => .ok (0#32, s)
  | i :: words => do
      if (← s.wordChecked i) = 0xFFFFFFFF#32 then s.allocWordsChecked words
      else
        match ← s.allocBitsChecked i (List.range 32) with
        | some result => return result
        | none => s.allocWordsChecked words

def pmmAllocPageChecked (s : Pmm) : Except Fault (U32 × Pmm) :=
  s.allocWordsChecked (List.range (s.totalPages / 32))

def pmmFreePageChecked (s : Pmm) (addr : U32) : Except Fault Pmm :=
  if addr % 4096#32 ≠ 0#32 then .ok s
  else
    let page := addr.toNat / pageSize
    if page ≥ s.totalPages then .ok s
    else do
      if ← s.testChecked page then
        let s ← s.clearChecked page
        return { s with freePages := s.freePages + 1#32 }
      else return s

def releasePageChecked (s : Pmm) (page : Nat) : Except Fault Pmm := do
  if ← s.testChecked page then
    let s ← s.clearChecked page
    return { s with freePages := s.freePages + 1#32 }
  else return s

def protectPageChecked (s : Pmm) (page : Nat) : Except Fault Pmm := do
  if ← s.testChecked page then return s
  else
    let s ← s.setChecked page
    if s.freePages > 0#32 then s.decrementChecked else return s

def releaseRegionChecked (s : Pmm) (entry : MultibootMmapEntry) : Except Fault Pmm :=
  let first := ((entry.addrLow + 4096#32 - 1#32) / 4096#32).toNat
  let last := ((entry.addrLow + entry.lenLow) / 4096#32).toNat
  (List.range' first (min last s.totalPages - first)).foldlM releasePageChecked s

def walkMmapChecked (ram : Ram) (finish : U32) : Nat → U32 → Pmm → Except Fault Pmm
  | 0, _, _ => .error .unended
  | fuel + 1, entry, s =>
      if entry < finish then do
        let fields := multibootMmapEntry ram entry
        let s ←
          if fields.type = multibootMemoryAvailable ∧ fields.addrHigh = 0#32 then
            s.releaseRegionChecked fields
          else pure s
        walkMmapChecked ram finish fuel (entry + fields.size + 4#32) s
      else .ok s

def pmmInitChecked (ram : Ram) (mb : MultibootInfo) (kernelEnd : U32) (fuel : Nat) :
    Except Fault Pmm := do
  let s : Pmm :=
    { bitmap := fun _ => 0xFFFFFFFF#32
      totalPages := detectTotalPages mb
      freePages := 0#32 }
  let s ←
    if mb.flags &&& multibootFlagMmap ≠ 0#32 then
      walkMmapChecked ram (mb.mmapAddr + mb.mmapLength) fuel mb.mmapAddr s
    else pure s
  (List.range (min (kernelPages kernelEnd) s.totalPages)).foldlM protectPageChecked s

def serveChecked (s : Pmm) : Request → Except Fault Pmm
  | .allocPage => do
      let (_, s) ← s.pmmAllocPageChecked
      return s
  | .freePage addr => s.pmmFreePageChecked addr

def serveAllChecked (s : Pmm) (requests : List Request) : Except Fault Pmm :=
  requests.foldlM serveChecked s

section Checks

variable {s : Pmm}

theorem word_inside {i page : Nat} (inside : page < pmmMaxPages) (word : page / 32 = i) :
    i < bitmapSize := by
  simp only [bitmapSize, pmmMaxPages] at inside ⊢
  omega

theorem testChecked_eq {page : Nat} (inside : page < pmmMaxPages) :
    s.testChecked page = .ok (s.bitmapTest page) :=
  if_pos (word_inside inside rfl)

theorem setChecked_eq {page : Nat} (inside : page < pmmMaxPages) :
    s.setChecked page = .ok (s.bitmapSet page) :=
  if_pos (word_inside inside rfl)

theorem clearChecked_eq {page : Nat} (inside : page < pmmMaxPages) :
    s.clearChecked page = .ok (s.bitmapClear page) :=
  if_pos (word_inside inside rfl)

theorem Wf.decrementChecked_eq (wf : s.Wf) {page : Nat} (free : page ∈ s.freeSet) :
    (s.bitmapSet page).decrementChecked = .ok (s.take page) := by
  -- A clear bit is counted, so there is something to take off.
  have counted : (s.bitmapSet page).freePages ≠ 0#32 :=
    mt wf.counter_zero.mp (Finset.ne_empty_of_mem free)
  rw [decrementChecked, if_neg counted]
  rfl

theorem Wf.allocBitsChecked_eq (wf : s.Wf) {i : Nat} (inside : i < s.totalPages / 32)
    (bits : List Nat) (small : ∀ bit ∈ bits, bit < 32) :
    s.allocBitsChecked i bits = .ok ((bits.findSome? fun bit =>
      if s.bitmapTest (i * 32 + bit) then none else some (i * 32 + bit)).map fun page =>
        (BitVec.ofNat 32 (page * pageSize), s.take page)) := by
  induction bits with
  | nil => rfl
  | cons bit bits ih =>
      have below : bit < 32 := small bit List.mem_cons_self
      have page : i * 32 + bit < s.totalPages := by omega
      have bounded := page.trans_le wf.bounded
      rw [allocBitsChecked, testChecked_eq bounded, List.findSome?_cons]
      cases used : s.bitmapTest (i * 32 + bit) with
      | true => exact ih fun b member => small b (List.mem_cons_of_mem _ member)
      | false =>
          have free : i * 32 + bit ∈ s.freeSet := (mem_freeSet s _).mpr ⟨page, used⟩
          have taken := wf.decrementChecked_eq free
          simp [bind, Except.bind, pure, Except.pure, setChecked_eq bounded, taken]

theorem Wf.allocWordsChecked_eq (wf : s.Wf) (words : List Nat)
    (inside : ∀ i ∈ words, i < s.totalPages / 32) :
    s.allocWordsChecked words = .ok (((words.findSome? fun i =>
      if s.bitmap i = BitVec.allOnes 32 then none
      else (List.range 32).findSome? fun bit =>
        if s.bitmapTest (i * 32 + bit) then none else some (i * 32 + bit)).map fun page =>
          (BitVec.ofNat 32 (page * pageSize), s.take page)).getD (0#32, s)) := by
  induction words with
  | nil => rfl
  | cons i words ih =>
      have rest := ih fun j member => inside j (List.mem_cons_of_mem _ member)
      have here := inside i List.mem_cons_self
      have word : i < bitmapSize := by
        have bounded := wf.bounded
        simp only [bitmapSize]
        omega
      have bits := wf.allocBitsChecked_eq here (List.range 32) fun bit => List.mem_range.mp
      rw [allocWordsChecked, wordChecked, if_pos word, List.findSome?_cons]
      by_cases full : s.bitmap i = 0xFFFFFFFF#32
      next =>
        simp [bind, Except.bind, full, rest]
      next =>
        have notOnes : ¬ s.bitmap i = BitVec.allOnes 32 := full
        simp only [bind, Except.bind, full, notOnes, if_false, bits]
        cases (List.range 32).findSome? fun bit =>
            if s.bitmapTest (i * 32 + bit) then none else some (i * 32 + bit) with
        | none => exact rest
        | some page => rfl

theorem Wf.pmmAllocPageChecked_eq (wf : s.Wf) : s.pmmAllocPageChecked = .ok s.pmmAllocPage := by
  have searched := wf.allocWordsChecked_eq (List.range (s.totalPages / 32)) fun i =>
    List.mem_range.mp
  rw [pmmAllocPageChecked, searched, Pmm.pmmAllocPage]
  change Except.ok (((Bitmap.firstClear s.bitmap (s.totalPages / 32)).map fun page =>
    (BitVec.ofNat 32 (page * pageSize), s.take page)).getD (0#32, s)) = _
  cases Bitmap.firstClear s.bitmap (s.totalPages / 32) with
  | none => rfl
  | some page => rfl

theorem Wf.pmmFreePageChecked_eq (wf : s.Wf) (addr : U32) :
    s.pmmFreePageChecked addr = .ok (s.pmmFreePage addr) := by
  rw [pmmFreePageChecked, Pmm.pmmFreePage]
  by_cases aligned : addr % 4096#32 ≠ 0#32
  next => rw [if_pos aligned, if_pos aligned]
  next =>
    rw [if_neg aligned, if_neg aligned]
    by_cases outside : addr.toNat / pageSize ≥ s.totalPages
    next => simp only [outside, if_true]
    next =>
      have bounded := (Nat.lt_of_not_le outside).trans_le wf.bounded
      simp only [outside, if_false, testChecked_eq bounded, clearChecked_eq bounded, bind, Except.bind]
      split <;> rfl

theorem Wf.releasePageChecked_eq (wf : s.Wf) {page : Nat} (inside : page < s.totalPages) :
    s.releasePageChecked page = .ok (s.releasePage page) := by
  have bounded := inside.trans_le wf.bounded
  simp only [releasePageChecked, Pmm.releasePage, testChecked_eq bounded, clearChecked_eq bounded,
    bind, Except.bind]
  split <;> rfl

theorem Wf.protectPageChecked_eq (wf : s.Wf) {page : Nat} (inside : page < s.totalPages) :
    s.protectPageChecked page = .ok (s.protectPage page) := by
  have bounded := inside.trans_le wf.bounded
  simp only [protectPageChecked, Pmm.protectPage, testChecked_eq bounded, setChecked_eq bounded,
    bind, Except.bind]
  cases used : s.bitmapTest page with
  | true => rfl
  | false =>
      have taken := wf.decrementChecked_eq ((mem_freeSet s page).mpr ⟨inside, used⟩)
      simp only [taken, Bool.false_eq_true, if_false]
      split <;> rfl

theorem foldlM_checked {round : Pmm → Nat → Pmm} {roundChecked : Pmm → Nat → Except Fault Pmm}
    (kept : ∀ s page, Wf s → page < s.totalPages → Wf (round s page))
    (total : ∀ s page, Wf s → page < s.totalPages → (round s page).totalPages = s.totalPages)
    (same : ∀ s page, Wf s → page < s.totalPages → roundChecked s page = .ok (round s page))
    (wf : s.Wf) (pages : List Nat) (inside : ∀ page ∈ pages, page < s.totalPages) :
    pages.foldlM roundChecked s = .ok (pages.foldl round s) := by
  induction pages generalizing s with
  | nil => rfl
  | cons page rest ih =>
      have here := inside page List.mem_cons_self
      rw [List.foldlM_cons, same s page wf here]
      refine ih (kept s page wf here) fun q member => ?_
      rw [total s page wf here]
      exact inside q (List.mem_cons_of_mem _ member)

theorem Wf.releaseRegionChecked_eq (wf : s.Wf) (entry : MultibootMmapEntry) :
    s.releaseRegionChecked entry = .ok (s.releaseRegion entry) := by
  refine foldlM_checked (fun s page wf => wf.releasePage) (fun s page _ _ => ?_)
    (fun s page wf => wf.releasePageChecked_eq) wf _ fun page member => ?_
  · exact releasePage_totalPages s page
  · rw [List.mem_range'_1] at member
    omega

theorem Wf.walkMmapChecked_eq {ram : Ram} {finish : U32} {fuel : Nat} {entry : U32} {t : Pmm}
    (wf : s.Wf) (ended : Pmm.walkMmap ram finish fuel entry s = some t) :
    Pmm.walkMmapChecked ram finish fuel entry s = .ok t := by
  induction fuel generalizing entry s with
  | zero => cases ended
  | succ fuel ih =>
      simp only [Pmm.walkMmap] at ended
      rw [Pmm.walkMmapChecked]
      by_cases within : entry < finish
      next =>
        simp only [within, if_true] at ended ⊢
        split at ended
        next handled =>
          simp only [handled, and_self, if_true, wf.releaseRegionChecked_eq]
          exact ih (wf.releaseRegion _).1 ended
        next other =>
          simp only [other, if_false]
          exact ih wf ended
      next =>
        simp only [within, if_false] at ended ⊢
        exact congrArg Except.ok (Option.some.inj ended)

theorem Wf.protectKernelChecked_eq (wf : s.Wf) (kernelEnd : U32) :
    (List.range (min (kernelPages kernelEnd) s.totalPages)).foldlM protectPageChecked s =
      .ok (s.protectKernel kernelEnd) := by
  refine foldlM_checked (fun s page wf => wf.protectPage) (fun s page wf inside => ?_)
    (fun s page wf => wf.protectPageChecked_eq) wf _ fun page member => ?_
  · rw [wf.protectPage_eq inside]
    split <;> rfl
  · have below := List.mem_range.mp member
    omega

theorem Wf.serveChecked_eq (wf : s.Wf) (r : Request) : s.serveChecked r = .ok (s.serve r) := by
  cases r with
  | allocPage =>
      rw [serveChecked, wf.pmmAllocPageChecked_eq]
      rfl
  | freePage addr => exact wf.pmmFreePageChecked_eq addr

theorem Wf.serveAllChecked_eq (wf : s.Wf) (requests : List Request) :
    s.serveAllChecked requests = .ok (s.serveAll requests) := by
  induction requests generalizing s with
  | nil => rfl
  | cons r rest ih =>
      rw [serveAllChecked, List.foldlM_cons, wf.serveChecked_eq]
      exact ih (wf.serve r)

end Checks

theorem pmmInitChecked_eq {ram : Ram} {mb : MultibootInfo} {kernelEnd : U32} {fuel : Nat} {s : Pmm}
    (ended : pmmInit ram mb kernelEnd fuel = some s) :
    pmmInitChecked ram mb kernelEnd fuel = .ok s := by
  have start := wf_allUsed (detectTotalPages mb) (detectTotalPages_le mb)
  obtain ⟨walked, ran, rfl⟩ := Option.map_eq_some_iff.mp ended
  rw [pmmInitChecked]
  by_cases mmap : mb.flags &&& multibootFlagMmap ≠ 0#32
  next =>
    simp only [mmap, ne_eq, not_false_eq_true, if_true] at ran ⊢
    rw [start.walkMmapChecked_eq ran]
    exact (start.walkMmap ran).1.protectKernelChecked_eq kernelEnd
  next =>
    simp only [mmap, if_false] at ran ⊢
    obtain rfl := Option.some.inj ran
    exact start.protectKernelChecked_eq kernelEnd

/--
From any memory map whose walk ends, and through any requests, no index leaves `pmm_bitmap`, no
decrement finds zero, the counter counts the clear bits, and nothing at or above the total is clear.
-/
theorem counter_exact (ram : Ram) (mb : MultibootInfo) (kernelEnd : U32) (fuel : Nat) (init : Pmm)
    (ended : pmmInit ram mb kernelEnd fuel = some init) (requests : List Request) :
    ∃ s, pmmInitChecked ram mb kernelEnd fuel >>= (serveAllChecked · requests) = .ok s ∧
      s = init.serveAll requests ∧
      s.freePages.toNat =
        ((Finset.range s.totalPages).filter fun page => s.bitmapTest page = false).card ∧
      (∀ page, s.totalPages ≤ page → s.bitmapTest page = true) ∧ s.totalPages ≤ 65536 := by
  have start := (pmmInit_spec ended).1
  have wf := (start.serveAll requests).1
  refine ⟨_, ?_, rfl, wf.counted, wf.tail, wf.bounded⟩
  rw [pmmInitChecked_eq ended]
  exact start.serveAllChecked_eq requests

/-- A misaligned address, one beyond the total, one already free, one reserved. -/
theorem counter_exact_evenMemory :
    ∃ init s, pmmInit Ownership.upperMemoryRam evenMemoryInfo 0x110000#32 2 = some init ∧
      s = init.serveAll [.freePage 0x111001#32, .freePage 0xFFFFF000#32, .freePage 0x111000#32,
        .freePage 0x10F000#32, .allocPage] ∧
      s.freePages.toNat =
        ((Finset.range s.totalPages).filter fun page => s.bitmapTest page = false).card := by
  obtain ⟨init, started⟩ := Option.isSome_iff_exists.mp
    (by decide : (pmmInit Ownership.upperMemoryRam evenMemoryInfo 0x110000#32 2).isSome = true)
  obtain ⟨s, _, shape, counted, _⟩ := counter_exact _ _ _ _ init started [.freePage 0x111001#32,
    .freePage 0xFFFFF000#32, .freePage 0x111000#32, .freePage 0x10F000#32, .allocPage]
  exact ⟨init, s, started, shape, counted⟩

end Pmm

end SoraOS
