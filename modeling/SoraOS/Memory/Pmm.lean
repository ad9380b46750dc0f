import Mathlib.Data.BitVec
import SoraOS.Shared.Bitmap

set_option autoImplicit false

namespace SoraOS

abbrev U8 := BitVec 8
abbrev U32 := BitVec 32

def pageSize : Nat := 4096
def pmmMaxPages : Nat := 65536

/-- The static data of `pmm.c`; a clear bit is a free page. -/
structure Pmm where
  bitmap : Bitmap.Words 32
  totalPages : Nat
  freePages : U32

namespace Pmm

def bitmapSet (s : Pmm) (page : Nat) : Pmm := { s with bitmap := Bitmap.set s.bitmap page }

def bitmapClear (s : Pmm) (page : Nat) : Pmm := { s with bitmap := Bitmap.clear s.bitmap page }

def bitmapTest (s : Pmm) (page : Nat) : Bool := Bitmap.test s.bitmap page

/-- Returns the page's address and the new state; address 0 is `NULL`. -/
def pmmAllocPage (s : Pmm) : U32 × Pmm :=
  match Bitmap.firstClear s.bitmap (s.totalPages / 32) with
  | none => (0#32, s)
  | some page =>
      let s := s.bitmapSet page
      (BitVec.ofNat 32 (page * pageSize), { s with freePages := s.freePages - 1#32 })

def pmmFreePage (s : Pmm) (addr : U32) : Pmm :=
  if addr % 4096#32 ≠ 0#32 then s
  else
    let page := addr.toNat / pageSize
    if page ≥ s.totalPages then s
    else if s.bitmapTest page then
      let s := s.bitmapClear page
      { s with freePages := s.freePages + 1#32 }
    else s

def pmmGetFreePageCount (s : Pmm) : U32 := s.freePages

def freeSet (s : Pmm) : Finset Nat := Bitmap.free s.bitmap s.totalPages

@[simp] theorem mem_freeSet (s : Pmm) (page : Nat) :
    page ∈ s.freeSet ↔ page < s.totalPages ∧ s.bitmapTest page = false :=
  Bitmap.mem_free s.bitmap s.totalPages page

structure Wf (s : Pmm) : Prop where
  bounded : s.totalPages ≤ pmmMaxPages
  counted : s.freePages.toNat = s.freeSet.card
  tail : ∀ page, s.totalPages ≤ page → s.bitmapTest page = true

def take (s : Pmm) (page : Nat) : Pmm :=
  -- `bitmap_set(page); pmm_free_pages--`
  { s.bitmapSet page with freePages := s.freePages - 1#32 }

def give (s : Pmm) (page : Nat) : Pmm :=
  -- `bitmap_clear(page); pmm_free_pages++`
  { s.bitmapClear page with freePages := s.freePages + 1#32 }

@[simp] theorem take_totalPages (s : Pmm) (page : Nat) : (s.take page).totalPages = s.totalPages := rfl
@[simp] theorem give_totalPages (s : Pmm) (page : Nat) : (s.give page).totalPages = s.totalPages := rfl

@[simp] theorem bitmapTest_take (s : Pmm) (page q : Nat) :
    (s.take page).bitmapTest q = (decide (q = page) || s.bitmapTest q) :=
  Bitmap.test_set (by decide) s.bitmap page q

@[simp] theorem bitmapTest_give (s : Pmm) (page q : Nat) :
    (s.give page).bitmapTest q = (decide (q ≠ page) && s.bitmapTest q) :=
  Bitmap.test_clear (by decide) s.bitmap page q

theorem freeSet_take (s : Pmm) (page : Nat) : (s.take page).freeSet = s.freeSet.erase page :=
  Bitmap.free_set (by decide) s.bitmap s.totalPages page

theorem freeSet_give (s : Pmm) (page : Nat) (inside : page < s.totalPages) :
    (s.give page).freeSet = insert page s.freeSet :=
  Bitmap.free_clear (by decide) s.bitmap s.totalPages page inside

theorem freeSet_card_le (s : Pmm) : s.freeSet.card ≤ s.totalPages := by
  have bound := Finset.card_filter_le (Finset.range s.totalPages)
    (fun i => Bitmap.test s.bitmap i = false)
  simpa [freeSet, Bitmap.free] using bound

theorem Wf.page_small {s : Pmm} (wf : s.Wf) {page : Nat} (free : page ∈ s.freeSet) :
    page ≤ pmmMaxPages :=
  ((mem_freeSet s page).mp free).1.le.trans wf.bounded

theorem Wf.take {s : Pmm} (wf : s.Wf) {page : Nat} (free : page ∈ s.freeSet) : (s.take page).Wf := by
  refine ⟨wf.bounded, ?_, ?_⟩
  · have positive : 0 < s.freeSet.card := Finset.card_pos.mpr ⟨page, free⟩
    have counted := wf.counted
    have small := s.freePages.isLt
    rw [freeSet_take, Finset.card_erase_of_mem free]
    simp only [Pmm.take, BitVec.toNat_sub, BitVec.toNat_ofNat]
    omega
  · intro q above
    simp [wf.tail q above]

theorem Wf.take_counter {s : Pmm} (wf : s.Wf) {page : Nat} (free : page ∈ s.freeSet) :
    (s.take page).freePages.toNat + 1 = s.freePages.toNat := by
  rw [(wf.take free).counted, wf.counted, freeSet_take]
  exact Finset.card_erase_add_one free

theorem Wf.give {s : Pmm} (wf : s.Wf) {page : Nat} (inside : page < s.totalPages)
    (used : s.bitmapTest page = true) : (s.give page).Wf := by
  have absent : page ∉ s.freeSet := by simp [used]
  refine ⟨wf.bounded, ?_, ?_⟩
  · have grown := freeSet_card_le (s.give page)
    have counted := wf.counted
    have bounded := wf.bounded
    rw [freeSet_give s page inside, Finset.card_insert_of_notMem absent] at grown ⊢
    simp only [give_totalPages, pmmMaxPages] at grown bounded
    simp only [Pmm.give, BitVec.toNat_add, BitVec.toNat_ofNat]
    omega
  · intro q above
    have different : q ≠ page := by
      simp only [give_totalPages] at above
      omega
    simp [different, wf.tail q above]

theorem pmmAllocPage_cases (s : Pmm) :
    ((∀ page < s.totalPages / 32 * 32, s.bitmapTest page = true) ∧ s.pmmAllocPage = (0#32, s)) ∨
    ∃ page ∈ s.freeSet, page < s.totalPages / 32 * 32 ∧ (∀ q < page, s.bitmapTest q = true) ∧
      s.pmmAllocPage = (BitVec.ofNat 32 (page * pageSize), s.take page) := by
  cases found : Bitmap.firstClear s.bitmap (s.totalPages / 32) with
  | none =>
      refine Or.inl ⟨?_, by simp [pmmAllocPage, found]⟩
      exact Bitmap.firstClear_none (by decide) _ found
  | some page =>
      obtain ⟨inside, isClear, lowest⟩ := Bitmap.firstClear_some (by decide) found
      have below : page < s.totalPages := by omega
      exact Or.inr ⟨page, (mem_freeSet s page).mpr ⟨below, isClear⟩, inside, lowest,
        by simp [pmmAllocPage, found, take, bitmapSet]⟩

theorem toNat_pageAddress (page : Nat) (small : page ≤ pmmMaxPages) :
    (BitVec.ofNat 32 (page * pageSize)).toNat = page * pageSize := by
  simp only [pmmMaxPages] at small
  simp only [pageSize, BitVec.toNat_ofNat]
  omega

theorem pmmFreePage_cases (s : Pmm) (addr : U32) :
    s.pmmFreePage addr = s ∨
      ∃ page < s.totalPages, addr.toNat = page * pageSize ∧ s.bitmapTest page = true ∧
        s.pmmFreePage addr = s.give page := by
  by_cases aligned : addr % 4096#32 ≠ 0#32
  · exact Or.inl (by rw [pmmFreePage, if_pos aligned])
  by_cases outside : addr.toNat / pageSize ≥ s.totalPages
  · exact Or.inl (by rw [pmmFreePage, if_neg aligned]; simp only [outside, if_true])
  by_cases used : s.bitmapTest (addr.toNat / pageSize) = true
  · refine Or.inr ⟨addr.toNat / pageSize, by omega, ?_, used, ?_⟩
    · have remainder : addr.toNat % 4096 = 0 := by
        have value := congrArg BitVec.toNat (not_not.mp aligned)
        simpa using value
      simp only [pageSize]
      omega
    · simp only [pmmFreePage, aligned, outside, used, if_false, if_true]
      rfl
  · exact Or.inl (by simp [pmmFreePage, used])

theorem pmmFreePage_page (s : Pmm) {page : Nat} (inside : page < s.totalPages)
    (bounded : s.totalPages ≤ pmmMaxPages) (used : s.bitmapTest page = true) :
    s.pmmFreePage (BitVec.ofNat 32 (page * pageSize)) = s.give page := by
  have value := toNat_pageAddress page (by omega)
  have aligned : BitVec.ofNat 32 (page * pageSize) % 4096#32 = 0#32 := by
    apply BitVec.eq_of_toNat_eq
    rw [BitVec.toNat_umod, value]
    simp [pageSize]
  have index : (BitVec.ofNat 32 (page * pageSize)).toNat / pageSize = page := by
    rw [value, Nat.mul_div_cancel _ (by decide : 0 < pageSize)]
  simp only [pmmFreePage, aligned, ne_eq, not_true_eq_false, if_false, index, used, if_true]
  rw [if_neg (by omega)]
  rfl

theorem Wf.pmmAllocPage {s : Pmm} (wf : s.Wf) : s.pmmAllocPage.2.Wf := by
  obtain ⟨_, result⟩ | ⟨page, free, _, _, result⟩ := s.pmmAllocPage_cases
  · rw [result]
    exact wf
  · rw [result]
    exact wf.take free

theorem Wf.pmmFreePage {s : Pmm} (wf : s.Wf) (addr : U32) : (s.pmmFreePage addr).Wf := by
  obtain result | ⟨page, inside, _, used, result⟩ := s.pmmFreePage_cases addr
  · rw [result]
    exact wf
  · rw [result]
    exact wf.give inside used

end Pmm

end SoraOS
