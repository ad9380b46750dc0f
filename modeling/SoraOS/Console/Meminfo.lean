import SoraOS.Console.Bounds
import SoraOS.Console.Number
import SoraOS.Memory.Allocation

set_option autoImplicit false

/-! `cmd_meminfo`: what it prints, against what the allocator manages. -/

namespace SoraOS

namespace Shell

open Buffer Vga

-- The number printed through `buf`; also returns `buf`.
def printable {size : Nat} (n : U32) (tmp : Vector U8 12) (buf : Vector U8 size) :
    Option (List U8 × Vector U8 size) := do
  let buf ← shItoa n tmp buf
  let s ← stringAt 0#8 buf 0
  return (s, buf)

-- The calls of the console; `tmp` and `buf` start with any bytes.
def cmdMeminfo (pmm : Pmm) (tmp₁ tmp₂ tmp₃ buf : Vector U8 12) : Option (List Vga.Op) := do
  let freeP := pmm.pmmGetFreePageCount
  let totalP : U32 := 32768#32
  let usedP := totalP - freeP
  let (total, buf) ← printable (totalP * 4#32) tmp₁ buf
  let (used, buf) ← printable (usedP * 4#32) tmp₂ buf
  let (free, _) ← printable (freeP * 4#32) tmp₃ buf
  return [
    .vgaPrintColor (ascii "\n=== Memory Info ===\n") 0x0B#8,
    .vgaPrint (ascii "  Total : "), .vgaPrint total, .vgaPrint (ascii " KB\n"),
    .vgaPrint (ascii "  Used  : "), .vgaPrint used, .vgaPrint (ascii " KB\n"),
    .vgaPrintColor (ascii "  Free  : ") 0x0A#8,
    .vgaPrintColor free 0x0A#8, .vgaPrintColor (ascii " KB\n\n") 0x0A#8]

def meminfoLines (total used free : Nat) : List Vga.Op := [
  .vgaPrintColor (ascii "\n=== Memory Info ===\n") 0x0B#8,
  .vgaPrint (ascii "  Total : "), .vgaPrint (text total), .vgaPrint (ascii " KB\n"),
  .vgaPrint (ascii "  Used  : "), .vgaPrint (text used), .vgaPrint (ascii " KB\n"),
  .vgaPrintColor (ascii "  Free  : ") 0x0A#8,
  .vgaPrintColor (text free) 0x0A#8, .vgaPrintColor (ascii " KB\n\n") 0x0A#8]

def usedSet (pmm : Pmm) : Finset Nat :=
  (Finset.range pmm.totalPages).filter fun page => pmm.bitmapTest page = true

def AddsUp (pmm : Pmm) (shown : Option (List Vga.Op)) : Prop :=
  ∃ total used free, shown = some (meminfoLines total used free) ∧
    total = 4 * pmm.totalPages ∧ free = 4 * pmm.freeSet.card ∧ used + free = total ∧
    used = 4 * (usedSet pmm).card

theorem text_injective : Function.Injective text := by
  intro n m same
  rw [← number_text n, same, number_text]

theorem meminfoLines_total {total used free total' used' free' : Nat}
    (same : meminfoLines total used free = meminfoLines total' used' free') : total = total' := by
  simp only [meminfoLines, List.cons.injEq, Vga.Op.vgaPrint.injEq] at same
  exact text_injective same.2.2.1

theorem printable_spec {size : Nat} (n : U32) (tmp : Vector U8 12) (buf : Vector U8 size)
    (fits : 10 < size) : ∃ buf', printable n tmp buf = some (text n.toNat, buf') := by
  have short := text_length n
  obtain ⟨buf', run, shown, -⟩ := shItoa_spec n tmp buf (by omega)
  refine ⟨buf', ?_⟩
  simp only [printable, run, shown, Option.bind_eq_bind, Option.bind_some, Option.pure_def]

theorem cmdMeminfo_eq (pmm : Pmm) (tmp₁ tmp₂ tmp₃ buf : Vector U8 12) :
    cmdMeminfo pmm tmp₁ tmp₂ tmp₃ buf =
      some (meminfoLines 131072 ((32768#32 - pmm.freePages) * 4#32).toNat
        (pmm.freePages * 4#32).toNat) := by
  have room : 10 < 12 := by decide
  obtain ⟨buf₁, total⟩ := printable_spec (32768#32 * 4#32) tmp₁ buf room
  obtain ⟨buf₂, used⟩ := printable_spec ((32768#32 - pmm.freePages) * 4#32) tmp₂ buf₁ room
  obtain ⟨buf₃, free⟩ := printable_spec (pmm.freePages * 4#32) tmp₃ buf₂ room
  simp only [cmdMeminfo, Pmm.pmmGetFreePageCount, total, used, free, Option.bind_eq_bind,
    Option.bind_some, Option.pure_def]
  rfl

theorem card_usedSet (pmm : Pmm) : (usedSet pmm).card + pmm.freeSet.card = pmm.totalPages := by
  have split := Finset.card_filter_add_card_filter_not (s := Finset.range pmm.totalPages)
    (fun page => pmm.bitmapTest page = true)
  rw [Finset.card_range] at split
  rw [← split, usedSet]
  congr 2
  ext page
  simp

theorem addsUp_iff {pmm : Pmm} (wf : pmm.Wf) (tmp₁ tmp₂ tmp₃ buf : Vector U8 12) :
    AddsUp pmm (cmdMeminfo pmm tmp₁ tmp₂ tmp₃ buf) ↔ pmm.totalPages = 32768 := by
  have counted := wf.counted
  have parts := card_usedSet pmm
  rw [cmdMeminfo_eq]
  constructor
  next =>
    rintro ⟨total, used, free, same, whole, -⟩
    have first := meminfoLines_total (Option.some.inj same)
    omega
  next =>
    intro size
    -- nothing wraps: at most 32768 pages are free
    have free : (pmm.freePages * 4#32).toNat = 4 * pmm.freeSet.card := by
      rw [BitVec.toNat_mul, BitVec.toNat_ofNat]
      omega
    have used : ((32768#32 - pmm.freePages) * 4#32).toNat = 4 * (usedSet pmm).card := by
      rw [BitVec.toNat_mul, BitVec.toNat_sub, BitVec.toNat_ofNat, BitVec.toNat_ofNat]
      omega
    exact ⟨_, _, _, rfl, by omega, free, by omega, used⟩

theorem detectTotalPages_iff (mb : MultibootInfo) :
    Pmm.detectTotalPages mb = 32768 ↔
      mb.flags &&& multibootFlagMem ≠ 0#32 ∧ 130048 ≤ mb.memUpper.toNat ∧
        mb.memUpper.toNat < 130052 := by
  have bound := mb.memUpper.isLt
  have most : pmmMaxPages = 65536 := rfl
  rw [Pmm.detectTotalPages]
  split
  next given =>
    have size : ((1024#32 + mb.memUpper) / 4#32).toNat =
        (1024 + mb.memUpper.toNat) % 2 ^ 32 / 4 := by
      rw [BitVec.toNat_udiv, BitVec.toNat_add]
      rfl
    simp only [size, ne_eq, given, not_false_eq_true, true_and]
    omega
  next missing =>
    constructor
    next =>
      intro same
      omega
    next =>
      intro both
      exact absurd both.1 missing

/--
With any boot information and after any requests, the three numbers are those of the allocator
exactly when the boot loader reports 128 MB: the upper memory is then 127 MB.
-/
theorem meminfo_adds_up (ram : Ram) (mb : MultibootInfo) (kernelEnd : U32) (fuel : Nat)
    (init : Pmm) (started : Pmm.pmmInit ram mb kernelEnd fuel = some init)
    (requests : List Pmm.Request) (tmp₁ tmp₂ tmp₃ buf : Vector U8 12) :
    AddsUp (init.serveAll requests) (cmdMeminfo (init.serveAll requests) tmp₁ tmp₂ tmp₃ buf) ↔
      mb.flags &&& multibootFlagMem ≠ 0#32 ∧ 130048 ≤ mb.memUpper.toNat ∧
        mb.memUpper.toNat < 130052 := by
  obtain ⟨wf, total, -⟩ := Pmm.pmmInit_spec started
  obtain ⟨served, same⟩ := wf.serveAll requests
  rw [addsUp_iff served, same, total, detectTotalPages_iff]

theorem meminfo_adds_up_fullMemory :
    ∃ init, Pmm.pmmInit Ownership.upperMemoryRam { Ownership.upperMemoryInfo with memUpper := 130048#32 }
        0x110000#32 2 = some init ∧
      AddsUp (init.serveAll [.allocPage, .freePage 0x112000#32])
        (cmdMeminfo (init.serveAll [.allocPage, .freePage 0x112000#32]) (Vector.replicate 12 0#8)
          (Vector.replicate 12 1#8) (Vector.replicate 12 2#8) (Vector.replicate 12 3#8)) := by
  obtain ⟨init, started⟩ := Option.isSome_iff_exists.mp
    (by decide : (Pmm.pmmInit Ownership.upperMemoryRam
      { Ownership.upperMemoryInfo with memUpper := 130048#32 } 0x110000#32 2).isSome = true)
  exact ⟨init, started, (meminfo_adds_up _ _ _ _ init started _ _ _ _ _).mpr (by decide)⟩

-- A machine of 128 MB whose firmware keeps the last 128 KB: 32736 pages.
theorem meminfo_wrong_upperMemory :
    ¬∀ (ram : Ram) (mb : MultibootInfo) (kernelEnd : U32) (fuel : Nat) (init : Pmm),
      Pmm.pmmInit ram mb kernelEnd fuel = some init →
      ∀ (requests : List Pmm.Request) (tmp₁ tmp₂ tmp₃ buf : Vector U8 12),
        AddsUp (init.serveAll requests)
          (cmdMeminfo (init.serveAll requests) tmp₁ tmp₂ tmp₃ buf) := by
  intro always
  obtain ⟨init, started⟩ := Option.isSome_iff_exists.mp
    (by decide : (Pmm.pmmInit Ownership.upperMemoryRam Ownership.upperMemoryInfo 0x110000#32
      2).isSome = true)
  obtain ⟨wf, total, -⟩ := Pmm.pmmInit_spec started
  have shown := always _ _ _ _ init started [] (Vector.replicate 12 0#8) (Vector.replicate 12 0#8)
    (Vector.replicate 12 0#8) (Vector.replicate 12 0#8)
  rw [addsUp_iff (wf.serveAll []).1, (wf.serveAll []).2, total] at shown
  exact absurd shown (by decide)

end Shell

end SoraOS
