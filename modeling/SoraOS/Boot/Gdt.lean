import SoraOS.Memory.Pmm
import SoraOS.Shared.Segments

set_option autoImplicit false

/-! `gdt.c` and `gdt_flush.asm`: the flat segments that everything else takes for granted. -/

namespace SoraOS

namespace Boot

open X86

-- `gdt_entry_t`, packed.
structure GdtEntry where
  limitLow : BitVec 16
  baseLow : BitVec 16
  baseMiddle : U8
  access : U8
  granularity : U8
  baseHigh : U8

def gdtSetEntry (base limit : U32) (access gran : U8) : GdtEntry where
  baseLow := (base &&& 0xFFFF#32).setWidth 16
  baseMiddle := ((base >>> 16) &&& 0xFF#32).setWidth 8
  baseHigh := ((base >>> 24) &&& 0xFF#32).setWidth 8
  limitLow := (limit &&& 0xFFFF#32).setWidth 16
  granularity := ((gran &&& 0xF0#8).setWidth 32 ||| ((limit >>> 16) &&& 0x0F#32)).setWidth 8
  access := access

def GdtEntry.bytes (e : GdtEntry) : List U8 := [
  e.limitLow.setWidth 8, (e.limitLow >>> 8).setWidth 8,
  e.baseLow.setWidth 8, (e.baseLow >>> 8).setWidth 8,
  e.baseMiddle, e.access, e.granularity, e.baseHigh]

theorem setWidth_and {w mask : U32} {n : Nat} (ones : mask.setWidth n = BitVec.allOnes n) :
    (w &&& mask).setWidth n = w.setWidth n := by
  rw [BitVec.setWidth_and, ones, BitVec.and_allOnes]

theorem granularity_low (limit : U32) (gran : U8) :
    (gdtSetEntry 0#32 limit 0#8 gran).granularity.extractLsb' 0 4 = limit.extractLsb' 16 4 := by
  apply BitVec.eq_of_getLsbD_eq
  intro i within
  have mask : ∀ j < 4, (0x0F#32).getLsbD j = true ∧ (0xF0#8).getLsbD j = false := by decide
  simp only [gdtSetEntry, BitVec.getLsbD_setWidth, BitVec.getLsbD_ushiftRight, BitVec.getLsbD_or,
    BitVec.getLsbD_and, BitVec.getLsbD_extractLsb']
  grind

theorem granularity_high (limit : U32) (gran : U8) :
    (gdtSetEntry 0#32 limit 0#8 gran).granularity.extractLsb' 4 4 = gran.extractLsb' 4 4 := by
  apply BitVec.eq_of_getLsbD_eq
  intro i within
  have mask : ∀ j < 4, (0x0F#32).getLsbD (4 + j) = false ∧ (0xF0#8).getLsbD (4 + j) = true := by
    decide
  simp only [gdtSetEntry, BitVec.getLsbD_setWidth, BitVec.getLsbD_ushiftRight, BitVec.getLsbD_or,
    BitVec.getLsbD_and, BitVec.getLsbD_extractLsb']
  grind

/--
The CPU finds in an entry what `gdt_set_entry` was called with; of the limit only 20 bits, and of
`gran` only the upper half.
-/
theorem gdt_entry_decoded (base limit : U32) (access gran : U8) :
    Descriptor.decode (fun i => (gdtSetEntry base limit access gran).bytes.getD i 0#8) =
      { base := base
        limit := limit.setWidth 20
        access := access
        flags := gran.extractLsb' 4 4 } := by
  simp only [Descriptor.decode, GdtEntry.bytes, List.getD_cons_zero, List.getD_cons_succ]
  congr 1
  next =>
    simp only [gdtSetEntry]
    rw [setWidth_and (by decide), setWidth_and (by decide), setWidth_and (by decide)]
    apply BitVec.eq_of_getLsbD_eq
    intro i within
    simp only [BitVec.getLsbD_append, BitVec.getLsbD_setWidth, BitVec.getLsbD_ushiftRight]
    grind
  next =>
    have high : (gdtSetEntry base limit access gran).granularity.extractLsb' 0 4 =
        limit.extractLsb' 16 4 := granularity_low limit gran
    rw [high]
    simp only [gdtSetEntry]
    rw [setWidth_and (by decide)]
    apply BitVec.eq_of_getLsbD_eq
    intro i within
    simp only [BitVec.getLsbD_append, BitVec.getLsbD_setWidth, BitVec.getLsbD_ushiftRight,
      BitVec.getLsbD_extractLsb']
    grind
  next => exact granularity_high limit gran

def gdtEntries : List GdtEntry := [
  gdtSetEntry 0#32 0#32 0#8 0#8,
  gdtSetEntry 0x00000000#32 0xFFFFF#32 0x9A#8 0xCF#8,
  gdtSetEntry 0x00000000#32 0xFFFFF#32 0x92#8 0xCF#8]

def gdtBytes : List U8 := gdtEntries.flatMap GdtEntry.bytes

-- `gdt_ptr_t`, packed.
structure GdtPtr where
  limit : BitVec 16
  base : U32

def GdtPtr.bytes (p : GdtPtr) : List U8 := [
  p.limit.setWidth 8, (p.limit >>> 8).setWidth 8,
  p.base.setWidth 8, (p.base >>> 8).setWidth 8, (p.base >>> 16).setWidth 8,
  (p.base >>> 24).setWidth 8]

def gdtPtr (entries : U32) : GdtPtr where
  limit := BitVec.ofNat 16 (gdtBytes.length - 1)
  base := entries

-- `gdt_flush.asm`; `flush` is the address of its label.
def gdtFlush (s : Segmented) (flush : U32) : Option Segmented := do
  let s ← s.loadEax 4#32
  let s ← s.lgdt
  let s ← s.jmpFar 0x08#16 flush
  let s := s.movAx 0x10#16
  let s ← s.movSegAx .ds
  let s ← s.movSegAx .es
  let s ← s.movSegAx .fs
  let s ← s.movSegAx .gs
  let s ← s.movSegAx .ss
  s.ret

structure GdtPlaces where
  entries : U32
  ptr : U32
  flush : U32
  returnAddress : U32

def gdtInitMemory (memory : Memory) (places : GdtPlaces) (esp : U32) : Memory :=
  let memory := storeBytes memory places.entries gdtBytes
  let memory := storeBytes memory places.ptr (gdtPtr places.entries).bytes
  -- the argument and the return address of `gdt_flush(&gdt_ptr)`
  let memory := storeWord memory (esp - 4#32) places.ptr
  storeWord memory (esp - 4#32 - 4#32) places.returnAddress

def gdtInit (s : Segmented) (places : GdtPlaces) : Option Segmented :=
  let esp := s.cpu.reg .esp
  gdtFlush { s with
    cpu := s.cpu.set .esp (esp - 4#32 - 4#32)
    memory := gdtInitMemory s.memory places esp } places.flush

def kernelCode : Descriptor :=
  { base := 0#32, limit := 0xFFFFF#20, access := 0x9A#8, flags := 0xC#4 }

def kernelData : Descriptor :=
  { base := 0#32, limit := 0xFFFFF#20, access := 0x92#8, flags := 0xC#4 }

-- Where an entry is in use, the lowest bit of its access byte is set.
def marked (i : Nat) (byte : U8) : U8 := if i % 8 = 5 then byte ||| 1#8 else byte

/-- The CPU uses the table of `gdt_init`, which is still in memory but for the accessed bits. -/
structure HoldsGdt (s : Segmented) : Prop where
  limit : s.gdtLimit = 23#16
  bytes : ∀ i < 24,
    marked i (s.memory (s.gdtBase + BitVec.ofNat 32 i)) = marked i (gdtBytes.getD i 0#8)

theorem decode_congr {bytes bytes' : Nat → U8}
    (same : ∀ i < 8, marked i (bytes i) = marked i (bytes' i)) :
    (Descriptor.decode bytes).accessed = (Descriptor.decode bytes').accessed := by
  have zero := same 0 (by decide)
  have one := same 1 (by decide)
  have two := same 2 (by decide)
  have three := same 3 (by decide)
  have four := same 4 (by decide)
  have access := same 5 (by decide)
  have six := same 6 (by decide)
  have seven := same 7 (by decide)
  simp only [marked, Nat.reduceMod, Nat.reduceEqDiff, if_true, if_false]
    at zero one two three four access six seven
  simp only [Descriptor.accessed, Descriptor.decode, zero, one, two, three, four, access, six, seven]

theorem HoldsGdt.entry {s : Segmented} (h : HoldsGdt s) {n : Nat} (inside : n < 3) :
    (Descriptor.decode fun i => s.memory (s.gdtBase + BitVec.ofNat 32 (n * 8 + i))).accessed =
      (Descriptor.decode fun i => gdtBytes.getD (n * 8 + i) 0#8).accessed := by
  apply decode_congr
  intro i within
  have place : (n * 8 + i) % 8 = i % 8 := by omega
  have same := h.bytes (n * 8 + i) (by omega)
  simp only [marked, place] at same
  exact same

theorem HoldsGdt.fetch {s : Segmented} (h : HoldsGdt s) (selector : BitVec 16) :
    (s.fetch selector).map Descriptor.accessed =
      if selector.getLsbD 2 then none
      else match selector.toNat / 8 with
        | 1 => some kernelCode.accessed
        | 2 => some kernelData.accessed
        | _ => none := by
  have code := (h.entry (n := 1) (by decide)).trans (congrArg Descriptor.accessed
    (gdt_entry_decoded 0x00000000#32 0xFFFFF#32 0x9A#8 0xCF#8))
  have data := (h.entry (n := 2) (by decide)).trans (congrArg Descriptor.accessed
    (gdt_entry_decoded 0x00000000#32 0xFFFFF#32 0x92#8 0xCF#8))
  simp only [Segmented.fetch, h.limit]
  cases selector.getLsbD 2 with
  | true => rfl
  | false =>
      by_cases first : selector.toNat / 8 = 1
      next =>
        rw [first]
        exact congrArg some code
      next =>
        by_cases second : selector.toNat / 8 = 2
        next =>
          rw [second]
          exact congrArg some data
        next =>
          have outside : selector.toNat / 8 * 8 = 0 ∨
              (23#16).toNat < selector.toNat / 8 * 8 + 7 := by
            rw [BitVec.toNat_ofNat]
            omega
          simp only [Bool.false_or, Bool.or_eq_true, beq_iff_eq, decide_eq_true_eq, outside,
            if_true, Bool.false_eq_true, if_false, Option.map_none]

theorem translate_last {d : Descriptor} (up : (d.data && d.direction) = false)
    (base : d.base = 0#32) (last : d.last = BitVec.allOnes 32) (offset : U32) :
    d.translate offset = some offset := by
  have inside : offset ≤ BitVec.allOnes 32 := by
    rw [BitVec.le_def, BitVec.toNat_allOnes]
    omega
  rw [Descriptor.translate, up, last, if_neg (by decide), if_pos inside, base, BitVec.zero_add]

theorem kernelCode_translate (offset : U32) : kernelCode.translate offset = some offset :=
  translate_last (by decide) rfl (by decide) offset

theorem kernelData_translate (offset : U32) : kernelData.translate offset = some offset :=
  translate_last (by decide) rfl (by decide) offset

theorem HoldsGdt.jmpFar {s : Segmented} (h : HoldsGdt s) (target : U32) :
    s.jmpFar 0x08#16 target =
      some { s.setSegment .cs 0x08#16 kernelCode with
        cpu := (s.setSegment .cs 0x08#16 kernelCode).cpu.jump target } := by
  obtain ⟨d, found, same⟩ := Option.map_eq_some_iff.mp (h.fetch 0x08#16)
  have usable : (Segmented.usable 0x08#16 d && d.code) = true := by
    rw [← Segmented.usable_accessed, ← Descriptor.accessed_code, same]
    decide
  rw [Segmented.jmpFar, found, Option.bind_eq_bind, Option.bind_some, if_pos usable,
    s.setSegment_congr .cs 0x08#16 same]
  rfl

theorem HoldsGdt.movSegAx {s : Segmented} (h : HoldsGdt s) {register : Seg} (notCs : register ≠ .cs)
    (ax : (s.cpu.reg .eax).setWidth 16 = 0x10#16) :
    s.movSegAx register = some (s.setSegment register 0x10#16 kernelData) := by
  obtain ⟨d, found, same⟩ := Option.map_eq_some_iff.mp (h.fetch 0x10#16)
  have usable : (Segmented.usable 0x10#16 d && Segmented.fits register d) = true := by
    rw [← Segmented.usable_accessed, ← Segmented.fits_accessed, same]
    cases register with
    | cs => exact absurd rfl notCs
    | ss | ds | es | fs | gs => decide
  rw [Segmented.movSegAx, ax, Segmented.loadSegment, if_neg (by simp), found, Option.bind_eq_bind,
    Option.bind_some, if_pos usable, s.setSegment_congr register 0x10#16 same]
  rfl

theorem gdtPtr_limit (entries : U32) :
    ((gdtPtr entries).bytes.getD 1 0#8 ++ (gdtPtr entries).bytes.getD 0 0#8 : BitVec 16) =
      23#16 := by
  have last : BitVec.ofNat 16 (gdtBytes.length - 1) = 23#16 := by decide
  simp only [gdtPtr, GdtPtr.bytes, last, List.getD_cons_zero, List.getD_cons_succ]
  decide

theorem gdtPtr_base (entries : U32) :
    (gdtPtr entries).bytes.getD 5 0#8 ++ (gdtPtr entries).bytes.getD 4 0#8 ++
      (gdtPtr entries).bytes.getD 3 0#8 ++ (gdtPtr entries).bytes.getD 2 0#8 = entries := by
  simp only [gdtPtr, GdtPtr.bytes, List.getD_cons_zero, List.getD_cons_succ]
  apply BitVec.eq_of_getLsbD_eq
  intro i within
  simp only [BitVec.getLsbD_append, BitVec.getLsbD_setWidth, BitVec.getLsbD_ushiftRight]
  grind

theorem lgdt_gdtPtr {s : Segmented} (flat : s.Flat) {entries ptr : U32}
    (operand : s.cpu.reg .eax = ptr)
    (pointer : ∀ i < 6, s.memory (ptr + BitVec.ofNat 32 i) = (gdtPtr entries).bytes.getD i 0#8) :
    s.lgdt = some { s with gdtBase := entries, gdtLimit := 23#16 } := by
  have first : s.memory ptr = (gdtPtr entries).bytes.getD 0 0#8 := by
    simpa using pointer 0 (by decide)
  have second : s.memory (ptr + 1#32) = (gdtPtr entries).bytes.getD 1 0#8 := pointer 1 (by decide)
  have word : loadWord s.memory (ptr + 2#32) = entries := by
    rw [loadWord, BitVec.add_assoc, BitVec.add_assoc, BitVec.add_assoc]
    refine Eq.trans ?_ (gdtPtr_base entries)
    rw [← pointer 2 (by decide), ← pointer 3 (by decide), ← pointer 4 (by decide),
      ← pointer 5 (by decide)]
    rfl
  simp only [Segmented.lgdt, operand, flat.readByte, flat.readWord, Option.bind_eq_bind,
    Option.bind_some, word, first, second, gdtPtr_limit]
  rfl

structure FlushFinds (s : Segmented) (entries ptr : U32) : Prop where
  argument : loadWord s.memory (s.cpu.reg .esp + 4#32) = ptr
  pointer : ∀ i < 6, s.memory (ptr + BitVec.ofNat 32 i) = (gdtPtr entries).bytes.getD i 0#8
  table : ∀ i < 24, s.memory (entries + BitVec.ofNat 32 i) = gdtBytes.getD i 0#8
  apart : X86.Apart entries 24 (s.cpu.reg .esp) 4

theorem HoldsGdt.setSegment {s : Segmented} (h : HoldsGdt s) (register : Seg)
    (selector : BitVec 16) (d : Descriptor) : HoldsGdt (s.setSegment register selector d) := by
  refine ⟨h.limit, fun i within => ?_⟩
  have bytes := h.bytes i within
  simp only [Segmented.setSegment]
  by_cases here : s.gdtBase + BitVec.ofNat 32 i =
      s.gdtBase + BitVec.ofNat 32 (selector.toNat / 8 * 8 + 5)
  next =>
    have place : i % 8 = 5 := by
      have small := selector.isLt
      have same : i = selector.toNat / 8 * 8 + 5 := by
        have offsets := (BitVec.add_right_inj _).mp here
        rw [← BitVec.toNat_inj, BitVec.toNat_ofNat, BitVec.toNat_ofNat] at offsets
        omega
      omega
    rw [← here, touch, Function.update_self, marked, if_pos place, BitVec.or_assoc, BitVec.or_self]
    rw [marked, if_pos place] at bytes
    exact bytes
  next =>
    rw [touch_apart here]
    exact bytes

-- The access bytes of both segments, once they are loaded.
def loadedTable (memory : Memory) (entries : U32) : Memory :=
  touch (touch memory (entries + 13#32)) (entries + 21#32)

theorem loadWord_loadedTable {memory : Memory} {entries a : U32} (apart : X86.Apart entries 24 a 4) :
    loadWord (loadedTable memory entries) a = loadWord memory a := by
  apply loadWord_congr
  intro i within
  have code := apart 13 (by decide)
  have data := apart 21 (by decide)
  have notCode : a + BitVec.ofNat 32 i ≠ entries + 13#32 := by bv_omega
  have notData : a + BitVec.ofNat 32 i ≠ entries + 21#32 := by bv_omega
  rw [loadedTable, touch_apart notData, touch_apart notCode]

theorem HoldsGdt.movSegs {s : Segmented} (h : HoldsGdt s) (flat : s.Flat)
    (ax : (s.cpu.reg .eax).setWidth 16 = 0x10#16) (registers : List Seg)
    (notCs : .cs ∉ registers) :
    ∃ s', registers.foldlM Segmented.movSegAx s = some s' ∧ HoldsGdt s' ∧ s'.Flat ∧
      s'.memory = (if registers = [] then s.memory else touch s.memory (s.gdtBase + 21#32)) ∧
      s'.gdtBase = s.gdtBase ∧ s'.cpu.eflags = s.cpu.eflags ∧ s'.cpu.reg = s.cpu.reg ∧
      ∀ register, s'.cpu.seg register = if register ∈ registers then 0x10#16
        else s.cpu.seg register := by
  induction registers generalizing s with
  | nil => exact ⟨s, rfl, h, flat, rfl, rfl, rfl, rfl, fun _ => rfl⟩
  | cons register rest ih =>
      rw [List.mem_cons, not_or] at notCs
      obtain ⟨s', ran, holds, flat', memory, base, eflags, reg, seg⟩ :=
        ih (h.setSegment register 0x10#16 kernelData)
          (flat.setSegment register 0x10#16 kernelData_translate) ax notCs.2
      refine ⟨s', ?_, holds, flat', ?_, base, eflags, reg, ?_⟩
      · rw [List.foldlM_cons, h.movSegAx (Ne.symm notCs.1) ax]
        exact ran
      · -- The second load finds the bit set.
        have loaded : (s.setSegment register 0x10#16 kernelData).memory =
            touch s.memory (s.gdtBase + 21#32) := rfl
        have place : (s.setSegment register 0x10#16 kernelData).gdtBase = s.gdtBase := rfl
        rw [memory, loaded, place, touch_touch, ite_self, if_neg (List.cons_ne_nil register rest)]
      · intro other
        rw [seg]
        by_cases later : other ∈ rest
        next => simp [later]
        next =>
          by_cases now : other = register
          next => simp [now, Segmented.setSegment]
          next => simp [now, later, Segmented.setSegment]

theorem gdtFlush_run {s : Segmented} (flat : s.Flat) {entries ptr : U32}
    (finds : FlushFinds s entries ptr) (flush : U32) :
    ∃ s', gdtFlush s flush = some s' ∧ HoldsGdt s' ∧ s'.Flat ∧
      s'.memory = loadedTable s.memory entries ∧ s'.gdtBase = entries ∧
      s'.cpu.eip = loadWord s.memory (s.cpu.reg .esp) ∧ s'.cpu.eflags = s.cpu.eflags ∧
      (∀ register, s'.cpu.seg register = if register = .cs then 0x08#16 else 0x10#16) ∧
      ∀ r, r ≠ .eax → s'.cpu.reg r = if r = .esp then s.cpu.reg .esp + 4#32 else s.cpu.reg r := by
  let s₁ : Segmented := { s with cpu := s.cpu.set .eax ptr }
  have loaded : s.loadEax 4#32 = some s₁ := by
    simp [Segmented.loadEax, flat.readWord, finds.argument, s₁]
  let s₂ : Segmented := { s₁ with gdtBase := entries, gdtLimit := 23#16 }
  have flat₁ : s₁.Flat := flat
  have table : s₁.lgdt = some s₂ := lgdt_gdtPtr flat₁ (by simp [s₁]) finds.pointer
  have holds₂ : HoldsGdt s₂ := ⟨rfl, fun i within => congrArg (marked i) (finds.table i within)⟩
  let s₃ : Segmented := { s₂.setSegment .cs 0x08#16 kernelCode with
    cpu := ((s₂.setSegment .cs 0x08#16 kernelCode).cpu.jump flush).setAx 0x10#16 }
  have marks := holds₂.setSegment .cs 0x08#16 kernelCode
  have holds₃ : HoldsGdt s₃ := ⟨marks.limit, marks.bytes⟩
  have flat₂ : s₂.Flat := flat₁
  have flat₃ : s₃.Flat := flat₂.setSegment .cs 0x08#16 kernelCode_translate
  obtain ⟨s₄, ran, holds, flat₄, memory, base, eflags, reg, seg⟩ :=
    holds₃.movSegs flat₃ (by simp [s₃, Registers.setAx]) [.ds, .es, .fs, .gs, .ss] (by decide)
  have text : gdtFlush s flush =
      ([.ds, .es, .fs, .gs, .ss].foldlM Segmented.movSegAx s₃).bind Segmented.ret := by
    simp only [gdtFlush, loaded, table, holds₂.jmpFar, Option.bind_eq_bind, Option.bind_some,
      List.foldlM_cons, List.foldlM_nil, Option.bind_assoc]
    rfl
  rw [text, ran, Option.bind_some, Segmented.ret, flat₄.readWord]
  have esp : s₄.cpu.reg .esp = s.cpu.reg .esp := by
    rw [reg]
    simp [s₃, s₂, s₁, Registers.setAx, Segmented.setSegment]
  have both : s₄.memory = loadedTable s.memory entries := memory
  refine ⟨_, rfl, ⟨holds.limit, holds.bytes⟩, flat₄, both, base, ?_, eflags, ?_, ?_⟩
  · show loadWord s₄.memory (s₄.cpu.reg .esp) = _
    rw [esp, both, loadWord_loadedTable finds.apart]
  · intro register
    show s₄.cpu.seg register = _
    rw [seg]
    cases register <;> simp [s₃, Registers.setAx, Segmented.setSegment]
  · intro r notEax
    rw [Registers.jump_reg, Registers.set_reg, esp]
    split
    next => rfl
    next =>
      rw [reg]
      simp [s₃, s₂, s₁, Registers.setAx, Segmented.setSegment, notEax]

structure GdtPlaces.Apart (places : GdtPlaces) (esp : U32) : Prop where
  ptrEntries : X86.Apart places.entries 24 places.ptr 6
  entriesStack : X86.Apart places.entries 24 (esp - 4#32 - 4#32) 8
  ptrStack : X86.Apart places.ptr 6 (esp - 4#32 - 4#32) 8

theorem storeCall_apart {memory : Memory} {esp b : U32} {n i : Nat}
    (apart : X86.Apart b n (esp - 4#32 - 4#32) 8) (within : i < n) (w w' : U32) :
    storeWord (storeWord memory (esp - 4#32) w) (esp - 4#32 - 4#32) w' (b + BitVec.ofNat 32 i) =
      memory (b + BitVec.ofNat 32 i) := by
  have outside := apart i within
  rw [storeWord_apart _ (by omega), storeWord_apart]
  bv_omega

theorem finds_gdtInit {s : Segmented} {places : GdtPlaces} (apart : places.Apart (s.cpu.reg .esp)) :
    let called : Segmented := { s with
      cpu := s.cpu.set .esp (s.cpu.reg .esp - 4#32 - 4#32)
      memory := gdtInitMemory s.memory places (s.cpu.reg .esp) }
    FlushFinds called places.entries places.ptr ∧
      loadWord called.memory (called.cpu.reg .esp) = places.returnAddress := by
  have bytes : gdtBytes.length = 24 := by decide
  have words := ((wordsAt_nil (storeBytes (storeBytes s.memory places.entries gdtBytes) places.ptr
    (gdtPtr places.entries).bytes) (s.cpu.reg .esp)).store places.ptr (by simp)).store
      places.returnAddress (by simp)
  rw [wordsAt_cons, wordsAt_cons] at words
  intro called
  have esp : called.cpu.reg .esp = s.cpu.reg .esp - 4#32 - 4#32 := by simp [called]
  refine ⟨⟨?_, ?_, ?_, ?_⟩, ?_⟩
  · rw [esp]
    exact words.2.1
  · intro i within
    rw [show called.memory = gdtInitMemory s.memory places (s.cpu.reg .esp) from rfl, gdtInitMemory,
      storeCall_apart apart.ptrStack within, storeBytes_byte _ _ (by simp [GdtPtr.bytes]) within]
  · intro i within
    rw [show called.memory = gdtInitMemory s.memory places (s.cpu.reg .esp) from rfl, gdtInitMemory,
      storeCall_apart apart.entriesStack within, storeBytes_apart apart.ptrEntries within,
      storeBytes_byte _ _ (by omega) (by omega)]
  · rw [esp]
    exact fun i within => Nat.le_trans (by decide) (apart.entriesStack i within)
  · rw [esp]
    exact words.1

/--
`gdt_flush` returns into `gdt_init`, its argument still on the stack, with every segment register
reloaded and all of memory at the same addresses as before.
-/
theorem gdt_flat {s : Segmented} (flat : s.Flat) {places : GdtPlaces}
    (apart : places.Apart (s.cpu.reg .esp)) :
    ∃ s', gdtInit s places = some s' ∧ HoldsGdt s' ∧ s'.Flat ∧
      s'.gdtBase = places.entries ∧ s'.cpu.eip = places.returnAddress ∧
      s'.cpu.eflags = s.cpu.eflags ∧
      (∀ register, s'.cpu.seg register = if register = .cs then 0x08#16 else 0x10#16) ∧
      ∀ r, r ≠ .eax → s'.cpu.reg r = if r = .esp then s.cpu.reg .esp - 4#32 else s.cpu.reg r := by
  have found := finds_gdtInit apart
  obtain ⟨s', ran, holds, flat', -, base, eip, eflags, seg, reg⟩ :=
    gdtFlush_run (s := { s with
      cpu := s.cpu.set .esp (s.cpu.reg .esp - 4#32 - 4#32)
      memory := gdtInitMemory s.memory places (s.cpu.reg .esp) }) flat found.1 places.flush
  refine ⟨s', ran, holds, flat', base, eip.trans found.2, eflags, seg, ?_⟩
  intro r notEax
  rw [reg r notEax]
  split
  next => simp
  next notEsp => simp [notEsp]

def handedOver : Segmented where
  cpu := { reg := fun r => if r = .esp then 0x110000#32 else 0#32
           seg := fun register => if register = .cs then 0x18#16 else 0x20#16
           eip := 0x100000#32
           eflags := 2#32 }
  memory := fun _ => 0#8
  gdtBase := 0x8000#32
  gdtLimit := 0x2F#16
  hidden := fun register => if register = .cs then some kernelCode else some kernelData

def linkedAt : GdtPlaces where
  entries := 0x104000#32
  ptr := 0x104018#32
  flush := 0x10101B#32
  returnAddress := 0x100F40#32

theorem flat_handedOver : handedOver.Flat := by
  intro register offset
  cases register with
  | cs => exact kernelCode_translate offset
  | ss | ds | es | fs | gs => exact kernelData_translate offset

theorem gdt_flat_handedOver : ∃ s', gdtInit handedOver linkedAt = some s' ∧ HoldsGdt s' ∧ s'.Flat ∧
    s'.gdtBase = linkedAt.entries ∧ s'.cpu.eip = linkedAt.returnAddress ∧
    s'.cpu.eflags = handedOver.cpu.eflags ∧
    (∀ register, s'.cpu.seg register = if register = .cs then 0x08#16 else 0x10#16) ∧
    ∀ r, r ≠ .eax → s'.cpu.reg r =
      if r = .esp then handedOver.cpu.reg .esp - 4#32 else handedOver.cpu.reg r :=
  gdt_flat flat_handedOver
    ⟨by unfold X86.Apart; decide, by unfold X86.Apart; decide, by unfold X86.Apart; decide⟩

theorem selector_eq (selector : BitVec 16) {n : Nat} (small : n < 8192) :
    selector = BitVec.ofNat 16 (8 * n) ↔
      selector.getLsbD 2 = false ∧ selector.extractLsb' 0 2 = 0#2 ∧ selector.toNat / 8 = n := by
  have bit : selector.getLsbD 2 = decide (selector.toNat / 4 % 2 = 1) := by
    rw [BitVec.getLsbD, Nat.testBit_eq_decide_div_mod_eq]
  have ring : selector.extractLsb' 0 2 = 0#2 ↔ selector.toNat % 4 = 0 := by
    rw [← BitVec.toNat_inj, BitVec.extractLsb'_toNat]
    simp
  rw [bit, ring, decide_eq_false_iff_not, ← BitVec.toNat_inj, BitVec.toNat_ofNat,
    Nat.mod_eq_of_lt (by omega)]
  omega

theorem HoldsGdt.usable {s : Segmented} (h : HoldsGdt s) (selector : BitVec 16)
    {fits : Descriptor → Bool} (same : ∀ d : Descriptor, fits d.accessed = fits d) :
    (∃ d, s.fetch selector = some d ∧ (Segmented.usable selector d && fits d) = true) ↔
      selector = 0x08#16 ∧ fits kernelCode = true ∨ selector = 0x10#16 ∧ fits kernelData = true := by
  have code := selector_eq selector (n := 1) (by decide)
  have data := selector_eq selector (n := 2) (by decide)
  have usable : ∀ d ∈ [kernelCode, kernelData],
      Segmented.usable selector d = decide (selector.extractLsb' 0 2 = 0#2) := by
    intro d member
    have both : d.present = true ∧ d.level = 0#2 := by
      revert member
      revert d
      decide
    rw [Segmented.usable, both.1, both.2]
    simp [beq_eq_decide]
  -- The accessed bit does not matter to a load.
  have accessed : (∃ d, s.fetch selector = some d ∧
        (Segmented.usable selector d && fits d) = true) ↔
      ∃ d, (s.fetch selector).map Descriptor.accessed = some d ∧
        (Segmented.usable selector d && fits d) = true := by
    cases s.fetch selector <;> simp [same]
  rw [accessed, h.fetch, code, data]
  cases selector.getLsbD 2 with
  | true => simp
  | false =>
      by_cases first : selector.toNat / 8 = 1
      next => simp [first, usable, same]
      next =>
        by_cases second : selector.toNat / 8 = 2
        next => simp [second, usable, same]
        next => simp [first, second]

/--
While the table stands, 0x08 is the one selector for code and 0x10 the one for the stack, and the
other segment registers take these two or a null selector.
-/
theorem gdt_selectors {s : Segmented} (h : HoldsGdt s) (selector : BitVec 16) :
    (∀ target, s.jmpFar selector target ≠ none ↔ selector = 0x08#16) ∧
      (s.loadSegment .ss selector ≠ none ↔ selector = 0x10#16) ∧
      ∀ register ∈ [Seg.ds, .es, .fs, .gs], s.loadSegment register selector ≠ none ↔
        selector.toNat < 4 ∨ selector = 0x08#16 ∨ selector = 0x10#16 := by
  have codeOnly : kernelCode.code = true ∧ kernelData.code = false := by decide
  have stackOnly : Segmented.fits .ss kernelCode = false ∧ Segmented.fits .ss kernelData = true := by
    decide
  refine ⟨?_, ?_, ?_⟩
  · intro target
    rw [Segmented.jmpFar_ne_none, h.usable _ Descriptor.accessed_code]
    simp [codeOnly]
  · rw [Segmented.loadSegment_ne_none, h.usable _ (Segmented.fits_accessed .ss)]
    simp [stackOnly]
  · intro register data
    have both : register ∉ [Seg.cs, .ss] ∧ Segmented.fits register kernelCode = true ∧
        Segmented.fits register kernelData = true := by
      revert register
      decide
    rw [Segmented.loadSegment_ne_none, h.usable _ (Segmented.fits_accessed register)]
    simp only [both, not_false_eq_true, true_and, and_true]

def afterGdtInit : Segmented :=
  { handedOver with
    memory := storeBytes handedOver.memory linkedAt.entries gdtBytes
    gdtBase := linkedAt.entries
    gdtLimit := 23#16 }

theorem gdt_selectors_loader :
    afterGdtInit.jmpFar 0x18#16 0#32 = none ∧ afterGdtInit.loadSegment .ss 0x20#16 = none := by
  have holds : HoldsGdt afterGdtInit := ⟨rfl, by decide⟩
  have code := (gdt_selectors holds 0x18#16).1 0#32
  have stack := (gdt_selectors holds 0x20#16).2.1
  constructor
  next => exact not_not.mp fun loads => absurd (code.mp loads) (by decide)
  next => exact not_not.mp fun loads => absurd (stack.mp loads) (by decide)

end Boot

end SoraOS
