import SoraOS.Shared.StackMachine

set_option autoImplicit false

/-!
# Segments in protected mode

Descriptors of eight bytes, how the CPU reads them, and when a selector may be loaded in ring 0.
-/

namespace X86

structure Descriptor where
  base : Word
  limit : BitVec 20
  access : BitVec 8
  -- G, D/B, L and AVL
  flags : BitVec 4
  deriving DecidableEq

namespace Descriptor

def decode (bytes : Nat → BitVec 8) : Descriptor where
  base := bytes 7 ++ bytes 4 ++ bytes 3 ++ bytes 2
  limit := (bytes 6).extractLsb' 0 4 ++ bytes 1 ++ bytes 0
  access := bytes 5
  flags := (bytes 6).extractLsb' 4 4

def present (d : Descriptor) : Bool := d.access.getLsbD 7
def level (d : Descriptor) : BitVec 2 := d.access.extractLsb' 5 2
-- Code or data, not a gate or a system segment.
def ordinary (d : Descriptor) : Bool := d.access.getLsbD 4
def code (d : Descriptor) : Bool := d.ordinary && d.access.getLsbD 3
def data (d : Descriptor) : Bool := d.ordinary && !d.access.getLsbD 3
-- Conforming code, or data that expands down.
def direction (d : Descriptor) : Bool := d.access.getLsbD 2
-- Readable code, or writable data.
def wide (d : Descriptor) : Bool := d.access.getLsbD 1

/-- As it stands once a selector of it has been loaded. -/
def accessed (d : Descriptor) : Descriptor := { d with access := d.access ||| 1#8 }

-- The largest offset, which counts in pages where bit G is set.
def last (d : Descriptor) : Word :=
  if d.flags.getLsbD 3 then d.limit ++ 0xFFF#12 else d.limit.setWidth 32

-- The linear address of an offset; data that expands down lies above the limit.
def translate (d : Descriptor) (offset : Word) : Option Word :=
  if d.data && d.direction then
    if d.last < offset then some (d.base + offset) else none
  else if offset ≤ d.last then some (d.base + offset)
  else none

theorem getLsbD_accessed (access : BitVec 8) {i : Nat} (other : i ≠ 0) :
    (access ||| 1#8).getLsbD i = access.getLsbD i := by
  have bit : (1#8).getLsbD i = false := by simp [BitVec.getLsbD_one, other]
  rw [BitVec.getLsbD_or, bit, Bool.or_false]

@[simp] theorem accessed_present (d : Descriptor) : d.accessed.present = d.present :=
  getLsbD_accessed d.access (by decide)

@[simp] theorem accessed_ordinary (d : Descriptor) : d.accessed.ordinary = d.ordinary :=
  getLsbD_accessed d.access (by decide)

@[simp] theorem accessed_direction (d : Descriptor) : d.accessed.direction = d.direction :=
  getLsbD_accessed d.access (by decide)

@[simp] theorem accessed_wide (d : Descriptor) : d.accessed.wide = d.wide :=
  getLsbD_accessed d.access (by decide)

@[simp] theorem accessed_code (d : Descriptor) : d.accessed.code = d.code := by
  rw [code, code, accessed_ordinary, accessed, getLsbD_accessed d.access (by decide)]

@[simp] theorem accessed_data (d : Descriptor) : d.accessed.data = d.data := by
  rw [data, data, accessed_ordinary, accessed, getLsbD_accessed d.access (by decide)]

@[simp] theorem accessed_level (d : Descriptor) : d.accessed.level = d.level := by
  apply BitVec.eq_of_getLsbD_eq
  intro i within
  simp only [level, accessed, BitVec.getLsbD_extractLsb', getLsbD_accessed d.access
    (i := 5 + i) (by omega)]

@[simp] theorem accessed_translate (d : Descriptor) (offset : Word) :
    d.accessed.translate offset = d.translate offset := by
  have last : d.accessed.last = d.last := rfl
  have base : d.accessed.base = d.base := rfl
  rw [translate, translate, accessed_data, accessed_direction, last, base]

end Descriptor

/-- One bit is set in place, by the CPU itself. -/
def touch (memory : Memory) (a : Word) : Memory := Function.update memory a (memory a ||| 1#8)

theorem touch_apart {memory : Memory} {a b : Word} (apart : b ≠ a) :
    touch memory a b = memory b :=
  Function.update_of_ne apart _ _

theorem touch_touch (memory : Memory) (a : Word) :
    touch (touch memory a) a = touch memory a := by
  rw [touch, touch, Function.update_idem, Function.update_self, BitVec.or_assoc, BitVec.or_self]

/-- A CPU in ring 0 with its descriptor table, and what was loaded along with each selector. -/
structure Segmented where
  cpu : Registers
  memory : Memory
  gdtBase : Word
  gdtLimit : BitVec 16
  hidden : Seg → Option Descriptor

namespace Segmented

-- The descriptor of a selector in the global table; the first one is never used.
def fetch (s : Segmented) (selector : BitVec 16) : Option Descriptor :=
  let offset := selector.toNat / 8 * 8
  if selector.getLsbD 2 || offset == 0 || decide (s.gdtLimit.toNat < offset + 7) then none
  else some (Descriptor.decode fun i => s.memory (s.gdtBase + BitVec.ofNat 32 (offset + i)))

-- Ring 0 asks for it, and may.
def usable (selector : BitVec 16) (d : Descriptor) : Bool :=
  d.present && selector.extractLsb' 0 2 == 0#2 && d.level == 0#2

-- The CPU also marks the descriptor in the table.
def setSegment (s : Segmented) (register : Seg) (selector : BitVec 16) (d : Descriptor) :
    Segmented :=
  { s with
    cpu := s.cpu.setSeg register selector
    memory := touch s.memory (s.gdtBase + BitVec.ofNat 32 (selector.toNat / 8 * 8 + 5))
    hidden := Function.update s.hidden register (some d.accessed) }

def jmpFar (s : Segmented) (selector : BitVec 16) (target : Word) : Option Segmented := do
  let d ← s.fetch selector
  if usable selector d && d.code then
    let s := s.setSegment .cs selector d
    return { s with cpu := s.cpu.jump target }
  else none

-- What a `mov` to a segment register takes; only jumps load CS.
def fits (register : Seg) (d : Descriptor) : Bool :=
  match register with
  | .cs => false
  | .ss => d.data && d.wide
  | _ => d.data || d.code && d.wide

-- A null selector may be loaded, but not used afterwards.
def loadSegment (s : Segmented) (register : Seg) (selector : BitVec 16) : Option Segmented :=
  if register ∉ [Seg.cs, .ss] ∧ selector.toNat < 4 then
    some { s with
      cpu := s.cpu.setSeg register selector
      hidden := Function.update s.hidden register none }
  else do
    let d ← s.fetch selector
    if usable selector d && fits register d then return s.setSegment register selector d else none

@[simp] theorem usable_accessed (selector : BitVec 16) (d : Descriptor) :
    usable selector d.accessed = usable selector d := by simp [usable]

@[simp] theorem fits_accessed (register : Seg) (d : Descriptor) :
    fits register d.accessed = fits register d := by
  cases register <;> simp [fits]

theorem setSegment_congr (s : Segmented) (register : Seg) (selector : BitVec 16)
    {d d' : Descriptor} (same : d.accessed = d'.accessed) :
    s.setSegment register selector d = s.setSegment register selector d' := by
  rw [setSegment, setSegment, same]

theorem jmpFar_ne_none (s : Segmented) (selector : BitVec 16) (target : Word) :
    s.jmpFar selector target ≠ none ↔
      ∃ d, s.fetch selector = some d ∧ (usable selector d && d.code) = true := by
  rw [jmpFar]
  cases s.fetch selector <;> simp

theorem loadSegment_ne_none (s : Segmented) (register : Seg) (selector : BitVec 16) :
    s.loadSegment register selector ≠ none ↔
      (register ∉ [Seg.cs, .ss] ∧ selector.toNat < 4) ∨
        ∃ d, s.fetch selector = some d ∧ (usable selector d && fits register d) = true := by
  rw [loadSegment]
  split
  next null => simp [null]
  next notNull =>
    simp only [notNull, false_or]
    cases s.fetch selector <;> simp

def linear (s : Segmented) (register : Seg) (offset : Word) : Option Word := do
  let d ← s.hidden register
  d.translate offset

def readByte (s : Segmented) (register : Seg) (offset : Word) : Option (BitVec 8) :=
  (s.linear register offset).map s.memory

def readWord (s : Segmented) (register : Seg) (offset : Word) : Option Word := do
  let first ← s.readByte register offset
  let second ← s.readByte register (offset + 1#32)
  let third ← s.readByte register (offset + 2#32)
  let fourth ← s.readByte register (offset + 3#32)
  return fourth ++ third ++ second ++ first

-- `lgdt [eax]`: the limit in two bytes, then the base.
def lgdt (s : Segmented) : Option Segmented := do
  let operand := s.cpu.reg .eax
  let low ← s.readByte .ds operand
  let high ← s.readByte .ds (operand + 1#32)
  let base ← s.readWord .ds (operand + 2#32)
  return { s with gdtBase := base, gdtLimit := high ++ low }

-- `mov eax, [esp + offset]`
def loadEax (s : Segmented) (offset : Word) : Option Segmented := do
  let w ← s.readWord .ss (s.cpu.reg .esp + offset)
  return { s with cpu := s.cpu.set .eax w }

def movAx (s : Segmented) (w : BitVec 16) : Segmented := { s with cpu := s.cpu.setAx w }

-- `mov s, ax`
def movSegAx (s : Segmented) (register : Seg) : Option Segmented :=
  s.loadSegment register ((s.cpu.reg .eax).setWidth 16)

def ret (s : Segmented) : Option Segmented := do
  let target ← s.readWord .ss (s.cpu.reg .esp)
  return { s with cpu := (s.cpu.set .esp (s.cpu.reg .esp + 4#32)).jump target }

def Flat (s : Segmented) : Prop := ∀ register offset, s.linear register offset = some offset

theorem Flat.readByte {s : Segmented} (flat : s.Flat) (register : Seg) (offset : Word) :
    s.readByte register offset = some (s.memory offset) := by
  rw [Segmented.readByte, flat, Option.map_some]

theorem Flat.readWord {s : Segmented} (flat : s.Flat) (register : Seg) (offset : Word) :
    s.readWord register offset = some (loadWord s.memory offset) := by
  simp [Segmented.readWord, flat.readByte, loadWord]

theorem linear_setSegment (s : Segmented) (register register' : Seg) (selector : BitVec 16)
    (d : Descriptor) (offset : Word) :
    (s.setSegment register selector d).linear register' offset =
      if register' = register then d.translate offset else s.linear register' offset := by
  by_cases same : register' = register
  next => simp [linear, setSegment, same]
  next => simp [linear, setSegment, same]

theorem Flat.setSegment {s : Segmented} (flat : s.Flat) (register : Seg) (selector : BitVec 16)
    {d : Descriptor} (all : ∀ offset, d.translate offset = some offset) :
    (s.setSegment register selector d).Flat := by
  intro register' offset
  rw [linear_setSegment]
  split
  next => exact all offset
  next => exact flat register' offset

end Segmented

end X86
