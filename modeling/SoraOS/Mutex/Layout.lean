import SoraOS.Memory.PmmInit
import SoraOS.Scheduler.Pools

set_option autoImplicit false

namespace SoraOS

open X86 (byteOf loadWord storeWord loadWord_congr storeWord_apart storeWord_byte)

def Within (base : U32) (size : Nat) (a : U32) : Prop :=
  base.toNat ≤ a.toNat ∧ a.toNat < base.toNat + size

instance (base : U32) (size : Nat) (a : U32) : Decidable (Within base size a) :=
  inferInstanceAs (Decidable (_ ∧ _))

theorem le_sub_iff_outside {base a : U32} (fits : base.toNat + 4 ≤ 2 ^ 32) :
    4 ≤ (a - base).toNat ↔ ¬ Within base 4 a := by
  rw [Within]
  bv_omega

theorem toNat_add_offset (base offset : U32) (fits : base.toNat + offset.toNat < 2 ^ 32) :
    (base + offset).toNat = base.toNat + offset.toNat := by
  rw [BitVec.toNat_add, Nat.mod_eq_of_lt fits]

theorem toNat_add_byte (base : U32) {i : Nat} (fits : base.toNat + i < 2 ^ 32) :
    (base + BitVec.ofNat 32 i).toNat = base.toNat + i := by
  rw [toNat_add_offset _ _ (by rw [BitVec.toNat_ofNat]; omega), BitVec.toNat_ofNat,
    Nat.mod_eq_of_lt (by omega)]

theorem storeWord_outside (ram : Ram) {addr a : U32} (word : U32) (fits : addr.toNat + 4 ≤ 2 ^ 32)
    (outside : ¬ Within addr 4 a) : storeWord ram addr word a = ram a :=
  storeWord_apart word ((le_sub_iff_outside fits).mpr outside)

theorem storeWord_congr {ram ram' : Ram} {a : U32} (same : ram' a = ram a) (addr word : U32) :
    storeWord ram' addr word a = storeWord ram addr word a := by
  rw [storeWord, storeWord, same]

theorem loadWord_storeWord_apart (ram : Ram) {addr other : U32} (word : U32)
    (addrFits : addr.toNat + 4 ≤ 2 ^ 32) (otherFits : other.toNat + 4 ≤ 2 ^ 32)
    (apart : addr.toNat + 4 ≤ other.toNat ∨ other.toNat + 4 ≤ addr.toNat) :
    loadWord (storeWord ram addr word) other = loadWord ram other := by
  apply loadWord_congr
  intro i small
  apply storeWord_outside ram word addrFits
  rw [Within, toNat_add_byte other (by omega)]
  omega

namespace Layout

/-- `sizeof(pcb_t)`: pid 0, state 4, priority 8 (padded), esp 12, stack_base 16, next 20. -/
def sizeofPcb : Nat := 24

/-- `tcb_t` is a `pcb_t`, then tid 24, parent 28, wait_next 32. -/
def waitNextOffset : U32 := 32#32

/-- `mutex_t` is lock 0, waiters 4. -/
def sizeofMutex : Nat := 8

def processBlocked : U32 := 2#32

/-- `&pcb_pool[i]`. -/
def pcbSlot (pool : U32) (i : Fin maxProcesses) : U32 := pool + BitVec.ofNat 32 (sizeofPcb * i)

/-- `*m` is held and `current_pcb` points to `cur`: the loop body before `schedule()`. -/
def blockOn (ram : Ram) (m cur : U32) : Ram :=
  let ram := storeWord ram (cur + 4#32) processBlocked
  -- `tcb_t* tcb = (tcb_t*)cur`
  let ram := storeWord ram (cur + waitNextOffset) (loadWord ram (m + 4#32))
  storeWord ram (m + 4#32) cur

/-- One turn of the loop of `mutex_lock` up to `schedule()`: whether it took the lock. -/
def mutexLock (ram : Ram) (m currentPcb : U32) : Bool × Ram :=
  let old := loadWord ram m
  let ram := storeWord ram m 1#32
  if old = 0#32 then (true, ram)
  else if currentPcb = 0#32 then (false, ram)
  else (false, blockOn ram m currentPcb)

structure Objects (pool m : U32) : Prop where
  notNull : pool ≠ 0#32
  poolEnd : pool.toNat + sizeofPcb * maxProcesses ≤ 2 ^ 32
  mutexEnd : m.toNat + sizeofMutex ≤ 2 ^ 32
  apart : m.toNat + sizeofMutex ≤ pool.toNat ∨ pool.toNat + sizeofPcb * maxProcesses ≤ m.toNat

variable {pool m : U32}

theorem Objects.pcbSlot_toNat (objects : Objects pool m) (i : Fin maxProcesses) :
    (pcbSlot pool i).toNat = pool.toNat + sizeofPcb * i := by
  have room := objects.poolEnd
  have index := i.isLt
  simp only [sizeofPcb, maxProcesses] at room index ⊢
  simp only [pcbSlot, sizeofPcb, BitVec.toNat_add, BitVec.toNat_ofNat]
  omega

theorem Objects.fields (objects : Objects pool m) (i : Fin maxProcesses) :
    (pcbSlot pool i + 4#32).toNat = (pcbSlot pool i).toNat + 4 ∧
      (m + 4#32).toNat = m.toNat + 4 ∧
      (pcbSlot pool i).toNat + sizeofPcb ≤ 2 ^ 32 ∧ m.toNat + sizeofMutex ≤ 2 ^ 32 ∧
      (m.toNat + sizeofMutex ≤ (pcbSlot pool i).toNat ∨
        (pcbSlot pool i).toNat + sizeofPcb ≤ m.toNat) := by
  have start := objects.pcbSlot_toNat i
  have index := i.isLt
  obtain ⟨_, poolEnd, mutexEnd, apart⟩ := objects
  simp only [sizeofPcb, sizeofMutex, maxProcesses] at start index poolEnd mutexEnd apart ⊢
  have four : (4#32 : U32).toNat = 4 := rfl
  exact ⟨toNat_add_offset _ _ (by omega), toNat_add_offset _ _ (by omega), by omega, by omega, by omega⟩

theorem Objects.load_waiters (objects : Objects pool m) (ram : Ram) (i : Fin maxProcesses) :
    loadWord (storeWord (storeWord ram m 1#32) (pcbSlot pool i + 4#32) processBlocked) (m + 4#32) =
      loadWord ram (m + 4#32) := by
  -- The word that the store through the cast writes is the mutex's list of waiters.
  obtain ⟨state, waiters, blockEnd, mutexEnd, apart⟩ := objects.fields i
  simp only [sizeofPcb, sizeofMutex] at blockEnd mutexEnd apart
  rw [loadWord_storeWord_apart _ _ (by omega) (by omega) (by omega),
    loadWord_storeWord_apart _ _ (by omega) (by omega) (by omega)]

theorem mutexLock_held (ram : Ram) {m cur : U32} (held : loadWord ram m ≠ 0#32)
    (notNull : cur ≠ 0#32) :
    (mutexLock ram m cur).2 = blockOn (storeWord ram m 1#32) m cur := by
  simp [mutexLock, held, notNull]

theorem blockOn_outside (objects : Objects pool m) (ram : Ram) (i : Fin maxProcesses) {a : U32}
    (notBlock : ¬ Within (pcbSlot pool i) sizeofPcb a) (notMutex : ¬ Within m sizeofMutex a) :
    blockOn (storeWord ram m 1#32) m (pcbSlot pool i) a =
      storeWord ram (pcbSlot pool i + waitNextOffset) (loadWord ram (m + 4#32)) a := by
  -- Outside the block and the mutex, the turn writes four bytes 32 past the block.
  obtain ⟨state, waiters, blockEnd, mutexEnd, apart⟩ := objects.fields i
  simp only [Within, sizeofPcb, sizeofMutex] at notBlock notMutex blockEnd mutexEnd apart
  have waitersField : ¬ Within (m + 4#32) 4 a := by
    rw [Within]
    omega
  have stateField : ¬ Within (pcbSlot pool i + 4#32) 4 a := by
    rw [Within]
    omega
  have lockField : ¬ Within m 4 a := by
    rw [Within]
    omega
  rw [blockOn, storeWord_outside _ _ (by omega) waitersField, objects.load_waiters]
  -- The store through the cast, over two memories that agree at `a`.
  apply storeWord_congr
  rw [storeWord_outside _ _ (by omega) stateField, storeWord_outside _ _ (by omega) lockField]

theorem Objects.castField_notBlock (objects : Objects pool m) (i : Fin maxProcesses) {k : Nat}
    (small : k < 4) :
    ¬ Within (pcbSlot pool i) sizeofPcb (pcbSlot pool i + waitNextOffset + BitVec.ofNat 32 k) := by
  obtain ⟨_, _, blockEnd, _, _⟩ := objects.fields i
  simp only [Within, sizeofPcb, waitNextOffset] at blockEnd ⊢
  bv_omega

theorem Objects.pcbSlot_notNull (objects : Objects pool m) (i : Fin maxProcesses) :
    pcbSlot pool i ≠ 0#32 := by
  intro null
  have start := objects.pcbSlot_toNat i
  apply objects.notNull
  rw [null] at start
  apply BitVec.eq_of_toNat_eq
  simp only [BitVec.toNat_ofNat] at start ⊢
  omega

def TouchesOnly (ram ram' : Ram) (slot m : U32) : Prop :=
  ∀ a, ¬ Within slot sizeofPcb a → ¬ Within m sizeofMutex a → ram' a = ram a

/--
Blocking a process keeps everything else exactly when the word 32 bytes past the start of its
block (the priority of `pcb_pool[i + 1]`, or what follows the pool) already holds `m->waiters`
wherever it is not part of the mutex.
-/
theorem mutexLock_touchesOnly_iff (ram : Ram) (pool m : U32) (objects : Objects pool m)
    (i : Fin maxProcesses) (held : loadWord ram m ≠ 0#32) :
    TouchesOnly ram (mutexLock ram m (pcbSlot pool i)).2 (pcbSlot pool i) m ↔
      ∀ k < 4, Within m sizeofMutex (pcbSlot pool i + waitNextOffset + BitVec.ofNat 32 k) ∨
        ram (pcbSlot pool i + waitNextOffset + BitVec.ofNat 32 k) =
          byteOf (loadWord ram (m + 4#32)) k := by
  rw [mutexLock_held ram held (objects.pcbSlot_notNull i)]
  constructor
  next =>
    intro kept k small
    by_cases inMutex :
        Within m sizeofMutex (pcbSlot pool i + waitNextOffset + BitVec.ofNat 32 k)
    next => exact .inl inMutex
    next =>
      have notBlock := objects.castField_notBlock i small
      right
      rw [← kept _ notBlock inMutex, blockOn_outside objects ram i notBlock inMutex,
        storeWord_byte _ _ _ small]
  next =>
    intro already a notBlock notMutex
    rw [blockOn_outside objects ram i notBlock notMutex]
    by_cases castField : (a - (pcbSlot pool i + waitNextOffset)).toNat < 4
    next =>
      have back : pcbSlot pool i + waitNextOffset +
          BitVec.ofNat 32 (a - (pcbSlot pool i + waitNextOffset)).toNat = a := by
        rw [BitVec.ofNat_toNat, BitVec.setWidth_eq, BitVec.add_comm, BitVec.sub_add_cancel]
      have holds := already _ castField
      rw [back] at holds
      rw [storeWord, if_pos castField]
      exact (holds.resolve_left notMutex).symm
    next => exact storeWord_apart _ (Nat.not_lt.mp castField)

/-- A held mutex at 0x20000 without waiters; `priority` is that of `pcb_pool[1]` at 0x10000. -/
def heldRam (priority : U8) : Ram := fun a =>
  if a = 0x20000#32 then 1#8 else if a = 0x10020#32 then priority else 0#8

theorem objects_heldRam : Objects 0x10000#32 0x20000#32 where
  notNull := by decide
  poolEnd := by decide
  mutexEnd := by decide
  apart := by decide

theorem mutexLock_touchesOnly_heldRam :
    TouchesOnly (heldRam 0#8) (mutexLock (heldRam 0#8) 0x20000#32 (pcbSlot 0x10000#32 0)).2
      (pcbSlot 0x10000#32 0) 0x20000#32 := by
  apply (mutexLock_touchesOnly_iff (heldRam 0#8) 0x10000#32 0x20000#32 objects_heldRam 0
    (by decide)).mpr
  intro k small
  right
  have waiters : loadWord (heldRam 0#8) (0x20000#32 + 4#32) = 0#32 := by decide
  have lock : pcbSlot 0x10000#32 0 + waitNextOffset + BitVec.ofNat 32 k ≠ 0x20000#32 := by
    have start : pcbSlot 0x10000#32 0 = 0x10000#32 := by decide
    rw [start, waitNextOffset]
    bv_omega
  rw [waiters]
  simp [heldRam, lock, byteOf]

/-- The priority 1 that `pcb_pool[1]` was created with is overwritten by `wait_next`. -/
theorem mutexLock_touches_priority :
    ¬ ∀ ram pool m, Objects pool m → ∀ i : Fin maxProcesses, loadWord ram m ≠ 0#32 →
      TouchesOnly ram (mutexLock ram m (pcbSlot pool i)).2 (pcbSlot pool i) m := by
  intro all
  have kept := all (heldRam 1#8) 0x10000#32 0x20000#32 objects_heldRam 0 (by decide)
  exact absurd (kept 0x10020#32 (by decide) (by decide)) (by decide)

end Layout

end SoraOS
