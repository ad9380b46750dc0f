import Mathlib.Data.BitVec
import Mathlib.Logic.Function.Basic

set_option autoImplicit false

/-!
# Ring buffers with wrapping indices

A buffer of `2 ^ w` cells whose indices wrap at their own width. One cell stays
unused, so that a full buffer and an empty one are told apart. What it implements
is a queue of capacity `2 ^ w - 1`.
-/

structure RingBuffer (w : Nat) (α : Type) where
  buffer : BitVec w → α
  head : BitVec w
  tail : BitVec w

namespace RingBuffer

variable {w : Nat} {α : Type}

def pending (r : RingBuffer w α) : List α :=
  (List.range (r.head - r.tail).toNat).map fun i => r.buffer (r.tail + BitVec.ofNat w i)

def push (r : RingBuffer w α) (c : α) : RingBuffer w α :=
  { r with buffer := Function.update r.buffer r.head c, head := r.head + 1#w }

def pop (r : RingBuffer w α) : RingBuffer w α := { r with tail := r.tail + 1#w }

@[simp] theorem length_pending (r : RingBuffer w α) :
    r.pending.length = (r.head - r.tail).toNat := by
  simp [pending]

theorem toNat_eq_zero {d : BitVec w} : d.toNat = 0 ↔ d = 0#w := by
  constructor
  · intro zero
    exact BitVec.eq_of_toNat_eq (by simpa using zero)
  · intro zero
    simp [zero]

theorem toNat_succ {d : BitVec w} (more : d + 1#w ≠ 0#w) :
    (d + 1#w).toNat = d.toNat + 1 ∧ d.toNat + 1 < 2 ^ w := by
  have bound := d.isLt
  have below : d.toNat + 1 ≠ 2 ^ w := by
    intro last
    apply more
    apply BitVec.eq_of_toNat_eq
    simp [last]
  refine ⟨?_, by omega⟩
  rw [BitVec.toNat_add, BitVec.toNat_ofNat, Nat.add_mod_mod, Nat.mod_eq_of_lt (by omega)]

theorem pending_eq_nil_iff (r : RingBuffer w α) : r.pending = [] ↔ r.head = r.tail := by
  rw [← List.length_eq_zero_iff, length_pending, toNat_eq_zero]
  exact sub_eq_zero

theorem full_iff (r : RingBuffer w α) : r.head + 1#w = r.tail ↔ r.pending.length = 2 ^ w - 1 := by
  have bound := (r.head - r.tail).isLt
  have distance : r.head + 1#w - r.tail = r.head - r.tail + 1#w := add_sub_right_comm ..
  rw [length_pending, ← sub_eq_zero, distance]
  constructor
  · intro last
    apply Classical.byContradiction
    intro notLast
    have value : (r.head - r.tail + 1#w).toNat = 0 := toNat_eq_zero.mpr last
    rw [BitVec.toNat_add, BitVec.toNat_ofNat, Nat.add_mod_mod,
      Nat.mod_eq_of_lt (by omega)] at value
    omega
  · intro full
    apply Classical.byContradiction
    intro more
    have next := (toNat_succ more).2
    omega

theorem pending_push (r : RingBuffer w α) (c : α) (room : r.head + 1#w ≠ r.tail) :
    (r.push c).pending = r.pending ++ [c] := by
  have distance : r.head + 1#w - r.tail = r.head - r.tail + 1#w := add_sub_right_comm ..
  have more : r.head - r.tail + 1#w ≠ 0#w := by
    rw [← distance]
    exact sub_ne_zero.mpr room
  obtain ⟨grown, inside⟩ := toNat_succ more
  have last : r.tail + BitVec.ofNat w (r.head - r.tail).toNat = r.head := by
    rw [BitVec.ofNat_toNat, BitVec.setWidth_eq, add_sub_cancel]
  simp only [pending, push, distance, grown, List.range_succ, List.map_append, List.map_cons,
    List.map_nil, last, Function.update_self]
  congr 1
  apply List.map_congr_left
  intro i below
  have earlier : r.tail + BitVec.ofNat w i ≠ r.head := by
    intro same
    have index : BitVec.ofNat w i = r.head - r.tail := by rw [← same, add_sub_cancel_left]
    have value := congrArg BitVec.toNat index
    rw [List.mem_range] at below
    rw [BitVec.toNat_ofNat, Nat.mod_eq_of_lt (by omega)] at value
    omega
  rw [Function.update_of_ne earlier]

theorem pending_pop (r : RingBuffer w α) (nonempty : r.head ≠ r.tail) :
    r.pending = r.buffer r.tail :: r.pop.pending := by
  have distance : r.head - r.tail = r.head - (r.tail + 1#w) + 1#w := by
    rw [sub_add_eq_sub_sub, sub_add_cancel]
  have more : r.head - (r.tail + 1#w) + 1#w ≠ 0#w := by
    rw [← distance]
    exact sub_ne_zero.mpr nonempty
  obtain ⟨grown, _⟩ := toNat_succ more
  simp only [pending, pop, distance, grown, List.range_succ_eq_map, List.map_cons, List.map_map]
  congr 1
  · simp
  · apply List.map_congr_left
    intro i _
    have index : r.tail + BitVec.ofNat w (i + 1) = r.tail + 1#w + BitVec.ofNat w i := by
      rw [BitVec.ofNat_add, BitVec.add_comm (BitVec.ofNat w i), BitVec.add_assoc]
    simp [index]

end RingBuffer

namespace BoundedQueue

variable {α : Type}

inductive Action (α : Type) where
  | idle
  | accept (c : α)
  | reject (c : α)
  | deliver (c : α)
  | empty

/-- What a queue of the given capacity may do: reject only when full, deliver in order. -/
inductive Step (capacity : Nat) : List α → Action α → List α → Prop
  | idle (q : List α) : Step capacity q .idle q
  | accept (q : List α) (c : α) (room : q.length < capacity) :
      Step capacity q (.accept c) (q ++ [c])
  | reject (q : List α) (c : α) (full : q.length = capacity) : Step capacity q (.reject c) q
  | deliver (q : List α) (c : α) : Step capacity (c :: q) (.deliver c) q
  | empty : Step capacity [] .empty []

theorem Step.full {capacity : Nat} {q q' : List α} {c : α} (h : Step capacity q (.reject c) q') :
    q.length = capacity := by
  cases h with
  | reject _ _ full => exact full

theorem Step.nothing {capacity : Nat} {q q' : List α} (h : Step capacity q .empty q') : q = [] := by
  cases h with
  | empty => rfl

inductive Trace (capacity : Nat) : List α → List (Action α) → List α → Prop
  | nil (q : List α) : Trace capacity q [] q
  | cons {q q' q'' : List α} {a : Action α} {rest : List (Action α)}
      (first : Step capacity q a q') (later : Trace capacity q' rest q'') :
      Trace capacity q (a :: rest) q''

def Action.accepted : Action α → Option α
  | .accept c => some c
  | _ => none

def Action.delivered : Action α → Option α
  | .deliver c => some c
  | _ => none

theorem Trace.conserves {capacity : Nat} {q q' : List α} {log : List (Action α)}
    (h : Trace capacity q log q') :
    q ++ log.filterMap Action.accepted = log.filterMap Action.delivered ++ q' := by
  induction h with
  | nil q => simp
  | cons first later ih =>
      cases first <;> simpa [Action.accepted, Action.delivered, List.filterMap_cons] using ih

end BoundedQueue
