import Mathlib.Data.BitVec
import SoraOS.Shared.Cpu

set_option autoImplicit false

/-!
Memory as bytes, and lists of 32-bit words in it.

Addresses wrap around: a list of words may start near the top of memory and go on at its bottom.
-/

namespace X86

abbrev Memory := Word → BitVec 8

-- The low byte comes first.
def loadWord (memory : Memory) (a : Word) : Word :=
  memory (a + 3#32) ++ memory (a + 2#32) ++ memory (a + 1#32) ++ memory a

def byteOf (w : Word) (i : Nat) : BitVec 8 := (w >>> (8 * i)).setWidth 8

def storeWord (memory : Memory) (a w : Word) : Memory := fun b =>
  if (b - a).toNat < 4 then byteOf w (b - a).toNat else memory b

theorem loadWord_congr {memory memory' : Memory} {a : Word}
    (same : ∀ i : Nat, i < 4 → memory' (a + BitVec.ofNat 32 i) = memory (a + BitVec.ofNat 32 i)) :
    loadWord memory' a = loadWord memory a := by
  have first : memory' a = memory a := by simpa using same 0 (by decide)
  rw [loadWord, loadWord, same 3 (by decide), same 2 (by decide), same 1 (by decide), first]

theorem storeWord_apart {memory : Memory} {a b : Word} (w : Word) (apart : 4 ≤ (b - a).toNat) :
    storeWord memory a w b = memory b :=
  if_neg (by omega)

theorem storeWord_byte (memory : Memory) (a w : Word) {i : Nat} (within : i < 4) :
    storeWord memory a w (a + BitVec.ofNat 32 i) = byteOf w i := by
  have index : (a + BitVec.ofNat 32 i - a).toNat = i := by
    rw [BitVec.add_comm, BitVec.add_sub_cancel, BitVec.toNat_ofNat, Nat.mod_eq_of_lt (by omega)]
  rw [storeWord, index, if_pos within]

theorem loadWord_storeWord (memory : Memory) (a w : Word) : loadWord (storeWord memory a w) a = w := by
  have first : storeWord memory a w a = byteOf w 0 := by
    simpa using storeWord_byte memory a w (i := 0) (by decide)
  rw [loadWord, storeWord_byte _ _ _ (by decide), storeWord_byte _ _ _ (by decide),
    storeWord_byte _ _ _ (by decide), first]
  apply BitVec.eq_of_getLsbD_eq
  intro i within
  simp only [byteOf, BitVec.getLsbD_append, BitVec.getLsbD_setWidth, BitVec.getLsbD_ushiftRight]
  grind

def storeBytes (memory : Memory) (a : Word) (bytes : List (BitVec 8)) : Memory := fun b =>
  bytes.getD (b - a).toNat (memory b)

/-- The `n` bytes from `a` on and the `k` bytes from `b` on have no byte in common. -/
def Apart (a : Word) (n : Nat) (b : Word) (k : Nat) : Prop :=
  ∀ i < n, k ≤ (a + BitVec.ofNat 32 i - b).toNat

theorem storeBytes_byte (memory : Memory) (a : Word) {bytes : List (BitVec 8)} {i : Nat}
    (fits : bytes.length ≤ 2 ^ 32) (within : i < bytes.length) :
    storeBytes memory a bytes (a + BitVec.ofNat 32 i) = bytes.getD i 0#8 := by
  have index : (a + BitVec.ofNat 32 i - a).toNat = i := by
    rw [BitVec.add_comm, BitVec.add_sub_cancel, BitVec.toNat_ofNat, Nat.mod_eq_of_lt (by omega)]
  rw [storeBytes, index, List.getD_eq_getElem?_getD, List.getD_eq_getElem?_getD,
    List.getElem?_eq_getElem within, Option.getD_some, Option.getD_some]

theorem storeBytes_apart {memory : Memory} {a b : Word} {bytes : List (BitVec 8)} {n i : Nat}
    (apart : Apart b n a bytes.length) (within : i < n) :
    storeBytes memory a bytes (b + BitVec.ofNat 32 i) = memory (b + BitVec.ofNat 32 i) := by
  rw [storeBytes, List.getD_eq_getElem?_getD, List.getElem?_eq_none (apart i within),
    Option.getD_none]

def WordsAt (memory : Memory) (a : Word) (ws : List Word) : Prop :=
  ∀ i w, ws[i]? = some w → loadWord memory (a + BitVec.ofNat 32 (4 * i)) = w

theorem wordsAt_nil (memory : Memory) (a : Word) : WordsAt memory a [] := by
  intro i w found
  simp at found

theorem wordsAt_cons {memory : Memory} {a w : Word} {ws : List Word} :
    WordsAt memory a (w :: ws) ↔ loadWord memory a = w ∧ WordsAt memory (a + 4#32) ws := by
  have shift (i : Nat) :
      a + BitVec.ofNat 32 (4 * (i + 1)) = a + 4#32 + BitVec.ofNat 32 (4 * i) := by
    rw [Nat.mul_add, Nat.add_comm, BitVec.ofNat_add, BitVec.add_assoc]
  constructor
  next =>
    intro words
    constructor
    next => simpa using words 0 w rfl
    next =>
      intro i v found
      rw [← shift]
      exact words (i + 1) v found
  next =>
    rintro ⟨first, words⟩ i v found
    cases i with
    | zero =>
        have same : w = v := by simpa using found
        simpa [same] using first
    | succ i =>
        rw [shift]
        exact words i v found

theorem WordsAt.congr {memory memory' : Memory} {a : Word} {ws : List Word}
    (words : WordsAt memory a ws)
    (same : ∀ i : Nat, i < 4 * ws.length →
      memory' (a + BitVec.ofNat 32 i) = memory (a + BitVec.ofNat 32 i)) :
    WordsAt memory' a ws := by
  intro i w found
  have inside := (List.getElem?_eq_some_iff.mp found).1
  rw [← words i w found]
  apply loadWord_congr
  intro j within
  rw [BitVec.add_assoc, ← BitVec.ofNat_add]
  exact same (4 * i + j) (by omega)

theorem WordsAt.drop {memory : Memory} {a : Word} {ws : List Word} (words : WordsAt memory a ws)
    (n : Nat) : WordsAt memory (a + BitVec.ofNat 32 (4 * n)) (ws.drop n) := by
  intro i w found
  rw [List.getElem?_drop] at found
  rw [BitVec.add_assoc, ← BitVec.ofNat_add, ← Nat.mul_add]
  exact words (n + i) w found

-- A word stored below the words at `a`, which do not reach around to it.
theorem WordsAt.store {memory : Memory} {a : Word} {ws : List Word} (words : WordsAt memory a ws)
    (w : Word) (room : 4 * (ws.length + 1) ≤ 2 ^ 32) :
    WordsAt (storeWord memory (a - 4#32) w) (a - 4#32) (w :: ws) := by
  rw [wordsAt_cons, BitVec.sub_add_cancel]
  refine ⟨loadWord_storeWord _ _ _, words.congr ?_⟩
  intro i inside
  apply storeWord_apart
  have distance : a + BitVec.ofNat 32 i - (a - 4#32) = BitVec.ofNat 32 (i + 4) := by
    rw [BitVec.ofNat_add]
    bv_omega
  rw [distance, BitVec.toNat_ofNat, Nat.mod_eq_of_lt (by omega)]
  omega

end X86
