import Mathlib.Data.Vector.Basic
import Mathlib.Data.List.TakeWhile

set_option autoImplicit false

/-!
Arrays of a fixed size whose every access is checked, and the zero-terminated strings stored in
them.
-/

namespace Buffer

variable {α : Type} {n : Nat}

def put (a : Vector α n) (i : Nat) (x : α) : Option (Vector α n) :=
  if h : i < n then some (a.set i x h) else none

theorem put_of_lt (a : Vector α n) {i : Nat} (x : α) (inside : i < n) :
    put a i x = some (a.set i x inside) :=
  dif_pos inside

/-- `a` holds the list `l` from index `i` on. -/
def Holds (a : Vector α n) (i : Nat) (l : List α) : Prop :=
  ∀ k, k < l.length → a[i + k]? = l[k]?

theorem holds_nil (a : Vector α n) (i : Nat) : Holds a i [] := fun _ short => absurd short (by simp)

theorem holds_append {a : Vector α n} {i : Nat} {l l' : List α} :
    Holds a i (l ++ l') ↔ Holds a i l ∧ Holds a (i + l.length) l' := by
  constructor
  next =>
    intro held
    constructor
    next =>
      intro k short
      rw [held k (by simp; omega), List.getElem?_append_left short]
    next =>
      intro k short
      have at_k := held (l.length + k) (by simp; omega)
      rw [List.getElem?_append_right (by omega), Nat.add_sub_cancel_left] at at_k
      rw [Nat.add_assoc, at_k]
  next =>
    rintro ⟨front, back⟩ k short
    by_cases within : k < l.length
    · rw [front k within, List.getElem?_append_left within]
    · rw [List.length_append] at short
      have at_k := back (k - l.length) (by omega)
      rw [List.getElem?_append_right (by omega), ← at_k]
      congr 1
      omega

theorem holds_singleton {a : Vector α n} {i : Nat} {x : α} : Holds a i [x] ↔ a[i]? = some x := by
  constructor
  next =>
    intro held
    exact held 0 (by simp)
  next =>
    intro read k short
    have first : k = 0 := by simpa using short
    subst first
    exact read

theorem holds_cons {a : Vector α n} {i : Nat} {x : α} {l : List α} :
    Holds a i (x :: l) ↔ a[i]? = some x ∧ Holds a (i + 1) l := by
  rw [← List.singleton_append, holds_append, holds_singleton, List.length_singleton]

theorem Holds.length_le {a : Vector α n} {i : Nat} {l : List α} (held : Holds a i l)
    (nonempty : l ≠ []) : i + l.length ≤ n := by
  have positive := List.length_pos_iff.mpr nonempty
  have last := held (l.length - 1) (by omega)
  rw [List.getElem?_eq_getElem (by omega)] at last
  have inside := (Vector.getElem?_eq_some_iff.mp last).1
  omega

theorem Holds.congr {a b : Vector α n} {i : Nat} {l : List α} (held : Holds a i l)
    (same : ∀ j, i ≤ j → j < i + l.length → b[j]? = a[j]?) : Holds b i l := by
  intro k short
  rw [same (i + k) (by omega) (by omega)]
  exact held k short

theorem Holds.set {a : Vector α n} {i j : Nat} {l : List α} {x : α} (held : Holds a i l)
    (inside : j < n) (apart : j < i ∨ i + l.length ≤ j) : Holds (a.set j x inside) i l :=
  held.congr fun k _ _ => Vector.getElem?_set_ne inside (by omega)

theorem Holds.push {a : Vector α n} {i : Nat} {l : List α} (held : Holds a i l) (x : α)
    (inside : i + l.length < n) : Holds (a.set (i + l.length) x inside) i (l ++ [x]) := by
  rw [holds_append, holds_singleton, Vector.getElem?_set_self]
  exact ⟨held.set inside (Or.inr (Nat.le_refl _)), rfl⟩

section Strings

variable [DecidableEq α] (zero : α)

-- The elements of `l` before its first `zero`; none when there is no `zero`.
def string : List α → Option (List α)
  | [] => none
  | x :: l => if x = zero then some [] else (string l).map (x :: ·)

def stringAt (a : Vector α n) (i : Nat) : Option (List α) := string zero (a.toList.drop i)

variable {zero}

theorem string_eq_some {l s : List α} :
    string zero l = some s ↔ zero ∉ s ∧ ∃ rest, l = s ++ zero :: rest := by
  induction l generalizing s with
  | nil => simp [string]
  | cons x l ih =>
      by_cases stop : x = zero
      · rw [string, if_pos stop]
        constructor
        next =>
          intro empty
          cases empty
          exact ⟨List.not_mem_nil, l, by rw [stop, List.nil_append]⟩
        next =>
          rintro ⟨free, rest, split⟩
          cases s with
          | nil => rfl
          | cons y s =>
              -- the first element would be a zero inside of the string
              have first : x = y := (List.cons.inj split).1
              exact absurd (first ▸ stop) (fun h => free (by simp [h]))
      · rw [string, if_neg stop, Option.map_eq_some_iff]
        constructor
        next =>
          rintro ⟨s', found, rfl⟩
          obtain ⟨free, rest, rfl⟩ := ih.mp found
          exact ⟨by simp [free, Ne.symm stop], rest, rfl⟩
        next =>
          rintro ⟨free, rest, split⟩
          cases s with
          | nil => exact absurd (List.cons.inj split).1 stop
          | cons y s =>
              obtain ⟨rfl, tail⟩ := List.cons.inj split
              exact ⟨s, ih.mpr ⟨fun member => free (by simp [member]), rest, tail⟩, rfl⟩

theorem stringAt_eq_some {a : Vector α n} {i : Nat} {s : List α} :
    stringAt zero a i = some s ↔ zero ∉ s ∧ Holds a i (s ++ [zero]) := by
  rw [stringAt, string_eq_some, and_congr_right_iff]
  intro _
  constructor
  next =>
    rintro ⟨rest, split⟩ k short
    have at_k := congrArg (fun l => l[k]?) split
    simp only [List.getElem?_drop, Vector.getElem?_toList] at at_k
    rw [at_k, List.append_cons, List.getElem?_append_left short]
  next =>
    intro held
    have fits := held.length_le (by simp)
    refine ⟨(a.toList.drop i).drop (s.length + 1), ?_⟩
    have front : (a.toList.drop i).take (s.length + 1) = s ++ [zero] := by
      apply List.ext_getElem?
      intro k
      by_cases short : k < s.length + 1
      · rw [List.getElem?_take_of_lt short, List.getElem?_drop, Vector.getElem?_toList]
        exact held k (by simpa using short)
      · rw [List.getElem?_eq_none (by simp; omega), List.getElem?_eq_none (by simp; omega)]
    calc a.toList.drop i
        = (a.toList.drop i).take (s.length + 1) ++ (a.toList.drop i).drop (s.length + 1) :=
          (List.take_append_drop _ _).symm
      _ = s ++ zero :: (a.toList.drop i).drop (s.length + 1) := by
          rw [front, List.append_assoc, List.singleton_append]

end Strings

end Buffer
