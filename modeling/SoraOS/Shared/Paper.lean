import Mathlib.Logic.Function.Basic
import Mathlib.Tactic.Linarith

set_option autoImplicit false

/-!
An endless sheet of lines of one width, and a window of a fixed height that only moves down.
-/

structure Paper (α : Type) where
  cells : Nat → Nat → α
  line : Nat
  col : Nat
  -- how many lines are above the window
  top : Nat

namespace Paper

variable {α : Type}

def blank (space : α) : Paper α := { cells := fun _ _ => space, line := 0, col := 0, top := 0 }

def write (p : Paper α) (line col : Nat) (x : α) : Paper α :=
  { p with cells := Function.update p.cells line (Function.update (p.cells line) col x) }

def follow (height : Nat) (p : Paper α) : Paper α :=
  { p with top := max p.top (p.line + 1 - height) }

def newline (height : Nat) (p : Paper α) : Paper α :=
  { p with line := p.line + 1, col := 0 }.follow height

def start (p : Paper α) : Paper α := { p with col := 0 }

def put (width height : Nat) (p : Paper α) (x : α) : Paper α :=
  let q := p.write p.line p.col x
  if p.col + 1 < width then { q with col := p.col + 1 } else q.newline height

-- One cell back, but not out of the window.
def retreat (width : Nat) (p : Paper α) : Paper α :=
  if 0 < p.col then { p with col := p.col - 1 }
  else if p.top < p.line then { p with line := p.line - 1, col := width - 1 }
  else p

def erase (width : Nat) (space : α) (p : Paper α) : Paper α :=
  let p := p.retreat width
  p.write p.line p.col space

def view (p : Paper α) (row col : Nat) : α := p.cells (p.top + row) col

/-- The writing position is in the window, and what is below the window is unwritten. -/
structure Framed (width height : Nat) (space : α) (p : Paper α) : Prop where
  above : p.top ≤ p.line
  below : p.line < p.top + height
  inside : p.col < width
  unwritten : ∀ line, p.top + height ≤ line → ∀ col, p.cells line col = space

theorem write_cells (p : Paper α) (line col : Nat) (x : α) (l c : Nat) :
    (p.write line col x).cells l c = if l = line ∧ c = col then x else p.cells l c := by
  by_cases here : l = line
  next =>
    subst here
    by_cases same : c = col <;> simp [write, same]
  next => simp [write, here]

@[simp] theorem write_line (p : Paper α) (line col : Nat) (x : α) :
    (p.write line col x).line = p.line := rfl
@[simp] theorem write_col (p : Paper α) (line col : Nat) (x : α) :
    (p.write line col x).col = p.col := rfl
@[simp] theorem write_top (p : Paper α) (line col : Nat) (x : α) :
    (p.write line col x).top = p.top := rfl

variable {width height : Nat} {space : α}

theorem framed_blank (wide : 0 < width) (high : 0 < height) :
    (blank space).Framed width height space :=
  ⟨le_rfl, by simpa [blank] using high, wide, fun _ _ _ => rfl⟩

theorem Framed.write {p : Paper α} (h : p.Framed width height space) {line : Nat}
    (visible : line < p.top + height) (col : Nat) (x : α) :
    (p.write line col x).Framed width height space := by
  constructor
  next => exact h.above
  next => exact h.below
  next => exact h.inside
  next =>
    intro l far c
    rw [write_top] at far
    rw [write_cells, if_neg (by omega)]
    exact h.unwritten l far c

theorem Framed.newline {p : Paper α} (h : p.Framed width height space) :
    (p.newline height).Framed width height space := by
  have above := h.above
  have below := h.below
  have inside := h.inside
  constructor
  next =>
    simp only [Paper.newline, follow]
    omega
  next =>
    simp only [Paper.newline, follow]
    omega
  next =>
    simp only [Paper.newline, follow]
    omega
  next =>
    intro line far col
    simp only [Paper.newline, follow] at far ⊢
    exact h.unwritten line (by omega) col

theorem Framed.start {p : Paper α} (h : p.Framed width height space) :
    p.start.Framed width height space :=
  ⟨h.above, h.below, Nat.zero_lt_of_lt h.inside, h.unwritten⟩

theorem Framed.put {p : Paper α} (h : p.Framed width height space) (x : α) :
    (p.put width height x).Framed width height space := by
  have written := h.write h.below p.col x
  simp only [Paper.put]
  split
  next room => exact ⟨written.above, written.below, room, written.unwritten⟩
  next => exact written.newline

theorem Framed.retreat {p : Paper α} (h : p.Framed width height space) :
    (p.retreat width).Framed width height space := by
  have above := h.above
  have below := h.below
  have inside := h.inside
  unfold Paper.retreat
  split
  next => exact ⟨above, below, by simp only; omega, h.unwritten⟩
  split
  next => exact ⟨by simp only; omega, by simp only; omega, by simp only; omega, h.unwritten⟩
  next => exact h

theorem Framed.erase {p : Paper α} (h : p.Framed width height space) :
    (p.erase width space).Framed width height space :=
  h.retreat.write h.retreat.below _ space

def Fresh (space : α) (p : Paper α) : Prop :=
  ∀ line col, p.line < line ∨ line = p.line ∧ p.col ≤ col → p.cells line col = space

theorem Fresh.newline {p : Paper α} (h : p.Fresh space) : (p.newline height).Fresh space := by
  intro line col after
  simp only [Paper.newline, follow] at after ⊢
  exact h line col (by omega)

theorem Fresh.put {p : Paper α} (h : p.Fresh space) (x : α) :
    (p.put width height x).Fresh space := by
  intro line col after
  have later : ¬(line = p.line ∧ col = p.col) ∧ (p.line < line ∨ line = p.line ∧ p.col ≤ col) := by
    simp only [Paper.put] at after
    split at after
    next => simp only [write_line] at after; omega
    next => simp only [Paper.newline, follow, write_line] at after; omega
  have cells : (p.put width height x).cells = (p.write p.line p.col x).cells := by
    simp only [Paper.put]
    split <;> rfl
  rw [cells, write_cells, if_neg later.1]
  exact h line col later.2

def index (width : Nat) (p : Paper α) : Nat := p.line * width + p.col

theorem index_put {p : Paper α} (h : p.Framed width height space) (x : α) :
    (p.put width height x).index width = p.index width + 1 := by
  have inside := h.inside
  simp only [Paper.put]
  split
  next => simp only [index, write_line]; omega
  next =>
    have last : p.col + 1 = width := by omega
    simp only [index, Paper.newline, follow, write_line, Nat.add_mul, one_mul]
    omega

/-- The same is written, and at the same position; the windows may have come differently far. -/
structure Alike (p q : Paper α) : Prop where
  cells : p.cells = q.cells
  line : p.line = q.line
  col : p.col = q.col

theorem Alike.newline {p q : Paper α} (h : Alike p q) :
    Alike (p.newline height) (q.newline height) :=
  ⟨h.cells, congrArg (· + 1) h.line, rfl⟩

theorem Alike.put {p q : Paper α} (h : Alike p q) (x : α) :
    Alike (p.put width height x) (q.put width height x) := by
  have written : (p.write p.line p.col x).cells = (q.write q.line q.col x).cells := by
    rw [write, write, h.cells, h.line, h.col]
  simp only [Paper.put, h.col]
  split
  next => exact ⟨h.col ▸ written, h.line, rfl⟩
  next => exact ⟨h.col ▸ written, congrArg (· + 1) h.line, rfl⟩

theorem Alike.erase {p q : Paper α} (h : Alike p q)
    (back : 0 < q.col ∨ p.top < q.line ∧ q.top < q.line) :
    Alike (p.erase width space) (q.erase width space) := by
  have same : Alike (p.retreat width) (q.retreat width) := by
    simp only [Paper.retreat, h.col, h.line]
    by_cases inside : 0 < q.col
    next =>
      rw [if_pos inside, if_pos inside]
      exact ⟨h.cells, rfl, rfl⟩
    next =>
      obtain ⟨upper, upper'⟩ := back.resolve_left inside
      rw [if_neg inside, if_neg inside, if_pos upper, if_pos upper']
      exact ⟨h.cells, rfl, rfl⟩
  refine ⟨?_, same.line, same.col⟩
  simp only [Paper.erase, write, same.cells, same.line, same.col]

theorem Alike.trans {p q r : Paper α} (h : Alike p q) (h' : Alike q r) : Alike p r :=
  ⟨h.cells.trans h'.cells, h.line.trans h'.line, h.col.trans h'.col⟩

theorem Alike.top_newline {p q : Paper α} (h : Alike p q) (behind : q.top ≤ p.top) :
    (q.newline height).top ≤ (p.newline height).top := by
  have line := h.line
  simp only [Paper.newline, follow]
  omega

theorem Alike.top_put {p q : Paper α} (h : Alike p q) (behind : q.top ≤ p.top) (x : α) :
    (q.put width height x).top ≤ (p.put width height x).top := by
  have line := h.line
  simp only [Paper.put, h.col]
  split
  next => exact behind
  next => simp only [Paper.newline, follow, write_line, write_top]; omega

theorem erase_put {p : Paper α} (h : p.Framed width height space) (high : 2 ≤ height) (x : α)
    (unwritten : p.cells p.line p.col = space) :
    Alike ((p.put width height x).erase width space) p := by
  have above := h.above
  have below := h.below
  have inside := h.inside
  have restored (q : Paper α) (cells : q.cells = (p.write p.line p.col x).cells) :
      (q.write p.line p.col space).cells = p.cells := by
    funext l c
    rw [write_cells, cells, write_cells]
    by_cases here : l = p.line ∧ c = p.col
    next => rw [if_pos here, here.1, here.2, unwritten]
    next => rw [if_neg here, if_neg here]
  by_cases room : p.col + 1 < width
  next =>
    have back : (p.put width height x).retreat width = p.write p.line p.col x := by
      simp [Paper.put, room, Paper.retreat]
      rfl
    rw [Paper.erase, back]
    exact ⟨restored _ rfl, rfl, rfl⟩
  next =>
    have back : (p.put width height x).retreat width =
        { p.write p.line p.col x with top := max p.top (p.line + 2 - height) } := by
      have moved : max p.top (p.line + 1 + 1 - height) < p.line + 1 := by omega
      have last : width - 1 = p.col := by omega
      simp [Paper.put, room, Paper.retreat, Paper.newline, follow, moved, last]
    rw [Paper.erase, back]
    exact ⟨restored _ rfl, rfl, rfl⟩

end Paper
