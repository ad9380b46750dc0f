import SoraOS.Memory.Pmm

set_option autoImplicit false

namespace SoraOS

def vgaWidth : Nat := 80
def vgaHeight : Nat := 25

structure Vga where
  cells : Nat → BitVec 16
  row : Nat
  col : Nat
  color : U8
  -- The position last sent to the hardware cursor.
  hwCursor : BitVec 16
  -- Whether every index into the buffer so far was below 2000; nothing reads this.
  inBounds : Bool

namespace Vga

def vgaEntry (c color : U8) : BitVec 16 := c.setWidth 16 ||| (color.setWidth 16 <<< 8)

def store (v : Vga) (index : Nat) (cell : BitVec 16) : Vga :=
  { v with
    cells := Function.update v.cells index cell
    inBounds := v.inBounds && decide (index < vgaWidth * vgaHeight) }

def copy (v : Vga) (target index : Nat) : Vga :=
  { v with inBounds := v.inBounds && decide (index < vgaWidth * vgaHeight) }.store target
    (v.cells index)

def vgaUpdateHwCursor (v : Vga) : Vga :=
  { v with hwCursor := BitVec.ofNat 16 (v.row * vgaWidth + v.col) }

def vgaSetCursor (v : Vga) (row col : Nat) : Vga :=
  { v with row := row, col := col }.vgaUpdateHwCursor

def vgaSetColor (v : Vga) (fg bg : U8) : Vga := { v with color := (bg <<< 4) ||| (fg &&& 0x0F#8) }

def vgaWriteAt (v : Vga) (row col : Nat) (c color : U8) : Vga :=
  v.store (row * vgaWidth + col) (vgaEntry c color)

def ascii (s : String) : List U8 := s.toList.map fun c => BitVec.ofNat 8 c.toNat

/-- A C string is a list of bytes; it ends at its first NUL, or at the end of the list. -/
def vgaPrintAt (v : Vga) (row col : Nat) : List U8 → U8 → Vga
  | [], _ => v
  | c :: s, color =>
      if c ≠ 0#8 ∧ col < vgaWidth then (v.vgaWriteAt row col c color).vgaPrintAt row (col + 1) s color
      else v

def statusColor : U8 := 0x17#8

/-- The digits of `n`, none for 0: `tmp` is filled from the last digit and copied backwards. -/
def decimalDigits : Nat → Nat → List U8
  | 0, _ => []
  | fuel + 1, n =>
      if n = 0 then [] else decimalDigits fuel (n / 10) ++ [BitVec.ofNat 8 (0x30 + n % 10)]

/-- `buf`: "UP: ", the seconds, and "s". -/
def uptime (ticks : U32) : List U8 :=
  let secs := (ticks / 100#32).toNat
  [0x55#8, 0x50#8, 0x3A#8, 0x20#8] ++
    (if secs = 0 then [0x30#8] else decimalDigits 10 secs) ++ [0x73#8]

/-- "Vamos OS v1.0" -/
def osName : List U8 :=
  [0x56#8, 0x61#8, 0x6D#8, 0x6F#8, 0x73#8, 0x20#8, 0x4F#8, 0x53#8, 0x20#8, 0x76#8, 0x31#8, 0x2E#8,
    0x30#8]

def vgaDrawStatusbar (v : Vga) (ticks : U32) : Vga :=
  let v := (List.range vgaWidth).foldl (fun v c => v.vgaWriteAt 0 c 0x20#8 statusColor) v
  let v := v.vgaPrintAt 0 1 osName statusColor
  v.vgaPrintAt 0 70 (uptime ticks) statusColor

def vgaClear (v : Vga) : Vga :=
  let blank := vgaEntry 0x20#8 v.color
  let v := (List.range' vgaWidth (vgaWidth * vgaHeight - vgaWidth)).foldl
    (fun v i => v.store i blank) v
  { v with row := 1, col := 0 }.vgaUpdateHwCursor

def vgaInit (v : Vga) : Vga :=
  let v := { v with color := 0x07#8, row := 0, col := 0 }
  let blank := vgaEntry 0x20#8 v.color
  let v := (List.range (vgaWidth * vgaHeight)).foldl (fun v i => v.store i blank) v
  v.vgaUpdateHwCursor

def copyRow (v : Vga) (row : Nat) : Vga :=
  -- the inner loop of `vga_scroll`
  (List.range vgaWidth).foldl
    (fun v col => v.copy (row * vgaWidth + col) ((row + 1) * vgaWidth + col)) v

def vgaScroll (v : Vga) : Vga :=
  let v := (List.range' 1 (vgaHeight - 2)).foldl copyRow v
  let blank := vgaEntry 0x20#8 v.color
  let v := (List.range vgaWidth).foldl
    (fun v col => v.store ((vgaHeight - 1) * vgaWidth + col) blank) v
  { v with row := vgaHeight - 1, col := 0 }

def newline : U8 := 0x0A#8
def carriageReturn : U8 := 0x0D#8
def backspace : U8 := 0x08#8

def stepBack (v : Vga) : Vga :=
  if v.col > 0 then { v with col := v.col - 1 }
  else if v.row > 1 then { v with row := v.row - 1, col := vgaWidth - 1 }
  else v

def place (v : Vga) (c : U8) : Vga :=
  if c = newline then { v with col := 0, row := v.row + 1 }
  else if c = carriageReturn then { v with col := 0 }
  else if c = backspace then
    let v := v.stepBack
    v.store (v.row * vgaWidth + v.col) (vgaEntry 0x20#8 v.color)
  else
    let v := v.store (v.row * vgaWidth + v.col) (vgaEntry c v.color)
    let v := { v with col := v.col + 1 }
    if v.col ≥ vgaWidth then { v with col := 0, row := v.row + 1 } else v

/-- `if (vga_row == 0) vga_row = 1;`: row 0 is the status bar. -/
def leaveStatusbar (v : Vga) : Vga := if v.row = 0 then { v with row := 1 } else v

/-- `if (vga_row >= VGA_HEIGHT) vga_scroll();` -/
def stayInside (v : Vga) : Vga := if v.row ≥ vgaHeight then v.vgaScroll else v

theorem stayInside_of_lt {v : Vga} (inside : v.row < vgaHeight) : v.stayInside = v := by
  rw [stayInside, if_neg (Nat.not_le_of_lt inside)]

def vgaPutchar (v : Vga) (c : U8) : Vga :=
  ((v.leaveStatusbar.place c).stayInside).vgaUpdateHwCursor

def vgaPrint (v : Vga) : List U8 → Vga
  | [] => v
  | c :: s => if c = 0#8 then v else (v.vgaPutchar c).vgaPrint s

def vgaPrintColor (v : Vga) (s : List U8) (color : U8) : Vga :=
  let saved := v.color
  let v := { v with color := color }.vgaPrint s
  { v with color := saved }

@[simp] theorem store_cells (v : Vga) (index : Nat) (cell : BitVec 16) (i : Nat) :
    (v.store index cell).cells i = if i = index then cell else v.cells i :=
  Function.update_apply _ _ _ _

@[simp] theorem copy_cells (v : Vga) (target index i : Nat) :
    (v.copy target index).cells i = if i = target then v.cells index else v.cells i :=
  Function.update_apply _ _ _ _

structure Confined (low high : Nat) (v v' : Vga) : Prop where
  outside : ∀ i, i < low ∨ high ≤ i → v'.cells i = v.cells i
  inBounds : v'.inBounds = v.inBounds

theorem Confined.refl (low high : Nat) (v : Vga) : Confined low high v v := ⟨fun _ _ => rfl, rfl⟩

theorem Confined.trans {low high : Nat} {v v' v'' : Vga} (first : Confined low high v v')
    (second : Confined low high v' v'') : Confined low high v v'' :=
  ⟨fun i out => (second.outside i out).trans (first.outside i out),
    second.inBounds.trans first.inBounds⟩

theorem Confined.moved {low high : Nat} {v v' : Vga} (h : Confined low high v v') (row col : Nat) :
    Confined low high v { v' with row := row, col := col } :=
  ⟨h.outside, h.inBounds⟩

theorem Confined.shown {low high : Nat} {v v' : Vga} (h : Confined low high v v') :
    Confined low high v v'.vgaUpdateHwCursor :=
  ⟨h.outside, h.inBounds⟩

theorem Confined.foldl {ι : Type} {low high : Nat} {f : Vga → ι → Vga} (l : List ι)
    (each : ∀ i ∈ l, ∀ v, Confined low high v (f v i)) (v : Vga) :
    Confined low high v (l.foldl f v) := by
  induction l generalizing v with
  | nil => exact .refl low high v
  | cons i rest ih =>
      have first := each i (by simp) v
      exact first.trans (ih (fun j member => each j (List.mem_cons_of_mem _ member)) _)

theorem confined_store {low high index : Nat} (v : Vga) (cell : BitVec 16) (above : low ≤ index)
    (below : index < high) (fits : high ≤ vgaWidth * vgaHeight) :
    Confined low high v (v.store index cell) := by
  constructor
  next =>
    intro i out
    exact Function.update_of_ne (by omega) _ _
  next =>
    have inside : index < vgaWidth * vgaHeight := by omega
    simp [store, inside]

theorem confined_copy {low high target index : Nat} (v : Vga) (above : low ≤ target)
    (below : target < high) (fits : high ≤ vgaWidth * vgaHeight)
    (inside : index < vgaWidth * vgaHeight) : Confined low high v (v.copy target index) := by
  have stored := confined_store { v with inBounds := v.inBounds && decide (index < vgaWidth * vgaHeight) }
    (v.cells index) above below fits
  refine ⟨stored.outside, stored.inBounds.trans ?_⟩
  simp [inside]

/-- What loops that only fill cells leave alone. -/
def cursor (v : Vga) : Nat × Nat × U8 × BitVec 16 := (v.row, v.col, v.color, v.hwCursor)

theorem foldl_cursor {ι : Type} {f : Vga → ι → Vga} (each : ∀ v i, (f v i).cursor = v.cursor)
    (l : List ι) (v : Vga) : (l.foldl f v).cursor = v.cursor := by
  induction l generalizing v with
  | nil => rfl
  | cons i rest ih => exact (ih (f v i)).trans (each v i)

theorem color_of_cursor {v w : Vga} (same : v.cursor = w.cursor) : v.color = w.color :=
  congrArg (fun c => c.2.2.1) same

theorem foldl_store_cursor {ι : Type} (g : ι → Nat) (cell : BitVec 16) (l : List ι) (v : Vga) :
    (l.foldl (fun v j => v.store (g j) cell) v).cursor = v.cursor := by
  apply foldl_cursor
  intro w j
  rfl

theorem foldl_store_cells {ι : Type} (g : ι → Nat) (cell : BitVec 16) (l : List ι) (v : Vga)
    (i : Nat) :
    (l.foldl (fun v j => v.store (g j) cell) v).cells i =
      if i ∈ l.map g then cell else v.cells i := by
  induction l generalizing v with
  | nil => simp
  | cons j rest ih =>
      rw [List.foldl_cons, ih]
      by_cases later : i ∈ rest.map g <;> by_cases now : i = g j <;>
        simp [*]

theorem copyRow_partial (v : Vga) (row n : Nat) (within : n ≤ vgaWidth) (i : Nat) :
    ((List.range n).foldl
        (fun v col => v.copy (row * vgaWidth + col) ((row + 1) * vgaWidth + col)) v).cells i =
      if row * vgaWidth ≤ i ∧ i < row * vgaWidth + n then v.cells (i + vgaWidth) else v.cells i := by
  -- The first `n` copies of a row; the row below is still unwritten.
  induction n generalizing i with
  | zero => simp
  | succ n ih =>
      rw [List.range_succ, List.foldl_append, List.foldl_cons, List.foldl_nil, copy_cells,
        ih (by omega), ih (by omega)]
      have below : (row + 1) * vgaWidth + n = row * vgaWidth + n + vgaWidth := by
        rw [Nat.succ_mul]
        omega
      have unwritten : ¬ (row * vgaWidth ≤ row * vgaWidth + n + vgaWidth ∧
          row * vgaWidth + n + vgaWidth < row * vgaWidth + n) := by omega
      rw [below, if_neg unwritten]
      by_cases here : i = row * vgaWidth + n
      next => simp [here]
      next =>
        rw [if_neg here]
        by_cases inside : row * vgaWidth ≤ i ∧ i < row * vgaWidth + n
        next => rw [if_pos inside, if_pos (by omega)]
        next => rw [if_neg inside, if_neg (by omega)]

theorem copyRow_cells (v : Vga) (row i : Nat) :
    (v.copyRow row).cells i =
      if row * vgaWidth ≤ i ∧ i < row * vgaWidth + vgaWidth then v.cells (i + vgaWidth)
      else v.cells i :=
  copyRow_partial v row vgaWidth le_rfl i

theorem copyRow_cursor (v : Vga) (row : Nat) : (v.copyRow row).cursor = v.cursor := by
  apply foldl_cursor
  intro w col
  rfl

theorem copyRows_cells (v : Vga) (n i : Nat) :
    ((List.range' 1 n).foldl copyRow v).cells i =
      if vgaWidth ≤ i ∧ i < (n + 1) * vgaWidth then v.cells (i + vgaWidth) else v.cells i := by
  induction n generalizing i with
  | zero =>
      rw [if_neg (by omega)]
      rfl
  | succ n ih =>
      rw [List.range'_1_concat, List.foldl_append, List.foldl_cons, List.foldl_nil, copyRow_cells,
        ih, ih, Nat.add_comm 1 n, Nat.succ_mul (n + 1)]
      generalize stop : (n + 1) * vgaWidth = written
      have least : vgaWidth ≤ written := by
        rw [← stop, Nat.succ_mul]
        omega
      by_cases here : written ≤ i ∧ i < written + vgaWidth
      next => rw [if_pos here, if_neg (by omega), if_pos (by omega)]
      next =>
        rw [if_neg here]
        by_cases inside : vgaWidth ≤ i ∧ i < written
        next => rw [if_pos inside, if_pos (by omega)]
        next => rw [if_neg inside, if_neg (by omega)]

theorem vgaScroll_cells (v : Vga) (i : Nat) :
    v.vgaScroll.cells i =
      if (vgaHeight - 1) * vgaWidth ≤ i ∧ i < vgaHeight * vgaWidth then vgaEntry 0x20#8 v.color
      else if vgaWidth ≤ i ∧ i < (vgaHeight - 1) * vgaWidth then v.cells (i + vgaWidth)
      else v.cells i := by
  -- Rows 2 to 24 move up by one, row 24 becomes blank, and row 0 stays.
  have lastRow : i ∈ (List.range vgaWidth).map (fun col => (vgaHeight - 1) * vgaWidth + col) ↔
      (vgaHeight - 1) * vgaWidth ≤ i ∧ i < vgaHeight * vgaWidth := by
    simp only [List.mem_map, List.mem_range, vgaHeight, vgaWidth]
    constructor
    next =>
      rintro ⟨col, small, rfl⟩
      omega
    next => exact fun inside => ⟨i - 1920, by omega, by omega⟩
  have color : ((List.range' 1 (vgaHeight - 2)).foldl copyRow v).color = v.color :=
    color_of_cursor (foldl_cursor copyRow_cursor _ v)
  have rows : vgaHeight - 2 + 1 = vgaHeight - 1 := rfl
  simp only [vgaScroll, foldl_store_cells, lastRow, copyRows_cells, color, rows]

@[simp] theorem vgaScroll_row (v : Vga) : v.vgaScroll.row = vgaHeight - 1 := rfl
@[simp] theorem vgaScroll_col (v : Vga) : v.vgaScroll.col = 0 := rfl

theorem place_ordinary (v : Vga) {c : U8} (notNewline : c ≠ newline)
    (notReturn : c ≠ carriageReturn) (notBackspace : c ≠ backspace) :
    v.place c =
      let w := v.store (v.row * vgaWidth + v.col) (vgaEntry c v.color)
      if v.col + 1 ≥ vgaWidth then { w with col := 0, row := v.row + 1 }
      else { w with col := v.col + 1 } := by
  simp only [place, notNewline, notReturn, notBackspace, if_false]
  rfl

def charAt (v : Vga) (i : Nat) : U8 := (v.cells i).setWidth 8

@[simp] theorem setWidth_vgaEntry (c color : U8) : (vgaEntry c color).setWidth 8 = c := by
  apply BitVec.eq_of_getLsbD_eq
  intro i small
  simp [vgaEntry, small]

theorem charAt_store (v : Vga) (index : Nat) (c color : U8) (i : Nat) :
    (v.store index (vgaEntry c color)).charAt i = if i = index then c else v.charAt i := by
  rw [charAt, store_cells]
  split
  next => exact setWidth_vgaEntry c color
  next => rfl

end Vga

end SoraOS
