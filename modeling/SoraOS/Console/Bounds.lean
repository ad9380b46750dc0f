import SoraOS.Console.Vga

set_option autoImplicit false

namespace SoraOS.Vga

theorem vgaWriteAt_confined (v : Vga) {row col : Nat} (c color : U8) (rowInside : row < vgaHeight)
    (colInside : col < vgaWidth) :
    Confined (row * vgaWidth) (row * vgaWidth + vgaWidth) v (v.vgaWriteAt row col c color) := by
  apply confined_store
  · omega
  · omega
  · rw [← Nat.succ_mul, Nat.mul_comm vgaWidth]
    exact Nat.mul_le_mul_right _ rowInside

theorem vgaPrintAt_confined (v : Vga) {row : Nat} (col : Nat) (s : List U8) (color : U8)
    (rowInside : row < vgaHeight) :
    Confined (row * vgaWidth) (row * vgaWidth + vgaWidth) v (v.vgaPrintAt row col s color) := by
  induction s generalizing v col with
  | nil => exact .refl _ _ v
  | cons c s ih =>
      rw [vgaPrintAt]
      split
      next more => exact (v.vgaWriteAt_confined c color rowInside more.2).trans (ih _ _)
      next => exact .refl _ _ v

theorem vgaPrintAt_cursor (v : Vga) (row col : Nat) (s : List U8) (color : U8) :
    (v.vgaPrintAt row col s color).cursor = v.cursor := by
  induction s generalizing v col with
  | nil => rfl
  | cons c s ih =>
      rw [vgaPrintAt]
      split
      next => exact ih _ _
      next => rfl

theorem vgaDrawStatusbar_confined (v : Vga) (ticks : U32) :
    Confined 0 vgaWidth v (v.vgaDrawStatusbar ticks) := by
  have top : 0 < vgaHeight := by decide
  have row : Confined (0 * vgaWidth) (0 * vgaWidth + vgaWidth) v (v.vgaDrawStatusbar ticks) := by
    unfold vgaDrawStatusbar
    apply Confined.trans _ (vgaPrintAt_confined _ 70 _ statusColor top)
    apply Confined.trans _ (vgaPrintAt_confined _ 1 _ statusColor top)
    apply Confined.foldl
    intro col member w
    exact w.vgaWriteAt_confined _ _ top (List.mem_range.mp member)
  simpa using row

theorem vgaDrawStatusbar_cursor (v : Vga) (ticks : U32) :
    (v.vgaDrawStatusbar ticks).cursor = v.cursor := by
  simp only [vgaDrawStatusbar, vgaPrintAt_cursor]
  apply foldl_cursor
  intro w col
  rfl

theorem copyRow_confined (v : Vga) {row : Nat} (low : 1 ≤ row) (high : row < vgaHeight - 1) :
    Confined vgaWidth (vgaWidth * vgaHeight) v (v.copyRow row) := by
  apply Confined.foldl
  intro col inside w
  rw [List.mem_range] at inside
  simp only [vgaWidth, vgaHeight] at high inside
  refine confined_copy w ?_ ?_ le_rfl ?_ <;> simp only [vgaWidth, vgaHeight] <;> omega

theorem vgaScroll_confined (v : Vga) :
    Confined vgaWidth (vgaWidth * vgaHeight) v v.vgaScroll := by
  have rows : Confined vgaWidth (vgaWidth * vgaHeight) v
      ((List.range' 1 (vgaHeight - 2)).foldl copyRow v) := by
    apply Confined.foldl
    intro row member w
    rw [List.mem_range'_1] at member
    exact w.copyRow_confined member.1 member.2
  have last (cell : BitVec 16) (w : Vga) : Confined vgaWidth (vgaWidth * vgaHeight) w
      ((List.range vgaWidth).foldl
        (fun w col => w.store ((vgaHeight - 1) * vgaWidth + col) cell) w) := by
    apply Confined.foldl
    intro col inside w
    rw [List.mem_range] at inside
    simp only [vgaWidth] at inside
    refine confined_store w cell ?_ ?_ le_rfl <;> simp only [vgaWidth, vgaHeight] <;> omega
  unfold vgaScroll
  exact (rows.trans (last _ _)).moved _ _

structure Placed (v : Vga) : Prop where
  row : v.row < vgaHeight
  col : v.col < vgaWidth

theorem store_confined (v : Vga) (cell : BitVec 16) (below : 1 ≤ v.row) (placed : v.Placed) :
    Confined vgaWidth (vgaWidth * vgaHeight) v (v.store (v.row * vgaWidth + v.col) cell) := by
  -- A store at a cursor below row 0 stays in the buffer and off the status bar.
  obtain ⟨row, col⟩ := placed
  simp only [vgaWidth, vgaHeight] at row col
  refine confined_store v cell ?_ ?_ le_rfl <;> simp only [vgaWidth, vgaHeight] <;> omega

theorem stepBack_spec (v : Vga) (below : 1 ≤ v.row) (placed : v.Placed) :
    v.stepBack.Placed ∧ 1 ≤ v.stepBack.row ∧
      Confined vgaWidth (vgaWidth * vgaHeight) v v.stepBack := by
  obtain ⟨row, col⟩ := placed
  have last : vgaWidth - 1 < vgaWidth := by decide
  unfold stepBack
  split
  next => exact ⟨⟨row, by simp only; omega⟩, below, ⟨fun _ _ => rfl, rfl⟩⟩
  split
  next above => exact ⟨⟨by simp only; omega, last⟩, by simp only; omega, ⟨fun _ _ => rfl, rfl⟩⟩
  next => exact ⟨⟨row, col⟩, below, .refl _ _ v⟩

theorem place_spec (v : Vga) (c : U8) (below : 1 ≤ v.row) (placed : v.Placed) :
    Confined vgaWidth (vgaWidth * vgaHeight) v (v.place c) ∧ 1 ≤ (v.place c).row ∧
      (v.place c).row ≤ vgaHeight ∧ (v.place c).col < vgaWidth := by
  -- One character below row 0 stays there, and leaves the cursor at most one row too far.
  have wide : 0 < vgaWidth := by decide
  have row := placed.row
  by_cases isNewline : c = newline
  next =>
    simp only [place, isNewline, if_true]
    exact ⟨⟨fun _ _ => rfl, rfl⟩, by omega, by omega, wide⟩
  by_cases isReturn : c = carriageReturn
  next =>
    simp only [place, isReturn]
    exact ⟨⟨fun _ _ => rfl, rfl⟩, below, row.le, wide⟩
  by_cases isBackspace : c = backspace
  next =>
    obtain ⟨back, backBelow, kept⟩ := v.stepBack_spec below placed
    simp only [place, isBackspace]
    exact ⟨kept.trans (v.stepBack.store_confined _ backBelow back), backBelow, back.row.le, back.col⟩
  next =>
    have stored := v.store_confined (vgaEntry c v.color) below placed
    rw [place_ordinary v isNewline isReturn isBackspace]
    simp only
    split
    next => exact ⟨stored.moved _ _, by simp only; omega, by simp only; omega, wide⟩
    next inRow => exact ⟨stored.moved _ _, below, row.le, by simp only; omega⟩

theorem leaveStatusbar_spec (v : Vga) (placed : v.Placed) :
    Confined vgaWidth (vgaWidth * vgaHeight) v v.leaveStatusbar ∧ 1 ≤ v.leaveStatusbar.row ∧
      v.leaveStatusbar.Placed := by
  have second : 1 < vgaHeight := by decide
  unfold leaveStatusbar
  split
  next => exact ⟨⟨fun _ _ => rfl, rfl⟩, le_rfl, ⟨second, placed.col⟩⟩
  next below => exact ⟨.refl _ _ v, by omega, placed⟩

theorem stayInside_spec (v : Vga) (below : 1 ≤ v.row) (col : v.col < vgaWidth) :
    Confined vgaWidth (vgaWidth * vgaHeight) v v.stayInside ∧ 1 ≤ v.stayInside.row ∧
      v.stayInside.Placed := by
  have last : vgaHeight - 1 < vgaHeight := by decide
  have wide : 0 < vgaWidth := by decide
  unfold stayInside
  split
  next => exact ⟨v.vgaScroll_confined, show 1 ≤ vgaHeight - 1 by decide, ⟨last, wide⟩⟩
  next inside => exact ⟨.refl _ _ v, below, ⟨by omega, col⟩⟩

theorem vgaPutchar_spec (v : Vga) (c : U8) (placed : v.Placed) :
    Confined vgaWidth (vgaWidth * vgaHeight) v (v.vgaPutchar c) ∧ 1 ≤ (v.vgaPutchar c).row ∧
      (v.vgaPutchar c).Placed := by
  obtain ⟨left, below, inside⟩ := v.leaveStatusbar_spec placed
  obtain ⟨written, still, _, col⟩ := v.leaveStatusbar.place_spec c below inside
  obtain ⟨scrolled, final, back⟩ := (v.leaveStatusbar.place c).stayInside_spec still col
  exact ⟨((left.trans written).trans scrolled).shown, final, ⟨back.row, back.col⟩⟩

theorem vgaPrint_spec (v : Vga) (s : List U8) (placed : v.Placed) :
    Confined vgaWidth (vgaWidth * vgaHeight) v (v.vgaPrint s) ∧ (v.vgaPrint s).Placed := by
  induction s generalizing v with
  | nil => exact ⟨.refl _ _ v, placed⟩
  | cons c s ih =>
      rw [vgaPrint]
      split
      next => exact ⟨.refl _ _ v, placed⟩
      next =>
        obtain ⟨first, _, inside⟩ := v.vgaPutchar_spec c placed
        obtain ⟨later, last⟩ := ih (v.vgaPutchar c) inside
        exact ⟨first.trans later, last⟩

theorem vgaPrintColor_spec (v : Vga) (s : List U8) (color : U8) (placed : v.Placed) :
    Confined vgaWidth (vgaWidth * vgaHeight) v (v.vgaPrintColor s color) ∧
      (v.vgaPrintColor s color).Placed := by
  obtain ⟨kept, last⟩ := vgaPrint_spec { v with color := color } s ⟨placed.row, placed.col⟩
  exact ⟨⟨kept.outside, kept.inBounds⟩, ⟨last.row, last.col⟩⟩

theorem vgaClear_spec (v : Vga) :
    Confined vgaWidth (vgaWidth * vgaHeight) v v.vgaClear ∧ v.vgaClear.Placed := by
  have second : 1 < vgaHeight := by decide
  have wide : 0 < vgaWidth := by decide
  have filled : Confined vgaWidth (vgaWidth * vgaHeight) v
      ((List.range' vgaWidth (vgaWidth * vgaHeight - vgaWidth)).foldl
        (fun v' i => v'.store i (vgaEntry 0x20#8 v.color)) v) := by
    apply Confined.foldl
    intro i inside w
    rw [List.mem_range'_1] at inside
    simp only [vgaWidth, vgaHeight] at inside
    exact confined_store w _ inside.1 inside.2 le_rfl
  unfold vgaClear
  exact ⟨(filled.moved 1 0).shown, ⟨second, wide⟩⟩

theorem vgaInit_spec (v : Vga) : v.vgaInit.inBounds = v.inBounds ∧ v.vgaInit.Placed := by
  have first : 0 < vgaHeight := by decide
  have wide : 0 < vgaWidth := by decide
  have filled (cell : BitVec 16) (w : Vga) : Confined 0 (vgaWidth * vgaHeight) w
      ((List.range (vgaWidth * vgaHeight)).foldl (fun v i => v.store i cell) w) := by
    apply Confined.foldl
    intro i inside w
    exact confined_store w cell (Nat.zero_le _) (List.mem_range.mp inside) le_rfl
  have still (cell : BitVec 16) (w : Vga) := foldl_store_cursor id cell
    (List.range (vgaWidth * vgaHeight)) w
  simp only [cursor, Prod.mk.injEq, id] at still
  simp only [vgaInit, vgaUpdateHwCursor]
  refine ⟨(filled _ _).inBounds, ⟨?_, ?_⟩⟩
  · rw [(still _ _).1]
    exact first
  · rw [(still _ _).2.1]
    exact wide

/-- The calls of the console, with rows and columns that are on the screen where it matters. -/
inductive Op where
  | vgaInit
  | vgaClear
  | vgaPutchar (c : U8)
  | vgaPrint (s : List U8)
  | vgaPrintColor (s : List U8) (color : U8)
  | vgaSetColor (fg bg : U8)
  | vgaSetCursor (row : Fin vgaHeight) (col : Fin vgaWidth)
  | vgaPrintAt (row : Fin vgaHeight) (col : Nat) (s : List U8) (color : U8)
  | vgaDrawStatusbar (ticks : U32)

def perform (v : Vga) : Op → Vga
  | .vgaInit => v.vgaInit
  | .vgaClear => v.vgaClear
  | .vgaPutchar c => v.vgaPutchar c
  | .vgaPrint s => v.vgaPrint s
  | .vgaPrintColor s color => v.vgaPrintColor s color
  | .vgaSetColor fg bg => v.vgaSetColor fg bg
  | .vgaSetCursor row col => v.vgaSetCursor row col
  | .vgaPrintAt row col s color => v.vgaPrintAt row col s color
  | .vgaDrawStatusbar ticks => v.vgaDrawStatusbar ticks

def Op.scrolls : Op → Bool
  | .vgaClear | .vgaPutchar _ | .vgaPrint _ | .vgaPrintColor _ _ => true
  | _ => false

theorem Placed.of_cursor {v w : Vga} (placed : v.Placed) (same : w.cursor = v.cursor) :
    w.Placed := by
  simp only [cursor, Prod.mk.injEq] at same
  exact ⟨same.1 ▸ placed.row, same.2.1 ▸ placed.col⟩

theorem perform_spec (v : Vga) (op : Op) (placed : v.Placed) :
    (v.perform op).Placed ∧ (v.perform op).inBounds = v.inBounds := by
  cases op with
  | vgaInit => exact ⟨v.vgaInit_spec.2, v.vgaInit_spec.1⟩
  | vgaClear => exact ⟨v.vgaClear_spec.2, v.vgaClear_spec.1.inBounds⟩
  | vgaPutchar c =>
      have put := v.vgaPutchar_spec c placed
      exact ⟨put.2.2, put.1.inBounds⟩
  | vgaPrint s =>
      have printed := v.vgaPrint_spec s placed
      exact ⟨printed.2, printed.1.inBounds⟩
  | vgaPrintColor s color =>
      have printed := v.vgaPrintColor_spec s color placed
      exact ⟨printed.2, printed.1.inBounds⟩
  | vgaSetColor fg bg => exact ⟨⟨placed.row, placed.col⟩, rfl⟩
  | vgaSetCursor row col => exact ⟨⟨row.isLt, col.isLt⟩, rfl⟩
  | vgaPrintAt row col s color =>
      exact ⟨placed.of_cursor (v.vgaPrintAt_cursor row col s color),
        (v.vgaPrintAt_confined col s color row.isLt).inBounds⟩
  | vgaDrawStatusbar ticks =>
      exact ⟨placed.of_cursor (v.vgaDrawStatusbar_cursor ticks),
        (v.vgaDrawStatusbar_confined ticks).inBounds⟩

theorem perform_statusbar (v : Vga) (op : Op) (scrolls : op.scrolls = true) (placed : v.Placed)
    {i : Nat} (top : i < vgaWidth) : (v.perform op).cells i = v.cells i := by
  cases op with
  | vgaClear => exact v.vgaClear_spec.1.outside i (.inl top)
  | vgaPutchar c => exact (v.vgaPutchar_spec c placed).1.outside i (.inl top)
  | vgaPrint s => exact (v.vgaPrint_spec s placed).1.outside i (.inl top)
  | vgaPrintColor s color => exact (v.vgaPrintColor_spec s color placed).1.outside i (.inl top)
  | _ => cases scrolls

theorem run_spec (v : Vga) (ops : List Op) (placed : v.Placed) :
    (ops.foldl perform v).Placed ∧ (ops.foldl perform v).inBounds = v.inBounds := by
  induction ops generalizing v with
  | nil => exact ⟨placed, rfl⟩
  | cons op rest ih =>
      obtain ⟨first, kept⟩ := v.perform_spec op placed
      obtain ⟨last, keptLater⟩ := ih (v.perform op) first
      exact ⟨last, keptLater.trans kept⟩

/-- The statics of `vga.c` before any call; the buffer holds anything. -/
def poweredOn (cells : Nat → BitVec 16) (hwCursor : BitVec 16) : Vga where
  cells := cells
  row := 0
  col := 0
  color := 0x07#8
  hwCursor := hwCursor
  inBounds := true

/--
After any calls the cursor is on the screen and every access was in the buffer, and a call that
clears or prints does not touch the status bar.
-/
theorem console_bounds (cells : Nat → BitVec 16) (hwCursor : BitVec 16) (ops : List Op) :
    let v := ops.foldl perform (poweredOn cells hwCursor)
    v.row < vgaHeight ∧ v.col < vgaWidth ∧ v.inBounds = true ∧
      ∀ op, op.scrolls = true → ∀ i < vgaWidth, (v.perform op).cells i = v.cells i := by
  have start : (poweredOn cells hwCursor).Placed :=
    ⟨show 0 < vgaHeight by decide, show 0 < vgaWidth by decide⟩
  obtain ⟨placed, kept⟩ := run_spec _ ops start
  refine ⟨placed.row, placed.col, kept, ?_⟩
  intro op scrolls i top
  exact perform_statusbar _ op scrolls placed top

end SoraOS.Vga
