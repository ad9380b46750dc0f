import SoraOS.Boot.Interrupts
import SoraOS.Session.Refinement

set_option autoImplicit false

/-! `kernel.c`: what a panic leaves on the screen and sends to the serial line. -/

namespace SoraOS

namespace Vga

def Printable (s : List U8) : Prop :=
  ∀ c ∈ s, c ≠ 0#8 ∧ c ≠ newline ∧ c ≠ carriageReturn ∧ c ≠ backspace

instance (s : List U8) : Decidable (Printable s) := inferInstanceAs (Decidable (∀ c ∈ s, _))

theorem vgaPutchar_inRow (v : Vga) {c : U8} (printable : Printable [c]) (below : 1 ≤ v.row)
    (inside : v.row < vgaHeight) (fits : v.col + 1 < vgaWidth) :
    (v.vgaPutchar c).row = v.row ∧ (v.vgaPutchar c).col = v.col + 1 ∧
      (v.vgaPutchar c).color = v.color ∧ ∀ i, (v.vgaPutchar c).cells i =
        if i = v.row * vgaWidth + v.col then vgaEntry c v.color else v.cells i := by
  obtain ⟨-, notNewline, notReturn, notBackspace⟩ := printable c (by simp)
  have placed : v.vgaPutchar c =
      ({ v.store (v.row * vgaWidth + v.col) (vgaEntry c v.color) with
        col := v.col + 1 } : Vga).vgaUpdateHwCursor := by
    rw [vgaPutchar, leaveStatusbar, if_neg (by omega),
      place_ordinary v notNewline notReturn notBackspace]
    simp only
    rw [if_neg (by omega), stayInside_of_lt]
    exact inside
  rw [placed]
  exact ⟨rfl, rfl, rfl, fun i => store_cells _ _ _ i⟩

theorem vgaPrint_inRow (v : Vga) {s : List U8} (printable : Printable s) (below : 1 ≤ v.row)
    (inside : v.row < vgaHeight) (fits : v.col + s.length < vgaWidth) :
    (v.vgaPrint s).row = v.row ∧ (v.vgaPrint s).color = v.color ∧
      ∀ i, (v.vgaPrint s).cells i =
        if v.row * vgaWidth + v.col ≤ i ∧ i < v.row * vgaWidth + v.col + s.length then
          vgaEntry (s.getD (i - (v.row * vgaWidth + v.col)) 0#8) v.color
        else v.cells i := by
  induction s generalizing v with
  | nil =>
      refine ⟨rfl, rfl, fun i => ?_⟩
      rw [if_neg (by simp only [List.length_nil]; omega)]
      rfl
  | cons c s ih =>
      rw [List.length_cons] at fits
      have first : Printable [c] := fun d member => printable d (by simp_all)
      have rest : Printable s := fun d member => printable d (List.mem_cons_of_mem _ member)
      obtain ⟨row, col, color, stored⟩ := vgaPutchar_inRow v first below inside (by omega)
      obtain ⟨row', color', cells⟩ :=
        ih (v.vgaPutchar c) rest (by omega) (by omega) (by omega)
      rw [vgaPrint, if_neg (first c (by simp)).1]
      refine ⟨row'.trans row, color'.trans color, fun i => ?_⟩
      rw [cells, stored, row, col, color, List.length_cons, ← Nat.add_assoc]
      generalize v.row * vgaWidth + v.col = start
      by_cases here : i = start
      next => simp [here]
      next =>
        by_cases later : start + 1 ≤ i ∧ i < start + 1 + s.length
        next =>
          have index : i - start = i - (start + 1) + 1 := by omega
          rw [if_pos later, if_pos (by omega), index, List.getD_cons_succ]
        next => rw [if_neg later, if_neg here, if_neg (by omega)]

theorem vgaScroll_color (v : Vga) : v.vgaScroll.color = v.color := by
  have rows : ((List.range' 1 (vgaHeight - 2)).foldl copyRow v).color = v.color :=
    color_of_cursor (foldl_cursor copyRow_cursor _ v)
  simp only [vgaScroll]
  rw [color_of_cursor (foldl_store_cursor _ _ _ _), rows]

/-- What a newline makes of the text: where there is no next row, it moves up by one. -/
theorem vgaPutchar_newline (v : Vga) (placed : v.Placed) :
    let w := v.vgaPutchar newline
    w.col = 0 ∧ w.row = min (max v.row 1 + 1) (vgaHeight - 1) ∧
      ∀ i, vgaWidth ≤ i → i < w.row * vgaWidth →
        w.cells i = v.cells (i + (max v.row 1 + 1 - w.row) * vgaWidth) := by
  have rows : vgaHeight = 25 := rfl
  have row : v.leaveStatusbar.row = max v.row 1 := by
    rw [leaveStatusbar]
    split
    next top => simp [top]
    next notTop => omega
  have cells : v.leaveStatusbar.cells = v.cells := by
    rw [leaveStatusbar]
    split <;> rfl
  have inside := placed.row
  have placedNext : v.leaveStatusbar.place newline =
      { v.leaveStatusbar with col := 0, row := max v.row 1 + 1 } := by
    rw [place, if_pos rfl, row]
  simp only [vgaPutchar, placedNext, stayInside]
  by_cases room : max v.row 1 + 1 < vgaHeight
  next =>
    rw [if_neg (by omega)]
    refine ⟨rfl, by simp only [vgaUpdateHwCursor]; omega, fun i _ _ => ?_⟩
    simp only [vgaUpdateHwCursor, Nat.sub_self, Nat.zero_mul, Nat.add_zero, cells]
  next =>
    rw [if_pos (by omega)]
    simp only [vgaUpdateHwCursor, vgaScroll_row, vgaScroll_col]
    refine ⟨trivial, by omega, fun i low high => ?_⟩
    have one : max v.row 1 + 1 - (vgaHeight - 1) = 1 := by omega
    rw [vgaScroll_cells, if_neg (by omega), if_pos ⟨low, high⟩, one, Nat.one_mul, ← cells]

theorem place_color (v : Vga) (c : U8) : (v.place c).color = v.color := by
  by_cases isNewline : c = newline
  next => rw [place, if_pos isNewline]
  next =>
    by_cases isReturn : c = carriageReturn
    next => rw [place, if_neg isNewline, if_pos isReturn]
    next =>
      by_cases isBackspace : c = backspace
      next =>
        rw [place, if_neg isNewline, if_neg isReturn, if_pos isBackspace, stepBack]
        split_ifs <;> rfl
      next =>
        rw [place_ordinary v isNewline isReturn isBackspace]
        simp only
        split <;> rfl

theorem stayInside_color (v : Vga) : v.stayInside.color = v.color := by
  rw [stayInside]
  split
  next => exact vgaScroll_color v
  next => rfl

theorem vgaPutchar_color (v : Vga) (c : U8) : (v.vgaPutchar c).color = v.color := by
  have top : v.leaveStatusbar.color = v.color := by
    rw [leaveStatusbar]
    split <;> rfl
  show (v.leaveStatusbar.place c).stayInside.color = v.color
  rw [stayInside_color, place_color, top]

theorem vgaPrint_color (v : Vga) (s : List U8) : (v.vgaPrint s).color = v.color := by
  induction s generalizing v with
  | nil => rfl
  | cons c s ih =>
      rw [vgaPrint]
      split
      next => rfl
      next => rw [ih, vgaPutchar_color]

theorem vgaPrint_append (v : Vga) {s : List U8} (unzero : 0#8 ∉ s) (t : List U8) :
    v.vgaPrint (s ++ t) = (v.vgaPrint s).vgaPrint t := by
  induction s generalizing v with
  | nil => rfl
  | cons c s ih =>
      rw [List.mem_cons, not_or] at unzero
      rw [List.cons_append, vgaPrint, if_neg (Ne.symm unzero.1), ih _ unzero.2, vgaPrint,
        if_neg (Ne.symm unzero.1)]

theorem vgaPrintColor_append (v : Vga) {s : List U8} (unzero : 0#8 ∉ s) (t : List U8) (color : U8) :
    (v.vgaPrintColor s color).vgaPrintColor t color = v.vgaPrintColor (s ++ t) color := by
  have same := vgaPrint_color { v with color := color } s
  rw [vgaPrintColor, vgaPrintColor, vgaPrintColor, vgaPrint_append _ unzero]
  generalize ({ v with color := color } : Vga).vgaPrint s = w at same ⊢
  cases w
  cases same
  rfl

theorem Printable.unzero {s : List U8} (printable : Printable s) : 0#8 ∉ s :=
  fun member => (printable _ member).1 rfl

theorem vgaPrintColor_line (v : Vga) (placed : v.Placed) {line : List U8}
    (printable : Printable line) (short : line.length < vgaWidth) (color : U8) :
    let w := v.vgaPrintColor (newline :: line ++ [newline]) color
    w.col = 0 ∧ w.row = min (max v.row 1 + 2) (vgaHeight - 1) ∧
      (∀ i < line.length,
        w.cells ((w.row - 1) * vgaWidth + i) = vgaEntry (line.getD i 0#8) color) ∧
      ∀ i, vgaWidth ≤ i → i + (max v.row 1 + 2 - w.row) * vgaWidth < (max v.row 1 + 1) * vgaWidth →
        w.cells i = v.cells (i + (max v.row 1 + 2 - w.row) * vgaWidth) := by
  have placed₀ : ({ v with color := color } : Vga).Placed := ⟨placed.row, placed.col⟩
  have opened := vgaPutchar_newline _ placed₀
  have openedPlaced := vgaPutchar_spec _ newline placed₀
  have openedColor := vgaPutchar_color { v with color := color } newline
  have printed : v.vgaPrintColor (newline :: line ++ [newline]) color =
      { ((({ v with color := color } : Vga).vgaPutchar newline).vgaPrint line).vgaPutchar newline
        with color := v.color } := by
    rw [vgaPrintColor, List.cons_append, vgaPrint, if_neg (by decide),
      vgaPrint_append _ printable.unzero]
    rfl
  rw [printed]
  generalize ({ v with color := color } : Vga).vgaPutchar newline = a at *
  obtain ⟨aCol, aRow, aCells⟩ := opened
  obtain ⟨-, below, aPlaced⟩ := openedPlaced
  simp only at aRow aCells openedColor
  have inside := aPlaced.row
  obtain ⟨bRow, -, bCells⟩ := vgaPrint_inRow a printable below inside (by omega)
  have closed := vgaPutchar_newline (a.vgaPrint line) (a.vgaPrint_spec line aPlaced).2
  generalize a.vgaPrint line = b at *
  generalize b.vgaPutchar newline = w at *
  obtain ⟨wCol, wRow, wCells⟩ := closed
  have rows : vgaHeight = 25 := rfl
  have was := placed.row
  rw [aCol, Nat.add_zero, openedColor] at bCells
  refine ⟨wCol, by simp only; omega, ?_, ?_⟩
  · intro i within
    have above : vgaWidth ≤ (w.row - 1) * vgaWidth + i ∧
        (w.row - 1) * vgaWidth + i < w.row * vgaWidth := by
      simp only [vgaWidth] at short ⊢
      omega
    have index : (w.row - 1) * vgaWidth + i + (max b.row 1 + 1 - w.row) * vgaWidth =
        a.row * vgaWidth + i := by
      simp only [vgaWidth]
      omega
    rw [wCells _ above.1 above.2, index, bCells, if_pos (by omega), Nat.add_sub_cancel_left]
  · intro i low high
    have above : i < w.row * vgaWidth := by
      simp only [vgaWidth] at high ⊢
      omega
    have before : i + (max b.row 1 + 1 - w.row) * vgaWidth < a.row * vgaWidth := by
      simp only [vgaWidth] at high ⊢
      omega
    have index : i + (max b.row 1 + 1 - w.row) * vgaWidth + (max v.row 1 + 1 - a.row) * vgaWidth =
        i + (max v.row 1 + 2 - w.row) * vgaWidth := by
      simp only [vgaWidth]
      omega
    rw [wCells _ low above, bCells, if_neg (by omega), aCells _ (by omega) before, index]

end Vga

namespace Boot

open X86 Stubs Vga Session

def panicColor : U8 := 0x4F#8
def panicBefore : List U8 := ascii "\n*** KERNEL PANIC: "
def panicAfter : List U8 := ascii " ***\n"

/-- What `kernel_panic` prints before it halts, on the screen and with `serial_print`. -/
structure Panicked where
  vga : Vga
  serial : List (List U8)

def kernelPanic (v : Vga) (serialReady : Bool) (message : List U8) : Panicked where
  vga :=
    ((v.vgaPrintColor panicBefore panicColor).vgaPrintColor message panicColor).vgaPrintColor
      panicAfter panicColor
  serial := if serialReady then [panicBefore, message, panicAfter] else []

def panicLine (message : List U8) : List U8 :=
  ascii "*** KERNEL PANIC: " ++ message ++ ascii " ***"

theorem printable_ascii {chars : List Char}
    (each : (chars.all fun c => 32 ≤ c.toNat && c.toNat < 127) = true) :
    Printable (ascii (String.ofList chars)) := by
  intro byte member
  rw [ascii, String.toList_ofList] at member
  obtain ⟨c, listed, rfl⟩ := List.mem_map.mp member
  have bounds := List.all_eq_true.mp each c listed
  simp only [Bool.and_eq_true, decide_eq_true_eq] at bounds
  have value : (BitVec.ofNat 8 c.toNat).toNat = c.toNat := by
    rw [BitVec.toNat_ofNat]
    omega
  have differs (control : U8) (low : control.toNat < 32) : BitVec.ofNat 8 c.toNat ≠ control := by
    rintro rfl
    omega
  exact ⟨differs _ (by decide), differs _ (by decide), differs _ (by decide), differs _ (by decide)⟩

theorem length_ascii (chars : List Char) : (ascii (String.ofList chars)).length = chars.length := by
  rw [ascii, String.toList_ofList, List.length_map]

theorem printable_panicLine {message : List U8} (printable : Printable message) :
    Printable (panicLine message) := by
  intro c member
  rw [panicLine, List.mem_append, List.mem_append] at member
  rcases member with (before | inside) | after
  · exact printable_ascii rfl c before
  · exact printable c inside
  · exact printable_ascii rfl c after

theorem panicLine_length (message : List U8) :
    (panicLine message).length = message.length + 22 := by
  have before : (ascii "*** KERNEL PANIC: ").length = 18 := length_ascii _
  have after : (ascii " ***").length = 4 := length_ascii _
  simp only [panicLine, List.length_append, before, after]
  omega

theorem panicLine_fits {message : List U8} (short : message.length < 58) :
    (panicLine message).length < vgaWidth := by
  rw [panicLine_length, vgaWidth]
  omega

theorem panicText_eq (message : List U8) :
    panicBefore ++ message ++ panicAfter = newline :: panicLine message ++ [newline] := by
  have before : panicBefore = newline :: ascii "*** KERNEL PANIC: " := by decide
  have after : panicAfter = ascii " ***" ++ [newline] := by decide
  rw [before, after, panicLine]
  simp only [List.cons_append, List.append_assoc]

theorem kernelPanic_vga (v : Vga) (serialReady : Bool) {message : List U8}
    (printable : Printable message) : (kernelPanic v serialReady message).vga =
      v.vgaPrintColor (newline :: panicLine message ++ [newline]) panicColor := by
  have before : 0#8 ∉ panicBefore := by decide
  rw [← panicText_eq, kernelPanic, vgaPrintColor_append _ before, vgaPrintColor_append]
  rw [List.mem_append, not_or]
  exact ⟨before, printable.unzero⟩

/--
A message of at most 57 characters stands in the row above the cursor, white on red, whatever was on
the screen; no access is outside of the buffer, the status bar stays, and the text down to the row
of the cursor is still there, moved up by as many rows as the screen had to be scrolled. The serial
line gets the same bytes.
-/
theorem panic_shown (v : Vga) (placed : v.Placed) (serialReady : Bool) {message : List U8}
    (printable : Printable message) (short : message.length < 58) :
    let w := (kernelPanic v serialReady message).vga
    w.inBounds = v.inBounds ∧ w.col = 0 ∧ w.row = min (max v.row 1 + 2) (vgaHeight - 1) ∧
      (∀ i < (panicLine message).length, w.cells ((w.row - 1) * vgaWidth + i) =
        vgaEntry ((panicLine message).getD i 0#8) panicColor) ∧
      (∀ i, vgaWidth ≤ i →
        i + (max v.row 1 + 2 - w.row) * vgaWidth < (max v.row 1 + 1) * vgaWidth →
        w.cells i = v.cells (i + (max v.row 1 + 2 - w.row) * vgaWidth)) ∧
      (∀ i < vgaWidth, w.cells i = v.cells i) ∧
      (kernelPanic v serialReady message).serial.flatMap cString =
        if serialReady then newline :: panicLine message ++ [newline] else [] := by
  have confined := v.vgaPrintColor_spec (newline :: panicLine message ++ [newline]) panicColor placed
  have line := v.vgaPrintColor_line placed (printable_panicLine printable) (panicLine_fits short)
    panicColor
  simp only [kernelPanic_vga v serialReady printable]
  obtain ⟨col, row, banner, above⟩ := line
  refine ⟨confined.1.inBounds, col, row, banner, above,
    fun i top => confined.1.outside i (.inl top), ?_⟩
  rw [← panicText_eq]
  have said : cString message = message := by
    rw [cString, List.takeWhile_eq_self_iff]
    exact fun c member => by simpa using (printable c member).1
  have around : cString panicBefore = panicBefore ∧ cString panicAfter = panicAfter := by decide
  cases serialReady with
  | true => simp [kernelPanic, said, around]
  | false => rfl

theorem panic_shown_poweredOn :
    let w := (kernelPanic (poweredOn (fun _ => 0#16) 0#16) false (ascii "Page Fault")).vga
    w.inBounds = true ∧ w.row = 3 ∧
      w.cells (2 * vgaWidth + 18) =
        vgaEntry ((panicLine (ascii "Page Fault")).getD 18 0#8) panicColor := by
  have placed : (poweredOn (fun _ => 0#16) 0#16).Placed :=
    ⟨show 0 < vgaHeight by decide, show 0 < vgaWidth by decide⟩
  have printable : Printable (ascii "Page Fault") := printable_ascii rfl
  have length : (ascii "Page Fault").length = 10 := length_ascii _
  have shown := panic_shown _ placed false printable (by omega)
  obtain ⟨inBounds, -, row, banner, -⟩ := shown
  have third : (kernelPanic (poweredOn (fun _ => 0#16) 0#16) false (ascii "Page Fault")).vga.row =
      3 := row
  have letter := banner 18 (by simp only [panicLine_length, length, Nat.reduceAdd, Nat.reduceLT])
  rw [third, show 3 - 1 = 2 from rfl] at letter
  exact ⟨inBounds, third, letter⟩

theorem exceptionNames_printable (vector : Fin 32) :
    Printable (exceptionNames.get vector) ∧ (exceptionNames.get vector).length < 58 := by
  have name (chars : List Char)
      (each : (chars.all fun c => 32 ≤ c.toNat && c.toNat < 127) = true)
      (short : chars.length < 58) :
      Printable (ascii (String.ofList chars)) ∧ (ascii (String.ofList chars)).length < 58 :=
    ⟨printable_ascii each, by rwa [length_ascii]⟩
  have all : ∀ message ∈ exceptionNames.toList, Printable message ∧ message.length < 58 := by
    simp only [exceptionNames]
    repeat' first
      | exact List.forall_mem_nil _
      | refine List.forall_mem_cons.mpr ⟨name _ rfl (by decide), ?_⟩
  exact all _ (Vector.mem_toList_iff.mpr (Vector.getElem_mem _))

theorem commonIsrHandler_exception {σ : Type} (labels : Labels) (m : ByteMachine) (vector : Fin 32)
    (code : U32) (handlers : Handlers σ) (user : σ) :
    let entry := handlerEntry labels m vector code
    commonIsrHandler handlers (RegistersT.read entry.memory (argument entry)) user =
      .panicked (exceptionNames.get vector) := by
  have small := vector.isLt
  have intNo : (frame m.cpu vector code).intNo.toNat = vector.val := by
    simp only [frame, BitVec.toNat_ofNat]
    omega
  intro entry
  rw [read_handlerEntry labels m (by omega) code, commonIsrHandler]
  simp only [intNo, small, dif_pos]

end Boot

end SoraOS
