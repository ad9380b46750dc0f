import SoraOS.Console.Echo
import SoraOS.Console.Terminal
import SoraOS.Shared.Paper

set_option autoImplicit false

/-! The console as a window on an endless paper, for every byte that can be printed. -/

namespace SoraOS.Vga

def blankChar : U8 := 0x20#8

def typeChar (p : Paper U8) (c : U8) : Paper U8 :=
  if c = newline then p.newline textRows
  else if c = carriageReturn then p.start
  else if c = backspace then p.erase vgaWidth blankChar
  else p.put vgaWidth textRows c

inductive Output where
  | byte (c : U8)
  | clear
  deriving DecidableEq

def emit (p : Paper U8) : Output → Paper U8
  | .byte c => typeChar p c
  | .clear => Paper.blank blankChar

def outputs : Op → List Output
  | .vgaClear => [.clear]
  | op => (Shell.printedBy op).map Output.byte

-- The calls that the shell makes.
def Op.streams : Op → Bool
  | .vgaInit | .vgaSetCursor _ _ | .vgaPrintAt _ _ _ _ => false
  | _ => true

structure OnPaper (v : Vga) (p : Paper U8) : Prop where
  framed : p.Framed vgaWidth textRows blankChar
  row : v.row + p.top = p.line + 1
  col : v.col = p.col
  chars : ∀ row < textRows, ∀ col < vgaWidth,
    v.charAt ((row + 1) * vgaWidth + col) = p.view row col

theorem OnPaper.congr {v w : Vga} {p : Paper U8} (h : OnPaper v p) (row : w.row = v.row)
    (col : w.col = v.col) (cells : ∀ i, vgaWidth ≤ i → w.cells i = v.cells i) : OnPaper w p := by
  constructor
  next => exact h.framed
  next => rw [row, h.row]
  next => rw [col, h.col]
  next =>
    intro r rInside c cInside
    rw [charAt, cells _ (by simp only [vgaWidth]; omega)]
    exact h.chars r rInside c cInside

theorem OnPaper.placed {v : Vga} {p : Paper U8} (h : OnPaper v p) : 1 ≤ v.row ∧ v.Placed := by
  have rows : textRows + 1 = vgaHeight := rfl
  have row := h.row
  have above := h.framed.above
  have below := h.framed.below
  have inside := h.framed.inside
  refine ⟨by omega, ⟨by omega, ?_⟩⟩
  rw [h.col]
  exact inside

theorem OnPaper.write {v : Vga} {p : Paper U8} (h : OnPaper v p) (c : U8) :
    OnPaper (v.store (v.row * vgaWidth + v.col) (vgaEntry c v.color)) (p.write p.line p.col c) := by
  constructor
  next => exact h.framed.write h.framed.below p.col c
  next => exact h.row
  next => exact h.col
  next =>
    intro row rInside col cInside
    have position := h.row
    have above := h.framed.above
    have inRow := h.framed.inside
    have same : (row + 1) * vgaWidth + col = v.row * vgaWidth + v.col ↔
        p.top + row = p.line ∧ col = p.col := by
      rw [h.col]
      simp only [vgaWidth] at inRow cInside ⊢
      omega
    rw [charAt_store, Paper.view, Paper.write_cells, Paper.write_top]
    simp only [same]
    split
    next => rfl
    next => exact h.chars row rInside col cInside

theorem OnPaper.newline {v : Vga} {p : Paper U8} (h : OnPaper v p) :
    OnPaper ({ v with col := 0, row := v.row + 1 } : Vga).stayInside (p.newline textRows) := by
  have rows : textRows + 1 = vgaHeight := rfl
  have position := h.row
  have above := h.framed.above
  have below := h.framed.below
  unfold stayInside
  by_cases room : v.row + 1 < vgaHeight
  next =>
    have top : (p.newline textRows).top = p.top := by
      simp only [Paper.newline, Paper.follow]
      omega
    rw [if_neg (by simp only; omega)]
    constructor
    next => exact h.framed.newline
    next =>
      rw [top]
      simp only [Paper.newline, Paper.follow]
      omega
    next => rfl
    next =>
      intro row rInside col cInside
      rw [Paper.view, top]
      exact h.chars row rInside col cInside
  next =>
    have top : (p.newline textRows).top = p.top + 1 := by
      simp only [Paper.newline, Paper.follow]
      omega
    rw [if_pos (by simp only; omega)]
    constructor
    next => exact h.framed.newline
    next =>
      rw [top, vgaScroll_row]
      simp only [Paper.newline, Paper.follow]
      omega
    next => rfl
    next =>
      intro row rInside col cInside
      rw [charAt_vgaScroll _ rInside cInside, Paper.view, top]
      split
      next last => exact (h.framed.unwritten _ (by omega) col).symm
      next =>
        have shown := h.chars (row + 1) (by omega) col cInside
        have index : p.top + 1 + row = p.top + (row + 1) := by omega
        rw [index]
        exact shown

theorem OnPaper.stepBack {v : Vga} {p : Paper U8} (h : OnPaper v p) :
    OnPaper v.stepBack (p.retreat vgaWidth) := by
  have position := h.row
  have col := h.col
  have framed := h.framed.retreat
  unfold Vga.stepBack
  unfold Paper.retreat at framed ⊢
  by_cases inside : 0 < v.col
  next =>
    have inside' : 0 < p.col := by omega
    rw [if_pos inside'] at framed ⊢
    rw [if_pos inside]
    exact ⟨framed, position, by simp only; omega, h.chars⟩
  next =>
    have start : ¬0 < p.col := by omega
    rw [if_neg start] at framed ⊢
    rw [if_neg inside]
    by_cases upper : v.row > 1
    next =>
      have upper' : p.top < p.line := by omega
      rw [if_pos upper'] at framed ⊢
      rw [if_pos upper]
      exact ⟨framed, by simp only; omega, rfl, h.chars⟩
    next =>
      have home : ¬p.top < p.line := by omega
      rw [if_neg upper, if_neg home]
      exact h

theorem OnPaper.vgaPutchar {v : Vga} {p : Paper U8} (h : OnPaper v p) (c : U8) :
    OnPaper (v.vgaPutchar c) (typeChar p c) := by
  obtain ⟨below, placed⟩ := h.placed
  have updated (w : Vga) (q : Paper U8) (window : OnPaper w q) : OnPaper w.vgaUpdateHwCursor q :=
    window.congr rfl rfl fun _ _ => rfl
  rw [Vga.vgaPutchar, leaveStatusbar, if_neg (by omega)]
  apply updated
  by_cases isNewline : c = Vga.newline
  next =>
    simp only [place, typeChar, isNewline, if_true]
    exact h.newline
  by_cases isReturn : c = carriageReturn
  next =>
    have inside : ({ v with col := 0 } : Vga).row < vgaHeight := placed.row
    simp only [place, typeChar, isReturn]
    exact (stayInside_of_lt inside).symm ▸ ⟨h.framed.start, h.row, rfl, h.chars⟩
  by_cases isBackspace : c = backspace
  next =>
    have back := h.stepBack
    have inside := back.placed.2.row
    simp only [place, typeChar, isBackspace]
    exact (stayInside_of_lt (v := v.stepBack.store _ _) inside).symm ▸ back.write blankChar
  next =>
    have written := h.write c
    have col := h.col
    rw [place_ordinary v isNewline isReturn isBackspace]
    simp only [typeChar, isNewline, isReturn, isBackspace, if_false, Paper.put]
    by_cases full : v.col + 1 ≥ vgaWidth
    next =>
      have full' : ¬p.col + 1 < vgaWidth := by omega
      rw [if_pos full, if_neg full']
      exact written.newline
    next =>
      have room : p.col + 1 < vgaWidth := by omega
      have framed := h.framed.put c
      simp only [Paper.put, if_pos room] at framed
      rw [if_neg full, if_pos room, stayInside_of_lt (by exact placed.row)]
      exact ⟨framed, written.row, by simp only; omega, written.chars⟩

theorem OnPaper.types {v : Vga} {p : Paper U8} (h : OnPaper v p) (s : List U8) :
    OnPaper (s.foldl Vga.vgaPutchar v) (s.foldl typeChar p) := by
  induction s generalizing v p with
  | nil => exact h
  | cons c s ih => exact ih (h.vgaPutchar c)

theorem onPaper_vgaClear (v : Vga) : OnPaper v.vgaClear (Paper.blank blankChar) := by
  constructor
  next => exact Paper.framed_blank (by decide) (by decide)
  next => rfl
  next => rfl
  next => exact fun row rInside col cInside => charAt_vgaClear v rInside cInside

theorem foldl_emit_byte (s : List U8) (p : Paper U8) :
    (s.map Output.byte).foldl emit p = s.foldl typeChar p := by
  induction s generalizing p with
  | nil => rfl
  | cons c s ih => exact ih _

theorem outputs_printed {op : Op} (different : op ≠ .vgaClear) :
    outputs op = (Shell.printedBy op).map Output.byte := by
  cases op with
  | vgaClear => exact absurd rfl different
  | _ => rfl

theorem OnPaper.perform {v : Vga} {p : Paper U8} (h : OnPaper v p) {op : Op}
    (streams : op.streams = true) : OnPaper (v.perform op) ((outputs op).foldl emit p) := by
  cases op with
  | vgaClear => exact onPaper_vgaClear v
  | vgaPutchar c => exact h.vgaPutchar c
  | vgaPrint s =>
      rw [Vga.perform, Shell.vgaPrint_eq_foldl, outputs_printed (by simp), foldl_emit_byte]
      exact h.types _
  | vgaPrintColor s color =>
      have colored : OnPaper { v with color := color } p := h.congr rfl rfl fun _ _ => rfl
      have printed := colored.types (Shell.printedBy (.vgaPrintColor s color))
      rw [Vga.perform, Vga.vgaPrintColor, Shell.vgaPrint_eq_foldl, outputs_printed (by simp),
        foldl_emit_byte]
      exact printed.congr rfl rfl fun _ _ => rfl
  | vgaSetColor fg bg => exact h.congr rfl rfl fun _ _ => rfl
  | vgaDrawStatusbar ticks =>
      have cursor := v.vgaDrawStatusbar_cursor ticks
      simp only [Vga.cursor, Prod.mk.injEq] at cursor
      have confined := v.vgaDrawStatusbar_confined ticks
      exact h.congr cursor.1 cursor.2.1 fun i low => confined.outside i (.inr low)
  | vgaInit => cases streams
  | vgaSetCursor row col => cases streams
  | vgaPrintAt row col s color => cases streams

theorem OnPaper.run {v : Vga} {p : Paper U8} (h : OnPaper v p) (ops : List Op)
    (streams : ∀ op ∈ ops, op.streams = true) :
    OnPaper (ops.foldl Vga.perform v) ((ops.flatMap outputs).foldl emit p) := by
  induction ops generalizing v p with
  | nil => exact h
  | cons op rest ih =>
      rw [List.flatMap_cons, List.foldl_append]
      exact ih (h.perform (streams op (by simp)))
        fun later member => streams later (List.mem_cons_of_mem _ member)

def sheet (p : Paper U8) : List (List U8) :=
  (List.range textRows).map fun row => (List.range vgaWidth).map fun col => p.view row col

theorem OnPaper.shown {v : Vga} {p : Paper U8} (h : OnPaper v p) : v.shown = sheet p := by
  rw [Vga.shown, sheet, List.range'_eq_map_range, List.map_map]
  apply List.map_congr_left
  intro row rInside
  apply List.map_congr_left
  intro col cInside
  rw [← h.chars row (List.mem_range.mp rInside) col (List.mem_range.mp cInside), Nat.add_comm row]

/--
From a cleared screen, whatever bytes are printed, rows 1 to 24 are the window of the paper that
they are typed on, and the cursor stands at its writing position.
-/
theorem console_window (v : Vga) (ops : List Op) (streams : ∀ op ∈ ops, op.streams = true) :
    let w := ops.foldl Vga.perform v.vgaClear
    let p := (ops.flatMap outputs).foldl emit (Paper.blank blankChar)
    w.shown = sheet p ∧ w.row + p.top = p.line + 1 ∧ w.col = p.col := by
  have window := (onPaper_vgaClear v).run ops streams
  exact ⟨window.shown, window.row, window.col⟩

theorem console_window_wrapped :
    let ops := [Op.vgaPrint (List.replicate 80 0x41#8), .vgaDrawStatusbar 300#32,
      .vgaPutchar backspace]
    let w := ops.foldl Vga.perform (poweredOn (fun _ => 0#16) 0#16).vgaClear
    w.row + 0 = 0 + 1 ∧ w.col = 79 := by
  intro ops w
  have window := console_window (poweredOn (fun _ => 0#16) 0#16) ops (by decide)
  have position : ((ops.flatMap outputs).foldl emit (Paper.blank blankChar)).top = 0 ∧
      ((ops.flatMap outputs).foldl emit (Paper.blank blankChar)).line = 0 ∧
      ((ops.flatMap outputs).foldl emit (Paper.blank blankChar)).col = 79 := by
    decide +kernel
  simp only [position] at window
  exact window.2

end SoraOS.Vga
