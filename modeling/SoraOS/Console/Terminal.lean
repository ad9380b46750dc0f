import SoraOS.Console.Bounds

set_option autoImplicit false

namespace SoraOS.Vga

structure Transcript where
  closed : List (List U8)
  last : List U8

namespace Transcript

def lines (t : Transcript) : List (List U8) := t.closed ++ [t.last]

def feed (t : Transcript) (c : U8) : Transcript :=
  if c = newline then { closed := t.lines, last := [] }
  else
    let t := { t with last := t.last ++ [c] }
    if t.last.length = vgaWidth then { closed := t.lines, last := [] } else t

def empty : Transcript := { closed := [], last := [] }

end Transcript

def textRows : Nat := vgaHeight - 1

def pad (line : List U8) : List U8 := line ++ List.replicate (vgaWidth - line.length) 0x20#8

/-- The last 24 lines, padded with spaces, then blank rows if there are fewer. -/
def window (lines : List (List U8)) : List (List U8) :=
  (lines.drop (lines.length - textRows)).map pad ++
    List.replicate (textRows - lines.length) (pad [])

def rowText (v : Vga) (row : Nat) : List U8 :=
  (List.range vgaWidth).map fun col => v.charAt (row * vgaWidth + col)

def shown (v : Vga) : List (List U8) := (List.range' 1 textRows).map v.rowText

def windowChar (lines : List (List U8)) (row col : Nat) : U8 :=
  ((lines[lines.length - textRows + row]?).getD [])[col]?.getD 0x20#8

theorem pad_eq (text : List U8) (short : text.length ≤ vgaWidth) :
    pad text = (List.range vgaWidth).map fun col => text[col]?.getD 0x20#8 := by
  apply List.ext_getElem
  · simp [pad]
    omega
  · intro col _ inside
    simp only [pad, List.getElem_append, List.getElem_map, List.getElem_range]
    split
    next here => simp [here]
    next beyond => simp [List.getElem?_eq_none (Nat.le_of_not_lt beyond)]

theorem window_eq (lines : List (List U8)) (short : ∀ line ∈ lines, line.length ≤ vgaWidth) :
    window lines = (List.range textRows).map fun row =>
      (List.range vgaWidth).map fun col => windowChar lines row col := by
  apply List.ext_getElem
  · simp [window]
    omega
  · intro row _ inside
    rw [List.length_map, List.length_range] at inside
    simp only [window, List.getElem_append, List.getElem_map, List.getElem_range, windowChar,
      List.getElem_drop, List.getElem_replicate, List.length_map, List.length_drop]
    split
    next here =>
      have index : lines.length - textRows + row < lines.length := by omega
      rw [pad_eq _ (short _ (List.getElem_mem index)), List.getElem?_eq_getElem index]
      rfl
    next beyond =>
      have index : lines.length ≤ lines.length - textRows + row := by omega
      rw [pad_eq [] (Nat.zero_le _), List.getElem?_eq_none index]
      rfl

theorem getD_append_nil (lines : List (List U8)) (i : Nat) :
    ((lines ++ [[]])[i]?).getD [] = (lines[i]?).getD [] := by
  by_cases old : i < lines.length
  next => rw [List.getElem?_append_left old]
  next =>
    rw [List.getElem?_append_right (Nat.le_of_not_lt old),
      List.getElem?_eq_none (Nat.le_of_not_lt old)]
    cases i - lines.length <;> simp

theorem windowChar_open (lines : List (List U8)) (row col : Nat) :
    windowChar (lines ++ [[]]) row col =
      windowChar lines (if lines.length < textRows then row else row + 1) col := by
  simp only [windowChar, List.length_append, List.length_singleton, getD_append_nil]
  split
  next room => rw [show lines.length + 1 - textRows + row = lines.length - textRows + row by omega]
  next full => rw [show lines.length + 1 - textRows + row = lines.length - textRows + (row + 1) by omega]

theorem windowChar_beyond (lines : List (List U8)) {row : Nat} (col : Nat)
    (beyond : lines.length ≤ lines.length - textRows + row) :
    windowChar lines row col = 0x20#8 := by
  simp [windowChar, List.getElem?_eq_none beyond]

theorem windowChar_write (closed : List (List U8)) (last : List U8) (c : U8) (row col : Nat) :
    windowChar (closed ++ [last ++ [c]]) row col =
      if row + 1 = min (closed.length + 1) textRows ∧ col = last.length then c
      else windowChar (closed ++ [last]) row col := by
  have place : closed.length + 1 - textRows + row = closed.length ↔
      row + 1 = min (closed.length + 1) textRows := by
    have some : 0 < textRows := by decide
    omega
  simp only [windowChar, List.length_append, List.length_singleton]
  by_cases here : closed.length + 1 - textRows + row = closed.length
  next =>
    rw [here]
    by_cases atEnd : col = last.length
    next => simp [place.mp here, atEnd]
    next =>
      simp only [atEnd, and_false, if_false, List.getElem?_append_right le_rfl, Nat.sub_self,
        List.getElem?_cons_zero, Option.getD_some]
      rcases Nat.lt_or_gt_of_ne atEnd with before | after
      next => rw [List.getElem?_append_left before]
      next =>
        rw [List.getElem?_eq_none (by simp; omega), List.getElem?_eq_none (by omega)]
  next =>
    rw [if_neg (fun both => here (place.mpr both.1))]
    rcases Nat.lt_or_gt_of_ne here with before | after
    next => rw [List.getElem?_append_left before, List.getElem?_append_left before]
    next =>
      have beyond (line : List U8) :
          (closed ++ [line]).length ≤ closed.length + 1 - textRows + row := by
        rw [List.length_append, List.length_singleton]
        omega
      rw [List.getElem?_eq_none (beyond _), List.getElem?_eq_none (beyond _)]

structure Displays (v : Vga) (t : Transcript) : Prop where
  row : v.row = min t.lines.length textRows
  chars : ∀ row < textRows, ∀ col < vgaWidth,
    v.charAt ((row + 1) * vgaWidth + col) = windowChar t.lines row col
  short : ∀ line ∈ t.lines, line.length ≤ vgaWidth

theorem Transcript.length_lines (t : Transcript) : t.lines.length = t.closed.length + 1 := by
  simp [Transcript.lines]

theorem charAt_vgaScroll (v : Vga) {row col : Nat} (rowInside : row < textRows)
    (colInside : col < vgaWidth) :
    v.vgaScroll.charAt ((row + 1) * vgaWidth + col) =
      if row + 1 = textRows then 0x20#8 else v.charAt ((row + 2) * vgaWidth + col) := by
  rw [charAt, vgaScroll_cells]
  by_cases last : row + 1 = textRows
  next =>
    have inLast : (vgaHeight - 1) * vgaWidth ≤ (row + 1) * vgaWidth + col ∧
        (row + 1) * vgaWidth + col < vgaHeight * vgaWidth := by
      simp only [textRows, vgaHeight, vgaWidth] at last colInside ⊢
      omega
    rw [if_pos inLast, if_pos last]
    exact setWidth_vgaEntry _ _
  next =>
    have notLast : ¬ ((vgaHeight - 1) * vgaWidth ≤ (row + 1) * vgaWidth + col ∧
        (row + 1) * vgaWidth + col < vgaHeight * vgaWidth) := by
      simp only [textRows, vgaHeight, vgaWidth] at last rowInside colInside ⊢
      omega
    have moves : vgaWidth ≤ (row + 1) * vgaWidth + col ∧
        (row + 1) * vgaWidth + col < (vgaHeight - 1) * vgaWidth := by
      simp only [textRows, vgaHeight, vgaWidth] at last rowInside colInside ⊢
      omega
    have below : (row + 1) * vgaWidth + col + vgaWidth = (row + 2) * vgaWidth + col := by
      simp only [vgaWidth]
      omega
    rw [if_neg notLast, if_pos moves, if_neg last, below]
    rfl

theorem Displays.newRow {v : Vga} {t : Transcript} (h : Displays v t) :
    Displays ({ v with col := 0, row := v.row + 1 } : Vga).stayInside
        { closed := t.lines, last := [] } ∧
      ({ v with col := 0, row := v.row + 1 } : Vga).stayInside.col = 0 := by
  -- Going to the next row opens a line, scrolling if the window is full.
  have lines : ({ closed := t.lines, last := [] } : Transcript).lines = t.lines ++ [[]] := rfl
  have short : ∀ line ∈ t.lines ++ [[]], line.length ≤ vgaWidth := by
    intro line member
    rcases List.mem_append.mp member with older | newest
    · exact h.short line older
    · simp [List.mem_singleton.mp newest]
  have rows : textRows + 1 = vgaHeight := rfl
  unfold stayInside
  by_cases room : t.lines.length < textRows
  next =>
    have row : v.row = t.lines.length := by
      rw [h.row]
      omega
    rw [if_neg (by simp only; omega)]
    refine ⟨⟨?_, ?_, lines ▸ short⟩, rfl⟩
    · rw [lines, List.length_append, List.length_singleton]
      simp only
      omega
    · intro r rInside c cInside
      rw [lines, windowChar_open, if_pos room]
      exact h.chars r rInside c cInside
  next =>
    have row : v.row = textRows := by
      rw [h.row]
      omega
    rw [if_pos (by simp only; omega)]
    refine ⟨⟨?_, ?_, lines ▸ short⟩, rfl⟩
    · rw [lines, List.length_append, List.length_singleton, vgaScroll_row]
      omega
    · intro r rInside c cInside
      rw [lines, windowChar_open, if_neg room, charAt_vgaScroll _ rInside cInside]
      split
      next last => rw [windowChar_beyond _ _ (by omega)]
      next => exact h.chars (r + 1) (by omega) c cInside

theorem Displays.congr {v v' : Vga} {t : Transcript} (h : Displays v t) (row : v'.row = v.row)
    (cells : v'.cells = v.cells) : Displays v' t :=
  ⟨row.trans h.row, fun r rInside c cInside => by
    rw [charAt, cells]
    exact h.chars r rInside c cInside, h.short⟩

structure Follows (v : Vga) (t : Transcript) : Prop extends Displays v t where
  col : v.col = t.last.length
  inRow : t.last.length < vgaWidth

theorem Follows.row_pos {v : Vga} {t : Transcript} (h : Follows v t) : 1 ≤ v.row ∧ v.row < vgaHeight := by
  have rows : textRows + 1 = vgaHeight := rfl
  have some : 1 ≤ textRows := by decide
  rw [h.row, t.length_lines]
  omega

theorem Follows.write {v : Vga} {t : Transcript} (h : Follows v t) (c : U8) :
    Displays (v.store (v.row * vgaWidth + v.col) (vgaEntry c v.color))
      { t with last := t.last ++ [c] } := by
  have row := h.row
  rw [t.length_lines] at row
  refine ⟨?_, ?_, ?_⟩
  · rw [Transcript.length_lines]
    exact row
  · intro r rInside col colInside
    have place : (r + 1) * vgaWidth + col = v.row * vgaWidth + v.col ↔
        r + 1 = min (t.closed.length + 1) textRows ∧ col = t.last.length := by
      have inRow := h.inRow
      rw [← row, ← h.col]
      rw [← h.col] at inRow
      simp only [vgaWidth] at inRow colInside ⊢
      omega
    rw [charAt_store, Transcript.lines, windowChar_write]
    simp only [place]
    split
    next => rfl
    next => exact h.chars r rInside col colInside
  · intro line member
    rcases List.mem_append.mp member with older | newest
    · exact h.short line (List.mem_append_left _ older)
    · have inRow := h.inRow
      rw [List.mem_singleton.mp newest, List.length_append, List.length_singleton]
      omega

theorem Follows.vgaPutchar {v : Vga} {t : Transcript} (h : Follows v t) {c : U8}
    (notReturn : c ≠ carriageReturn) (notBackspace : c ≠ backspace) :
    Follows (v.vgaPutchar c) (t.feed c) := by
  obtain ⟨below, inside⟩ := h.row_pos
  have wide : 0 < vgaWidth := by decide
  have left : v.leaveStatusbar = v := by
    rw [leaveStatusbar, if_neg (by omega)]
  rw [Vga.vgaPutchar, left]
  by_cases isNewline : c = newline
  next =>
    obtain ⟨displays, col⟩ := h.toDisplays.newRow
    simp only [place, Transcript.feed, isNewline, if_true]
    exact ⟨displays.congr rfl rfl, col, wide⟩
  next =>
    have written := h.write c
    have col := h.col
    have inRow := h.inRow
    rw [place_ordinary v isNewline notReturn notBackspace, Transcript.feed, if_neg isNewline]
    simp only [List.length_append, List.length_singleton]
    by_cases full : t.last.length + 1 = vgaWidth
    next =>
      obtain ⟨displays, start⟩ := written.newRow
      rw [if_pos (by omega), if_pos full]
      exact ⟨displays.congr rfl rfl, start, wide⟩
    next =>
      rw [if_neg (by omega), if_neg full, stayInside, if_neg (by simp only [store]; omega)]
      refine ⟨written.congr rfl rfl, ?_, ?_⟩
      · simp [vgaUpdateHwCursor, col]
      · simp only [List.length_append, List.length_singleton]
        omega

theorem charAt_vgaClear (v : Vga) {row col : Nat} (rowInside : row < textRows)
    (colInside : col < vgaWidth) :
    v.vgaClear.charAt ((row + 1) * vgaWidth + col) = 0x20#8 := by
  have filled := foldl_store_cells (fun i => i) (vgaEntry 0x20#8 v.color)
    (List.range' vgaWidth (vgaWidth * vgaHeight - vgaWidth)) v ((row + 1) * vgaWidth + col)
  have inside : (row + 1) * vgaWidth + col ∈
      (List.range' vgaWidth (vgaWidth * vgaHeight - vgaWidth)).map fun i => i := by
    rw [List.map_id', List.mem_range'_1]
    simp only [textRows, vgaHeight, vgaWidth] at rowInside colInside ⊢
    omega
  rw [if_pos inside] at filled
  simp only [charAt, vgaClear, vgaUpdateHwCursor, filled]
  exact setWidth_vgaEntry _ _

theorem follows_vgaClear (v : Vga) : Follows v.vgaClear Transcript.empty where
  row := rfl
  chars r rInside c cInside := by
    have blank (i : Nat) : (([[]] : List (List U8))[i]?).getD [] = [] := by
      cases i with
      | zero => rfl
      | succ i => rfl
    rw [charAt_vgaClear v rInside cInside, windowChar, Transcript.lines, Transcript.empty,
      List.nil_append, blank]
    rfl
  short := by simp [Transcript.lines, Transcript.empty]
  col := rfl
  inRow := show 0 < vgaWidth by decide

inductive Print where
  | vgaPutchar (c : U8)
  | vgaPrint (s : List U8)
  | vgaPrintColor (s : List U8) (color : U8)

def Print.run (v : Vga) : Print → Vga
  | .vgaPutchar c => v.vgaPutchar c
  | .vgaPrint s => v.vgaPrint s
  | .vgaPrintColor s color => v.vgaPrintColor s color

def cString (s : List U8) : List U8 := s.takeWhile (· ≠ 0#8)

def Print.text : Print → List U8
  | .vgaPutchar c => [c]
  | .vgaPrint s => cString s
  | .vgaPrintColor s _ => cString s

def Plain (text : List U8) : Prop := ∀ c ∈ text, c ≠ carriageReturn ∧ c ≠ backspace

theorem Follows.vgaPrint {v : Vga} {t : Transcript} (h : Follows v t) (s : List U8)
    (plain : Plain (cString s)) : Follows (v.vgaPrint s) ((cString s).foldl Transcript.feed t) := by
  induction s generalizing v t with
  | nil => exact h
  | cons c s ih =>
      rw [Vga.vgaPrint]
      by_cases stop : c = 0#8
      next => simpa [stop, cString] using h
      next =>
        have text : cString (c :: s) = c :: cString s := by simp [cString, stop]
        rw [text] at plain ⊢
        rw [if_neg stop, List.foldl_cons]
        obtain ⟨notReturn, notBackspace⟩ := plain c (by simp)
        exact ih (h.vgaPutchar notReturn notBackspace)
          (fun d member => plain d (List.mem_cons_of_mem _ member))

theorem Follows.withColor {v : Vga} {t : Transcript} (h : Follows v t) (color : U8) :
    Follows { v with color := color } t :=
  ⟨h.toDisplays.congr rfl rfl, h.col, h.inRow⟩

theorem Follows.run {v : Vga} {t : Transcript} (h : Follows v t) (p : Print)
    (plain : Plain p.text) : Follows (p.run v) (p.text.foldl Transcript.feed t) := by
  cases p with
  | vgaPutchar c =>
      obtain ⟨notReturn, notBackspace⟩ := plain c (by simp [Print.text])
      exact h.vgaPutchar notReturn notBackspace
  | vgaPrint s => exact h.vgaPrint s plain
  | vgaPrintColor s color => exact ((h.withColor color).vgaPrint s plain).withColor v.color

theorem Follows.runs {v : Vga} {t : Transcript} (h : Follows v t) (prints : List Print)
    (plain : Plain (prints.flatMap Print.text)) :
    Follows (prints.foldl Print.run v) ((prints.flatMap Print.text).foldl Transcript.feed t) := by
  induction prints generalizing v t with
  | nil => exact h
  | cons p rest ih =>
      rw [List.flatMap_cons] at plain ⊢
      rw [List.foldl_append, List.foldl_cons]
      apply ih (h.run p fun c member => plain c (List.mem_append_left _ member))
      exact fun c member => plain c (List.mem_append_right _ member)

theorem Follows.shown {v : Vga} {t : Transcript} (h : Follows v t) : v.shown = window t.lines := by
  rw [window_eq _ h.short, Vga.shown, List.range'_eq_map_range, List.map_map]
  apply List.map_congr_left
  intro row rowInside
  apply List.map_congr_left
  intro col colInside
  rw [← h.chars row (List.mem_range.mp rowInside) col (List.mem_range.mp colInside), Nat.add_comm row]

/--
After `vga_clear`, whatever plain text is printed, rows 1 to 24 show the last 24 lines of the
transcript and the cursor stands right after it.
-/
theorem console_shows (v : Vga) (prints : List Print) (plain : Plain (prints.flatMap Print.text)) :
    let w := prints.foldl Print.run v.vgaClear
    let t := (prints.flatMap Print.text).foldl Transcript.feed Transcript.empty
    w.shown = window t.lines ∧ w.row = min t.lines.length textRows ∧ w.col = t.last.length := by
  have follows := (follows_vgaClear v).runs prints plain
  exact ⟨follows.shown, follows.row, follows.col⟩

/-- Eighty characters and a newline leave two empty rows below the full one. -/
theorem console_shows_fullLine :
    let w := Print.run (poweredOn (fun _ => 0#16) 0#16).vgaClear
      (.vgaPrint (List.replicate 80 0x41#8 ++ [newline]))
    w.row = 3 ∧ w.col = 0 := by
  have plain : Plain ([Print.vgaPrint (List.replicate 80 0x41#8 ++ [newline])].flatMap Print.text) := by
    intro c member
    have either : c = 0x41#8 ∨ c = newline := by
      have listed : c ∈ List.replicate 80 0x41#8 ++ [newline] := by
        simp only [List.flatMap_cons, List.flatMap_nil, List.append_nil, Print.text] at member
        exact (List.takeWhile_sublist _).mem member
      simpa using listed
    rcases either with rfl | rfl <;> decide
  have displayed := console_shows (poweredOn (fun _ => 0#16) 0#16) _ plain
  exact ⟨displayed.2.1.trans (by decide +kernel), displayed.2.2.trans (by decide +kernel)⟩

end SoraOS.Vga
