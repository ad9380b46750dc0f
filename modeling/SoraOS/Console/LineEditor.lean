import SoraOS.Console.Bounds

set_option autoImplicit false

namespace SoraOS

namespace Vga

def cursorIndex (v : Vga) : Nat := v.row * vgaWidth + v.col

theorem charAt_vgaScroll_index (v : Vga) {i : Nat} (low : vgaWidth ≤ i)
    (high : i < (vgaHeight - 1) * vgaWidth) : v.vgaScroll.charAt i = v.charAt (i + vgaWidth) := by
  rw [charAt, vgaScroll_cells, if_neg (by omega), if_pos ⟨low, high⟩]
  rfl

theorem vgaPutchar_below (v : Vga) (c : U8) (below : 1 ≤ v.row) :
    v.vgaPutchar c = (v.place c).stayInside.vgaUpdateHwCursor := by
  rw [vgaPutchar, leaveStatusbar, if_neg (by omega)]

theorem cursorIndex_update (v : Vga) : v.vgaUpdateHwCursor.cursorIndex = v.cursorIndex := rfl

theorem charAt_update (v : Vga) (i : Nat) : v.vgaUpdateHwCursor.charAt i = v.charAt i := rfl

theorem vgaPutchar_ordinary (v : Vga) {c : U8} (below : 1 ≤ v.row) (placed : v.Placed)
    (notNewline : c ≠ newline) (notReturn : c ≠ carriageReturn) (notBackspace : c ≠ backspace) :
    ∃ d, (d = 0 ∨ (v.vgaPutchar c).cursorIndex = (vgaHeight - 1) * vgaWidth) ∧
      (v.vgaPutchar c).cursorIndex + d = v.cursorIndex + 1 ∧
      ∀ i, vgaWidth ≤ i → i < (v.vgaPutchar c).cursorIndex →
        (v.vgaPutchar c).charAt i = if i + d = v.cursorIndex then c else v.charAt (i + d) := by
  -- An ordinary character lands under the cursor, which moves on; a scroll moves both up by a
  -- row.
  obtain ⟨row, col⟩ := placed
  have stored (i : Nat) := charAt_store v v.cursorIndex c v.color i
  rw [v.vgaPutchar_below c below, place_ordinary v notNewline notReturn notBackspace]
  simp only [cursorIndex_update, charAt_update]
  by_cases inRow : v.col + 1 ≥ vgaWidth
  next =>
    rw [if_pos inRow]
    by_cases last : v.row + 1 ≥ vgaHeight
    next =>
      -- Row 24 is full: the scroll takes the text and the cursor up by one row.
      rw [stayInside, if_pos last]
      refine ⟨vgaWidth, .inr rfl, ?_, ?_⟩
      · simp only [cursorIndex, vgaScroll_row, vgaScroll_col, vgaHeight, vgaWidth]
          at row col last inRow ⊢
        omega
      · intro i low high
        rw [charAt_vgaScroll_index _ low high]
        exact stored (i + vgaWidth)
    next =>
      rw [stayInside, if_neg last]
      refine ⟨0, .inl rfl, ?_, fun i _ _ => stored i⟩
      simp only [cursorIndex, vgaWidth] at col inRow ⊢
      omega
  next =>
    have inside : ¬ (v.store (v.row * vgaWidth + v.col) (vgaEntry c v.color)).row ≥ vgaHeight :=
      Nat.not_le.mpr row
    rw [if_neg inRow, stayInside, if_neg inside]
    exact ⟨0, .inl rfl, Nat.add_assoc .., fun i _ _ => stored i⟩

theorem vgaPutchar_backspace (v : Vga) (placed : v.Placed) (after : vgaWidth < v.cursorIndex) :
    1 ≤ (v.vgaPutchar backspace).row ∧ (v.vgaPutchar backspace).cursorIndex + 1 = v.cursorIndex ∧
      ∀ i < (v.vgaPutchar backspace).cursorIndex,
        (v.vgaPutchar backspace).charAt i = v.charAt i := by
  obtain ⟨row, col⟩ := placed
  have below : 1 ≤ v.row := by
    simp only [cursorIndex, vgaWidth] at after col
    omega
  have placedBack : v.stepBack.row < vgaHeight := (v.stepBack_spec below ⟨row, col⟩).1.row
  have shape : v.place backspace =
      v.stepBack.store v.stepBack.cursorIndex (vgaEntry 0x20#8 v.stepBack.color) := rfl
  have back : v.stepBack.cursorIndex + 1 = v.cursorIndex := by
    unfold stepBack
    simp only [cursorIndex, vgaWidth] at after col ⊢
    split
    next => simp only; omega
    split
    next => simp only; omega
    next => omega
  have cells (i : Nat) : v.stepBack.charAt i = v.charAt i := by
    unfold stepBack
    split
    next => rfl
    split <;> rfl
  have inside : (v.stepBack.store v.stepBack.cursorIndex
      (vgaEntry 0x20#8 v.stepBack.color)).row < vgaHeight := placedBack
  rw [v.vgaPutchar_below _ below, shape, stayInside_of_lt inside]
  refine ⟨(v.stepBack_spec below ⟨row, col⟩).2.1, back, ?_⟩
  intro i earlier
  have different : i ≠ v.stepBack.cursorIndex := Nat.ne_of_lt earlier
  rw [charAt_update, charAt_store, if_neg different, cells]

end Vga

def maxLine : Nat := 256

/-- The console, `line` and `pos` of `shell_run`. -/
structure Shell where
  vga : Vga
  line : Nat → U8
  pos : Nat

namespace Shell

open Vga

def prompt (v : Vga) : Vga :=
  let v := v.vgaPrintColor [0x75#8, 0x73#8, 0x65#8, 0x72#8] 0x0A#8
  let v := v.vgaPrintColor
    [0x40#8, 0x76#8, 0x61#8, 0x6D#8, 0x6F#8, 0x73#8, 0x2D#8, 0x6F#8, 0x73#8] 0x0B#8
  v.vgaPrintColor [0x20#8, 0x3E#8, 0x20#8] 0x0E#8

/-- The body of the loop once a key has come; `shellParse` runs a command line. -/
def handleKey (shellParse : (Nat → U8) → Vga → (Nat → U8) × Vga) (s : Shell) (c : U8) : Shell :=
  if c = newline then
    let v := s.vga.vgaPutchar newline
    let line := Function.update s.line s.pos 0#8
    let (line, v) := if s.pos > 0 then shellParse line v else (line, v)
    { vga := prompt v, line := line, pos := 0 }
  else if c = backspace then
    if s.pos > 0 then { s with pos := s.pos - 1, vga := s.vga.vgaPutchar backspace } else s
  else if s.pos < maxLine - 1 then
    { vga := s.vga.vgaPutchar c, line := Function.update s.line s.pos c, pos := s.pos + 1 }
  else s

/-- What the loop does: handle a key, or refresh the status bar while it waits for one. -/
inductive Event where
  | key (c : U8)
  | statusbar (ticks : U32)

def step (shellParse : (Nat → U8) → Vga → (Nat → U8) × Vga) (s : Shell) : Event → Shell
  | .key c => s.handleKey shellParse c
  | .statusbar ticks => { s with vga := s.vga.vgaDrawStatusbar ticks }

def edit (held : List U8) : Event → List U8
  | .statusbar _ => held
  | .key c =>
      if c = backspace then held.dropLast
      else if held.length < maxLine - 1 then held ++ [c]
      else held

def Event.Typed : Event → Prop
  | .key c => c ≠ 0#8 ∧ c ≠ newline ∧ c ≠ carriageReturn
  | .statusbar _ => True

/-- The line is `held`, and the cells before the cursor show it, below the status bar. -/
structure InStep (s : Shell) (held : List U8) : Prop where
  below : 1 ≤ s.vga.row
  placed : s.vga.Placed
  pos : s.pos = held.length
  bounded : s.pos ≤ maxLine - 1
  line : ∀ i (inside : i < held.length), s.line i = held[i]
  room : vgaWidth + s.pos ≤ s.vga.cursorIndex
  echo : ∀ i < s.pos, s.vga.charAt (s.vga.cursorIndex - s.pos + i) = s.line i

theorem InStep.redrawn {s : Shell} {held : List U8} (h : InStep s held) {w : Vga}
    (cursor : w.cursor = s.vga.cursor) (confined : Confined 0 vgaWidth s.vga w) :
    InStep { s with vga := w } held := by
  -- Writing only to row 0, as the status bar does, disturbs neither the cursor nor the line.
  have position := cursor
  simp only [Vga.cursor, Prod.mk.injEq] at position
  have index : w.cursorIndex = s.vga.cursorIndex := by
    rw [cursorIndex, cursorIndex, position.1, position.2.1]
  have room := h.room
  refine ⟨?_, h.placed.of_cursor cursor, h.pos, h.bounded, h.line, ?_, ?_⟩
  · rw [position.1]
    exact h.below
  · rw [index]
    exact room
  · intro i inside
    simp only at inside ⊢
    rw [index, charAt, confined.outside _ (.inr (by omega))]
    exact h.echo i inside

theorem InStep.erase {s : Shell} {held : List U8} (h : InStep s held) (some : 0 < s.pos) :
    InStep { s with pos := s.pos - 1, vga := s.vga.vgaPutchar backspace } held.dropLast := by
  have room := h.room
  have pos := h.pos
  obtain ⟨below, index, cells⟩ := s.vga.vgaPutchar_backspace h.placed (by omega)
  refine ⟨below, (s.vga.vgaPutchar_spec backspace h.placed).2.2, ?_, ?_, ?_, ?_, ?_⟩
  · rw [List.length_dropLast, ← h.pos]
  · have bounded := h.bounded
    simp only
    omega
  · intro i inside
    rw [List.length_dropLast] at inside
    rw [List.getElem_dropLast]
    exact h.line i (by omega)
  · simp only
    omega
  · intro i inside
    simp only at inside ⊢
    have same : (s.vga.vgaPutchar backspace).cursorIndex - (s.pos - 1) + i =
        s.vga.cursorIndex - s.pos + i := by omega
    rw [same, cells _ (by omega)]
    exact h.echo i (by omega)

theorem InStep.append {s : Shell} {held : List U8} (h : InStep s held) {c : U8}
    (notNewline : c ≠ newline) (notReturn : c ≠ carriageReturn) (notBackspace : c ≠ backspace)
    (more : s.pos < maxLine - 1) :
    InStep { vga := s.vga.vgaPutchar c, line := Function.update s.line s.pos c, pos := s.pos + 1 }
      (held ++ [c]) := by
  have room := h.room
  have pos := h.pos
  obtain ⟨_, below, placed⟩ := s.vga.vgaPutchar_spec c h.placed
  obtain ⟨d, shift, index, cells⟩ :=
    s.vga.vgaPutchar_ordinary h.below h.placed notNewline notReturn notBackspace
  -- The line takes at most five rows, so a scroll at row 24 leaves all of it below row 0.
  have roomAfter : vgaWidth + (s.pos + 1) ≤ (s.vga.vgaPutchar c).cursorIndex := by
    simp only [vgaWidth, vgaHeight, maxLine] at shift room more ⊢
    omega
  refine ⟨below, placed, ?_, more, ?_, roomAfter, ?_⟩
  · rw [List.length_append, List.length_singleton, ← h.pos]
  · intro i inside
    rw [List.length_append, List.length_singleton] at inside
    simp only [Function.update_apply]
    by_cases last : i = s.pos
    next => simp [last, pos]
    next =>
      rw [if_neg last, List.getElem_append_left (by omega)]
      exact h.line i (by omega)
  · intro i inside
    simp only at inside ⊢
    rw [cells _ (by omega) (by omega), Function.update_apply]
    by_cases last : i = s.pos
    next => rw [if_pos last, if_pos (by omega)]
    next =>
      have same : (s.vga.vgaPutchar c).cursorIndex - (s.pos + 1) + i + d =
          s.vga.cursorIndex - s.pos + i := by omega
      rw [if_neg last, if_neg (by omega), same]
      exact h.echo i (by omega)

theorem InStep.step (shellParse : (Nat → U8) → Vga → (Nat → U8) × Vga) {s : Shell}
    {held : List U8} (h : InStep s held) {e : Event} (typed : e.Typed) :
    InStep (s.step shellParse e) (edit held e) := by
  have pos := h.pos
  cases e with
  | statusbar ticks =>
      exact h.redrawn (s.vga.vgaDrawStatusbar_cursor ticks) (s.vga.vgaDrawStatusbar_confined ticks)
  | key c =>
      obtain ⟨_, notNewline, notReturn⟩ := typed
      simp only [Shell.step, handleKey, notNewline, if_false, edit]
      by_cases isBackspace : c = backspace
      next =>
        simp only [isBackspace, if_true]
        split
        next some => exact h.erase some
        -- On an empty line neither the editor nor the screen moves.
        next none =>
          have empty : held = [] := List.length_eq_zero_iff.mp (by omega)
          subst empty
          exact h
      next =>
        simp only [isBackspace, if_false, ← h.pos]
        split
        next more => exact h.append notNewline notReturn isBackspace more
        next => exact h

theorem InStep.run (shellParse : (Nat → U8) → Vga → (Nat → U8) × Vga) {s : Shell}
    {held : List U8} (h : InStep s held) (events : List Event) (typed : ∀ e ∈ events, e.Typed) :
    InStep (events.foldl (Shell.step shellParse) s) (events.foldl edit held) := by
  induction events generalizing s held with
  | nil => exact h
  | cons e rest ih =>
      exact ih (h.step shellParse (typed e (by simp)))
        (fun later member => typed later (List.mem_cons_of_mem _ member))

/--
From a prompt, after any typed keys and status-bar refreshes, `line` holds what an editor would,
and the cells right before the cursor, all below row 0, show it.
-/
theorem line_echoed (shellParse : (Nat → U8) → Vga → (Nat → U8) × Vga) (s : Shell)
    (below : 1 ≤ s.vga.row) (placed : s.vga.Placed) (atPrompt : s.pos = 0) (events : List Event)
    (typed : ∀ e ∈ events, e.Typed) :
    let t := events.foldl (Shell.step shellParse) s
    let held := events.foldl edit []
    t.pos ≤ 255 ∧ (List.range t.pos).map t.line = held ∧
      vgaWidth ≤ t.vga.cursorIndex - t.pos ∧ t.pos ≤ t.vga.cursorIndex ∧
      t.vga.cursorIndex < vgaWidth * vgaHeight ∧
      (List.range t.pos).map (fun i => t.vga.charAt (t.vga.cursorIndex - t.pos + i)) = held := by
  have start : InStep s [] := by
    refine ⟨below, placed, atPrompt, by omega, by simp, ?_, by simp [atPrompt]⟩
    simp only [cursorIndex, atPrompt, vgaWidth]
    omega
  have h := start.run shellParse events typed
  have line : (List.range (events.foldl (Shell.step shellParse) s).pos).map
      (events.foldl (Shell.step shellParse) s).line = events.foldl edit [] := by
    apply List.ext_getElem
    · rw [List.length_map, List.length_range, h.pos]
    · intro i _ inside
      simpa using h.line i inside
  have room := h.room
  have row := h.placed.row
  have col := h.placed.col
  refine ⟨h.bounded, line, by omega, by omega, ?_, ?_⟩
  · simp only [cursorIndex, vgaWidth, vgaHeight] at row col ⊢
    omega
  · rw [← line]
    apply List.map_congr_left
    intro i inside
    exact h.echo i (List.mem_range.mp inside)

/-- From the end of row 1: "ab" wraps, and the backspace comes back to the start of row 2. -/
theorem line_echoed_wrapped :
    let s : Shell := ⟨⟨fun _ => 0#16, 1, 79, 0x07#8, 0#16, true⟩, fun _ => 0#8, 0⟩
    let typing := [Event.key 0x61#8, .key 0x62#8, .statusbar 300#32, .key backspace]
    let t := typing.foldl (Shell.step fun line v => (line, v)) s
    (List.range t.pos).map t.line = [0x61#8] ∧
      (List.range t.pos).map (fun i => t.vga.charAt (t.vga.cursorIndex - t.pos + i)) = [0x61#8] := by
  intro s typing t
  have typed : ∀ e ∈ typing, e.Typed := by
    intro e member
    simp only [typing, List.mem_cons, List.not_mem_nil, or_false] at member
    rcases member with rfl | rfl | rfl | rfl <;> simp [Event.Typed] <;> decide
  have echoed := line_echoed (fun line v => (line, v)) s (by decide) ⟨by decide, by decide⟩ rfl
    typing typed
  have held : typing.foldl edit [] = [0x61#8] := by decide
  exact ⟨echoed.2.1.trans held, echoed.2.2.2.2.2.trans held⟩

end Shell

end SoraOS
