import SoraOS.Console.Bounds
import SoraOS.Console.Number

set_option autoImplicit false

/-! `vga_draw_statusbar` with its arrays, and what the right end of row 0 shows. -/

namespace SoraOS

namespace Vga

open Buffer Numeral Shell

-- "UP: "
def uptimeLabel : List U8 := [0x55#8, 0x50#8, 0x3A#8, 0x20#8]

def putLabel (buf : Vector U8 16) : Option (Vector U8 16) := do
  let buf ← put buf 0 0x55#8
  let buf ← put buf 1 0x50#8
  let buf ← put buf 2 0x3A#8
  put buf 3 0x20#8

-- The two branches on `secs`; returns `buf` and `i`.
def putSecs (secs : U32) (tmp : Vector U8 8) (buf : Vector U8 16) : Option (Vector U8 16 × Nat) :=
  if secs = 0#32 then do
    let buf ← put buf 4 0x30#8
    return (buf, 5)
  else do
    let (tmp, j) ← digitLoop digitFuel secs tmp 0
    copyLoop tmp j buf 4

-- Returns `buf`, or none for an access outside of `tmp` or `buf`; both start with any bytes.
def uptimeChecked (ticks : U32) (tmp : Vector U8 8) (buf : Vector U8 16) :
    Option (Vector U8 16) := do
  let buf ← putLabel buf
  let (buf, i) ← putSecs (ticks / 100#32) tmp buf
  let buf ← put buf i 0x73#8
  put buf (i + 1) 0#8

def vgaDrawStatusbarChecked (v : Vga) (ticks : U32) (tmp : Vector U8 8) (buf : Vector U8 16) :
    Option Vga := do
  let v := (List.range vgaWidth).foldl (fun v c => v.vgaWriteAt 0 c 0x20#8 statusColor) v
  let v := v.vgaPrintAt 0 1 osName statusColor
  let buf ← uptimeChecked ticks tmp buf
  return v.vgaPrintAt 0 70 buf.toList statusColor

def rowFrom (v : Vga) (row col : Nat) : List U8 :=
  (List.range' col (vgaWidth - col)).map fun c => v.charAt (row * vgaWidth + c)

def Shows (v : Vga) (row col : Nat) (s : List U8) : Prop :=
  v.rowFrom row col = s ++ List.replicate (vgaWidth - col - s.length) 0x20#8

def trueUptime (ticks : U32) : List U8 :=
  uptimeLabel ++ text (ticks.toNat / 100) ++ [0x73#8]

theorem secs_toNat (ticks : U32) : (ticks / 100#32).toNat = ticks.toNat / 100 := rfl

theorem decimalDigits_eq (fuel n : Nat) (enough : (Nat.digits 10 n).length ≤ fuel) :
    decimalDigits fuel n = ((Nat.digits 10 n).map digitChar).reverse := by
  induction fuel generalizing n with
  | zero =>
      have none : Nat.digits 10 n = [] := List.eq_nil_of_length_eq_zero (by omega)
      rw [none]
      rfl
  | succ fuel ih =>
      rw [decimalDigits]
      split
      next zero => simp [zero]
      next nonzero =>
        have split := Nat.digits_def' (b := 10) (by decide) (Nat.pos_of_ne_zero nonzero)
        rw [split, List.length_cons] at enough
        have digit : BitVec.ofNat 8 (0x30 + n % 10) = digitChar (n % 10) := by
          apply BitVec.eq_of_toNat_eq
          rw [digitChar_toNat (Nat.mod_lt _ (by decide)), BitVec.toNat_ofNat]
          omega
        rw [split, ih _ (by omega), digit, List.map_cons, List.reverse_cons]

theorem digits_length (ticks : U32) : (Nat.digits 10 (ticks.toNat / 100)).length ≤ 8 := by
  rw [Nat.digits_length_le_iff (by decide)]
  have bound := ticks.isLt
  omega

theorem uptime_eq (ticks : U32) : uptime ticks = trueUptime ticks := by
  have digits := digits_length ticks
  simp only [uptime, trueUptime, secs_toNat]
  split
  next zero =>
    rw [zero]
    rfl
  next nonzero =>
    rw [decimalDigits_eq 10 _ (by omega), text_of_ne_zero nonzero]
    rfl

theorem nul_notMem_trueUptime (ticks : U32) : 0#8 ∉ trueUptime ticks := by
  intro member
  rw [trueUptime, List.mem_append, List.mem_append] at member
  rcases member with (label | digit) | unit
  · simp [uptimeLabel] at label
  · exact absurd (text_digit digit) (by decide)
  · simp at unit

theorem trueUptime_length (ticks : U32) :
    (trueUptime ticks).length = 5 + (text (ticks.toNat / 100)).length := by
  simp [trueUptime, uptimeLabel]
  omega

theorem text_secs_length (ticks : U32) : (text (ticks.toNat / 100)).length ≤ 8 := by
  have bound := ticks.isLt
  rw [text, List.length_map]
  exact length_numeral_le (by decide) (by decide) (by omega)

theorem putLabel_spec (buf : Vector U8 16) :
    ∃ buf', putLabel buf = some buf' ∧ Holds buf' 0 uptimeLabel := by
  have one := (holds_nil buf 0).push 0x55#8 (by decide)
  have two := one.push 0x50#8 (by decide)
  have three := two.push 0x3A#8 (by decide)
  exact ⟨_, rfl, three.push 0x20#8 (by decide)⟩

theorem putSecs_spec (ticks : U32) (tmp : Vector U8 8) {buf : Vector U8 16}
    (label : Holds buf 0 uptimeLabel) :
    ∃ buf', putSecs (ticks / 100#32) tmp buf =
        some (buf', 4 + (text (ticks.toNat / 100)).length) ∧
      Holds buf' 0 (uptimeLabel ++ text (ticks.toNat / 100)) := by
  rw [putSecs]
  split
  next zero =>
    have nought : ticks.toNat / 100 = 0 := by
      rw [← secs_toNat, zero]
      rfl
    rw [nought]
    exact ⟨_, rfl, label.push 0x30#8 (by decide)⟩
  next nonzero =>
    have positive : ticks.toNat / 100 ≠ 0 := fun zero => nonzero (BitVec.eq_of_toNat_eq zero)
    have reversed := text_of_ne_zero positive
    have short := digits_length ticks
    obtain ⟨tmp', filled, digits⟩ := digitLoop_spec digitFuel (ticks / 100#32) (holds_nil tmp 0)
      (by rw [secs_toNat, digitFuel]; omega) (by rw [secs_toNat]; simp; omega)
    rw [secs_toNat, List.nil_append] at digits
    obtain ⟨buf', copied, held, -⟩ := copyLoop_spec digits label (by simp [uptimeLabel]; omega)
    simp only [secs_toNat, List.length_nil, Nat.zero_add] at filled
    rw [List.length_map] at copied
    refine ⟨buf', ?_, by rw [reversed]; exact held⟩
    rw [filled, reversed, List.length_reverse, List.length_map]
    exact copied

theorem uptimeChecked_spec (ticks : U32) (tmp : Vector U8 8) (buf : Vector U8 16) :
    ∃ buf', uptimeChecked ticks tmp buf = some buf' ∧
      stringAt 0#8 buf' 0 = some (trueUptime ticks) := by
  obtain ⟨labelled, start, label⟩ := putLabel_spec buf
  obtain ⟨counted, run, held⟩ := putSecs_spec ticks tmp label
  have short := text_secs_length ticks
  have four : uptimeLabel.length = 4 := rfl
  have unit := held.push 0x73#8 (by simp; omega)
  have nul := unit.push 0#8 (by simp; omega)
  refine ⟨_, ?_, stringAt_eq_some.mpr ⟨nul_notMem_trueUptime ticks, nul⟩⟩
  simp only [uptimeChecked, start, run, Option.bind_eq_bind, Option.bind_some]
  simp only [Nat.zero_add, List.length_append, four, List.length_singleton]
  rw [put_of_lt _ _ (by omega), Option.bind_some, put_of_lt]

theorem vgaPrintAt_string (v : Vga) (row col : Nat) {l s : List U8} (color : U8)
    (shown : string 0#8 l = some s) : v.vgaPrintAt row col l color = v.vgaPrintAt row col s color := by
  obtain ⟨free, rest, rfl⟩ := string_eq_some.mp shown
  clear shown
  induction s generalizing v col with
  | nil => rfl
  | cons c s ih =>
      simp only [List.cons_append, vgaPrintAt]
      rw [ih _ _ (fun member => free (by simp [member]))]

-- The arrays are never left, and the row is drawn with the whole text.
theorem vgaDrawStatusbarChecked_eq (v : Vga) (ticks : U32) (tmp : Vector U8 8)
    (buf : Vector U8 16) :
    v.vgaDrawStatusbarChecked ticks tmp buf = some (v.vgaDrawStatusbar ticks) := by
  obtain ⟨buf', run, shown⟩ := uptimeChecked_spec ticks tmp buf
  have whole : string 0#8 buf'.toList = some (uptime ticks) := by
    rw [uptime_eq, ← shown]
    rfl
  simp only [vgaDrawStatusbarChecked, run, Option.bind_eq_bind, Option.bind_some]
  rw [vgaPrintAt_string _ _ _ _ whole]
  rfl

theorem charAt_vgaPrintAt (v : Vga) (row col : Nat) (s : List U8) (color : U8) (free : 0#8 ∉ s)
    (c : Nat) (inside : c < vgaWidth) :
    (v.vgaPrintAt row col s color).charAt (row * vgaWidth + c) =
      if col ≤ c then (s[c - col]?).getD (v.charAt (row * vgaWidth + c))
      else v.charAt (row * vgaWidth + c) := by
  induction s generalizing v col with
  | nil => simp [vgaPrintAt]
  | cons x s ih =>
      have nonzero : x ≠ 0#8 := fun h => free (by simp [h])
      rw [vgaPrintAt]
      by_cases room : col < vgaWidth
      · rw [if_pos ⟨nonzero, room⟩, ih _ _ (fun member => free (by simp [member])), vgaWriteAt,
          charAt_store]
        rcases Nat.lt_trichotomy c col with before | here | after
        · rw [if_neg (by omega), if_neg (by omega), if_neg (by omega)]
        · rw [if_neg (by omega), if_pos (by omega), if_pos (by omega), here, Nat.sub_self]
          rfl
        · have next : c - col = (c - (col + 1)) + 1 := by omega
          rw [if_pos (by omega), if_neg (by omega), if_pos (by omega), next,
            List.getElem?_cons_succ]
      · -- the clip at the right edge
        rw [if_neg (fun both => room both.2), if_neg (by omega)]

theorem charAt_fill (v : Vga) (n c : Nat) (inside : c < n) :
    ((List.range n).foldl (fun v c => v.vgaWriteAt 0 c 0x20#8 statusColor) v).charAt c = 0x20#8 := by
  induction n with
  | zero => omega
  | succ n ih =>
      rw [List.range_succ, List.foldl_concat, vgaWriteAt, charAt_store, Nat.zero_mul, Nat.zero_add]
      split
      next => rfl
      next other => exact ih (by omega)

theorem charAt_statusbar (v : Vga) (ticks : U32) {c : Nat} (right : 70 ≤ c) (inside : c < vgaWidth) :
    (v.vgaDrawStatusbar ticks).charAt (0 * vgaWidth + c) =
      ((trueUptime ticks)[c - 70]?).getD 0x20#8 := by
  have free : 0#8 ∉ osName := by decide
  have name : osName.length = 13 := rfl
  have beyond : osName[c - 1]? = none := List.getElem?_eq_none (by omega)
  rw [vgaDrawStatusbar, uptime_eq,
    charAt_vgaPrintAt _ 0 70 _ _ (nul_notMem_trueUptime ticks) c inside, if_pos right,
    charAt_vgaPrintAt _ 0 1 _ _ free c inside, if_pos (by omega), beyond, Option.getD_none,
    Nat.zero_mul, Nat.zero_add, charAt_fill _ _ _ inside]

theorem shows_iff (v : Vga) (ticks : U32) :
    (v.vgaDrawStatusbar ticks).Shows 0 70 (trueUptime ticks) ↔ (trueUptime ticks).length ≤ 10 := by
  have width : vgaWidth = 80 := rfl
  constructor
  next =>
    intro shown
    have lengths := congrArg List.length shown
    simp only [rowFrom, List.length_map, List.length_range', List.length_append,
      List.length_replicate, width] at lengths
    omega
  next =>
    intro fits
    apply List.ext_getElem?
    intro i
    by_cases inside : i < 10
    · rw [rowFrom, List.getElem?_map, List.getElem?_range' (by exact inside), Option.map_some,
        Nat.one_mul, charAt_statusbar v ticks (by omega) (by omega),
        Nat.add_sub_cancel_left]
      by_cases early : i < (trueUptime ticks).length
      · rw [List.getElem?_append_left early, List.getElem?_eq_getElem early]
        rfl
      · rw [List.getElem?_append_right (by omega), List.getElem?_eq_none (by omega),
          List.getElem?_replicate, if_pos (by omega)]
        rfl
    · rw [List.getElem?_eq_none, List.getElem?_eq_none]
      · simp only [List.length_append, List.length_replicate, width]
        omega
      · simp only [rowFrom, List.length_map, List.length_range', width]
        omega

theorem trueUptime_fits (ticks : U32) :
    (trueUptime ticks).length ≤ 10 ↔ ticks.toNat < 10000000 := by
  rw [trueUptime_length, text, List.length_map, numeral]
  split
  next zero =>
    simp only [List.length_singleton]
    omega
  next =>
    have count := Nat.digits_length_le_iff (b := 10) (k := 5) (by decide) (ticks.toNat / 100)
    rw [List.length_reverse]
    omega

def ShowsUptime (v : Vga) (ticks : U32) (tmp : Vector U8 8) (buf : Vector U8 16) : Prop :=
  ∃ v', v.vgaDrawStatusbarChecked ticks tmp buf = some v' ∧ v'.cursor = v.cursor ∧
    (∀ i, vgaWidth ≤ i → v'.cells i = v.cells i) ∧ v'.Shows 0 70 (trueUptime ticks)

theorem statusbar_shows_uptime (v : Vga) (ticks : U32) (tmp : Vector U8 8) (buf : Vector U8 16) :
    (∃ v', v.vgaDrawStatusbarChecked ticks tmp buf = some v' ∧ v'.cursor = v.cursor ∧
      ∀ i, vgaWidth ≤ i → v'.cells i = v.cells i) ∧
    (v.ShowsUptime ticks tmp buf ↔ ticks.toNat < 10000000) := by
  have drawn := v.vgaDrawStatusbarChecked_eq ticks tmp buf
  have cursor := v.vgaDrawStatusbar_cursor ticks
  have below : ∀ i, vgaWidth ≤ i → (v.vgaDrawStatusbar ticks).cells i = v.cells i :=
    fun i row => (v.vgaDrawStatusbar_confined ticks).outside i (Or.inr row)
  refine ⟨⟨_, drawn, cursor, below⟩, ?_⟩
  rw [← trueUptime_fits, ← v.shows_iff]
  constructor
  next =>
    rintro ⟨v', drawn', -, -, shown⟩
    cases drawn.symm.trans drawn'
    exact shown
  next =>
    intro shown
    exact ⟨_, drawn, cursor, below, shown⟩

-- After 100000 seconds the unit is cut off.
theorem statusbar_cut : ¬∀ (v : Vga) (ticks : U32) (tmp : Vector U8 8) (buf : Vector U8 16),
    v.ShowsUptime ticks tmp buf := by
  intro always
  let v : Vga := ⟨fun _ => 0#16, 0, 0, 0#8, 0#16, true⟩
  obtain ⟨v', drawn, -, -, shown⟩ := always v 10000000#32 (Vector.replicate 8 0#8)
    (Vector.replicate 16 0#8)
  rw [vgaDrawStatusbarChecked_eq] at drawn
  cases drawn
  rw [shows_iff, trueUptime_fits] at shown
  exact absurd shown (by decide)

end Vga

end SoraOS
