import SoraOS.Console.Bounds
import SoraOS.Shared.Crtc

set_option autoImplicit false

/-! The blinking cursor of the adapter, which `vga.c` moves through the ports 0x3D4 and 0x3D5. -/

namespace SoraOS.Vga

structure Display where
  vga : Vga
  crtc : Crtc

-- The ports of `vga_update_hw_cursor`.
def sendPosition (c : Crtc) (pos : BitVec 16) : Crtc :=
  let c := (c.select 0x0F#8).write ((pos &&& 0xFF#16).setWidth 8)
  (c.select 0x0E#8).write (((pos >>> 8) &&& 0xFF#16).setWidth 8)

def vgaEnableCursor (c : Crtc) : Crtc :=
  let c := c.select 0x0A#8
  let c := c.write ((c.read &&& 0xC0#8) ||| 13#8)
  let c := c.select 0x0B#8
  c.write ((c.read &&& 0xE0#8) ||| 15#8)

def vgaDisableCursor (c : Crtc) : Crtc := (c.select 0x0A#8).write 0x20#8

namespace Display

-- `vga_update_hw_cursor` at the end of a call.
def sent (d : Display) (vga : Vga) : Display where
  vga := vga
  crtc := sendPosition d.crtc (BitVec.ofNat 16 (vga.row * vgaWidth + vga.col))

def vgaPutchar (d : Display) (c : U8) : Display := d.sent (d.vga.vgaPutchar c)

def vgaPrint (d : Display) : List U8 → Display
  | [] => d
  | c :: s => if c = 0#8 then d else (d.vgaPutchar c).vgaPrint s

def vgaPrintColor (d : Display) (s : List U8) (color : U8) : Display :=
  let saved := d.vga.color
  let d := { d with vga := { d.vga with color := color } }.vgaPrint s
  { d with vga := { d.vga with color := saved } }

def perform (d : Display) : Op → Display
  | .vgaInit => { d with crtc := vgaEnableCursor d.crtc }.sent d.vga.vgaInit
  | .vgaClear => d.sent d.vga.vgaClear
  | .vgaPutchar c => d.vgaPutchar c
  | .vgaPrint s => d.vgaPrint s
  | .vgaPrintColor s color => d.vgaPrintColor s color
  | .vgaSetColor fg bg => { d with vga := d.vga.vgaSetColor fg bg }
  | .vgaSetCursor row col => d.sent (d.vga.vgaSetCursor row col)
  | .vgaPrintAt row col s color => { d with vga := d.vga.vgaPrintAt row col s color }
  | .vgaDrawStatusbar ticks => { d with vga := d.vga.vgaDrawStatusbar ticks }

/-- The adapter's cursor is where the console writes, and no other register was touched. -/
structure Synced (register : U8 → U8) (d : Display) : Prop where
  placed : d.vga.Placed
  cursor : d.crtc.cursor = BitVec.ofNat 16 (d.vga.row * vgaWidth + d.vga.col)
  others : ∀ i, i ≠ 0x0E#8 → i ≠ 0x0F#8 → d.crtc.register i = register i

variable {register : U8 → U8} {d : Display}

theorem cursor_sendPosition (c : Crtc) (pos : BitVec 16) : (sendPosition c pos).cursor = pos := by
  simp only [Crtc.cursor, sendPosition, Crtc.select_write_register]
  have different : ¬(0x0F#8 : U8) = 0x0E#8 := by decide
  rw [if_pos trivial, if_neg different, if_pos trivial]
  have ones : ∀ i < 8, (0xFF#16).getLsbD i = true := by decide
  apply BitVec.eq_of_getLsbD_eq
  intro i within
  simp only [BitVec.getLsbD_append, BitVec.getLsbD_setWidth, BitVec.getLsbD_and,
    BitVec.getLsbD_ushiftRight]
  grind

theorem register_sendPosition (c : Crtc) (pos : BitVec 16) {i : U8} (high : i ≠ 0x0E#8)
    (low : i ≠ 0x0F#8) : (sendPosition c pos).register i = c.register i := by
  simp only [sendPosition, Crtc.select_write_register]
  rw [if_neg high, if_neg low]

theorem Synced.sent (h : d.Synced register) {vga : Vga} (placed : vga.Placed) :
    (d.sent vga).Synced register := by
  constructor
  next => exact placed
  next => exact cursor_sendPosition _ _
  next =>
    intro i high low
    rw [← h.others i high low]
    exact register_sendPosition _ _ high low

theorem Synced.stays (h : d.Synced register) {vga : Vga} (row : vga.row = d.vga.row)
    (col : vga.col = d.vga.col) : ({ d with vga := vga } : Display).Synced register := by
  constructor
  next => exact ⟨row ▸ h.placed.row, col ▸ h.placed.col⟩
  next =>
    rw [row, col]
    exact h.cursor
  next => exact h.others

theorem Synced.vgaPrint (h : d.Synced register) (s : List U8) : (d.vgaPrint s).Synced register := by
  induction s generalizing d with
  | nil => exact h
  | cons c s ih =>
      rw [Display.vgaPrint]
      split
      next => exact h
      next => exact ih (h.sent (d.vga.vgaPutchar_spec c h.placed).2.2)

theorem Synced.perform (h : d.Synced register) {op : Op} (notInit : op ≠ .vgaInit) :
    (d.perform op).Synced register := by
  cases op with
  | vgaInit => exact absurd rfl notInit
  | vgaClear => exact h.sent d.vga.vgaClear_spec.2
  | vgaPutchar c => exact h.sent (d.vga.vgaPutchar_spec c h.placed).2.2
  | vgaPrint s => exact h.vgaPrint s
  | vgaPrintColor s color =>
      have colored : ({ d with vga := { d.vga with color := color } } : Display).Synced register :=
        h.stays rfl rfl
      exact (colored.vgaPrint s).stays rfl rfl
  | vgaSetColor fg bg => exact h.stays rfl rfl
  | vgaSetCursor row col => exact h.sent ⟨row.isLt, col.isLt⟩
  | vgaPrintAt row col s color =>
      have same := d.vga.vgaPrintAt_cursor row col s color
      simp only [Vga.cursor, Prod.mk.injEq] at same
      exact h.stays same.1 same.2.1
  | vgaDrawStatusbar ticks =>
      have same := d.vga.vgaDrawStatusbar_cursor ticks
      simp only [Vga.cursor, Prod.mk.injEq] at same
      exact h.stays same.1 same.2.1

theorem Synced.run (h : d.Synced register) (ops : List Op) (notInit : .vgaInit ∉ ops) :
    (ops.foldl Display.perform d).Synced register := by
  induction ops generalizing d with
  | nil => exact h
  | cons op rest ih =>
      rw [List.mem_cons, not_or] at notInit
      exact ih (h.perform (Ne.symm notInit.1)) notInit.2

theorem vgaPrint_vga (d : Display) (s : List U8) : (d.vgaPrint s).vga = d.vga.vgaPrint s := by
  induction s generalizing d with
  | nil => rfl
  | cons c s ih =>
      rw [Display.vgaPrint, Vga.vgaPrint]
      split
      next => rfl
      next => exact ih _

theorem perform_vga (d : Display) (op : Op) : (d.perform op).vga = d.vga.perform op := by
  cases op with
  | vgaPrint s => exact d.vgaPrint_vga s
  | vgaPrintColor s color =>
      simp only [Display.perform, Display.vgaPrintColor, Vga.perform, Vga.vgaPrintColor,
        vgaPrint_vga]
  | _ => simp only [Display.perform, Display.sent, Display.vgaPutchar, Vga.perform]

theorem run_vga (d : Display) (ops : List Op) :
    (ops.foldl perform d).vga = ops.foldl Vga.perform d.vga := by
  induction ops generalizing d with
  | nil => rfl
  | cons op rest ih => rw [List.foldl_cons, ih, perform_vga, List.foldl_cons]

theorem vgaEnableCursor_registers (c : Crtc) :
    (vgaEnableCursor c).register 0x0A#8 = (c.register 0x0A#8 &&& 0xC0#8) ||| 13#8 ∧
      (vgaEnableCursor c).register 0x0B#8 = (c.register 0x0B#8 &&& 0xE0#8) ||| 15#8 ∧
      ∀ i, i ≠ 0x0A#8 → i ≠ 0x0B#8 → (vgaEnableCursor c).register i = c.register i := by
  have different : ¬(0x0A#8 : U8) = 0x0B#8 ∧ ¬(0x0B#8 : U8) = 0x0A#8 := by decide
  simp only [vgaEnableCursor, Crtc.select_read, Crtc.select_write_register, different, if_true,
    if_false]
  refine ⟨trivial, trivial, fun i first last => ?_⟩
  rw [if_neg last, if_neg first]

theorem synced_vgaInit (d : Display) :
    (d.perform .vgaInit).Synced (vgaEnableCursor d.crtc).register := by
  constructor
  next => exact d.vga.vgaInit_spec.2
  next => exact cursor_sendPosition _ _
  next =>
    intro i high low
    exact register_sendPosition _ _ high low

/--
After `vga_init`, whatever calls follow, the adapter shows a cursor of the scanlines 13 to 15 on the
cell of the console's own cursor, and its other registers are as they were before.
-/
theorem cursor_follows (d : Display) (ops : List Op) (notInit : .vgaInit ∉ ops) :
    let e := ops.foldl perform (d.perform .vgaInit)
    e.vga = ops.foldl Vga.perform d.vga.vgaInit ∧
      e.crtc.cursor.toNat = e.vga.row * vgaWidth + e.vga.col ∧
      e.crtc.cursor.toNat < vgaWidth * vgaHeight ∧ e.crtc.visible = true ∧
      e.crtc.scanlines = (13#5, 15#5) ∧
      ∀ i ∉ [0x0A#8, 0x0B#8, 0x0E#8, 0x0F#8], e.crtc.register i = d.crtc.register i := by
  have synced := (synced_vgaInit d).run ops notInit
  obtain ⟨first, last, others⟩ := vgaEnableCursor_registers d.crtc
  have shown := run_vga (d.perform .vgaInit) ops
  intro e
  have row : e.vga.row < vgaHeight := synced.placed.row
  have col : e.vga.col < vgaWidth := synced.placed.col
  have cell : e.vga.row * vgaWidth + e.vga.col < vgaWidth * vgaHeight := by
    simp only [vgaWidth, vgaHeight] at row col ⊢
    omega
  have position : e.crtc.cursor.toNat = e.vga.row * vgaWidth + e.vga.col := by
    rw [synced.cursor, BitVec.toNat_ofNat, Nat.mod_eq_of_lt]
    exact cell.trans (by decide)
  have start : e.crtc.register 0x0A#8 = (d.crtc.register 0x0A#8 &&& 0xC0#8) ||| 13#8 :=
    (synced.others _ (by decide) (by decide)).trans first
  have finish : e.crtc.register 0x0B#8 = (d.crtc.register 0x0B#8 &&& 0xE0#8) ||| 15#8 :=
    (synced.others _ (by decide) (by decide)).trans last
  refine ⟨shown.trans (by rw [perform_vga]; rfl), position, position ▸ cell, ?_, ?_, ?_⟩
  · simp [Crtc.visible, start]
  · simp [Crtc.scanlines, start, finish]
  · intro i outside
    simp only [List.mem_cons, List.not_mem_nil, or_false, not_or] at outside
    exact (synced.others i outside.2.2.1 outside.2.2.2).trans (others i outside.1 outside.2.1)

def hidden : Display where
  vga := poweredOn (fun _ => 0#16) 0#16
  crtc := vgaDisableCursor { index := 0#8, register := fun _ => 0xFF#8 }

theorem cursor_follows_hidden :
    hidden.crtc.visible = false ∧
      (([.vgaPrint (ascii "ok"), .vgaClear] : List Op).foldl perform
        (hidden.perform .vgaInit)).crtc.visible = true := by
  have follows := cursor_follows hidden [.vgaPrint (ascii "ok"), .vgaClear] (by simp)
  exact ⟨by decide, follows.2.2.2.1⟩

end Display

end SoraOS.Vga
