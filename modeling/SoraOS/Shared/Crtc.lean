import Mathlib.Data.BitVec

set_option autoImplicit false

/-! # The text cursor of a VGA adapter, behind an index port and a data port -/

structure Crtc where
  index : BitVec 8
  register : BitVec 8 → BitVec 8

namespace Crtc

def select (c : Crtc) (index : BitVec 8) : Crtc := { c with index := index }

def write (c : Crtc) (w : BitVec 8) : Crtc :=
  { c with register := Function.update c.register c.index w }

def read (c : Crtc) : BitVec 8 := c.register c.index

def cursor (c : Crtc) : BitVec 16 := c.register 0x0E#8 ++ c.register 0x0F#8

def visible (c : Crtc) : Bool := !(c.register 0x0A#8).getLsbD 5

def scanlines (c : Crtc) : BitVec 5 × BitVec 5 :=
  ((c.register 0x0A#8).setWidth 5, (c.register 0x0B#8).setWidth 5)

theorem select_write_register (c : Crtc) (index w i : BitVec 8) :
    ((c.select index).write w).register i = if i = index then w else c.register i :=
  Function.update_apply _ _ _ _

theorem select_read (c : Crtc) (index : BitVec 8) : (c.select index).read = c.register index := rfl

end Crtc
