import Mathlib.Logic.Function.Basic

set_option autoImplicit false

/-!
# Straight-line code on a 32-bit CPU

Moves between registers and memory words, and the return that ends a routine.
-/

namespace X86

abbrev Word := BitVec 32

inductive Reg where
  | eax
  | ecx
  | edx
  | ebx
  | esp
  | ebp
  | esi
  | edi
  deriving DecidableEq, Repr

structure Cpu where
  reg : Reg → Word
  eip : Word
  memory : Word → Word

inductive Instr where
  -- `mov dst, [base + offset]`
  | load (dst base : Reg) (offset : Word)
  -- `mov [base + offset], src`
  | store (base : Reg) (offset : Word) (src : Reg)
  | ret

namespace Cpu

def set (c : Cpu) (r : Reg) (w : Word) : Cpu := { c with reg := Function.update c.reg r w }

def exec (c : Cpu) : Instr → Cpu
  | .load dst base offset => c.set dst (c.memory (c.reg base + offset))
  | .store base offset src =>
      { c with memory := Function.update c.memory (c.reg base + offset) (c.reg src) }
  | .ret => { c.set .esp (c.reg .esp + 4#32) with eip := c.memory (c.reg .esp) }

def run (c : Cpu) (text : List Instr) : Cpu := text.foldl exec c

@[simp] theorem run_nil (c : Cpu) : c.run [] = c := rfl
@[simp] theorem run_cons (c : Cpu) (i : Instr) (rest : List Instr) :
    c.run (i :: rest) = (c.exec i).run rest := rfl

end Cpu

end X86
