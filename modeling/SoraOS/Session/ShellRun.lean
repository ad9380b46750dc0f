import SoraOS.Console.LineEditor
import SoraOS.Keyboard.Fifo
import SoraOS.Session.Interpreter
import SoraOS.Shared.Transition

set_option autoImplicit false

/-! `shell_run` with its interrupts, from the first prompt on. -/

namespace SoraOS

namespace Session

open Vga Shell Scratch

-- Where the loop stands. While a command works or prints, it is known when its line was read.
inductive Pc where
  | refresh
  | getchar (pc : Keyboard.GetcharPc)
  | wait
  | handle (c : U8)
  | working (ticks : U32) (pc : KernelPc)
  -- the calls of the console that are made, and those to come; whether the loop goes on then
  | printing (ticks : U32) (made left : List Vga.Op) (returns : Bool)
  -- interrupts are off, for ever
  | halted
  -- another process has the CPU, with interrupts off
  | lost

def Pc.inCommand : Pc → Bool
  | .working _ _ | .printing _ _ _ _ => true
  | _ => false

def Pc.stopped : Pc → Bool
  | .halted | .lost => true
  | _ => false

structure State where
  vga : Vga
  line : Vector U8 maxLine
  pos : Nat
  keystrokeCount : U32
  idle : U32
  kernel : Kernel Slot
  tickCount : U32
  keyboard : Keyboard
  pc : Pc

-- `newprocess` has a new block, and has not marked it BLOCKED yet.
def State.exposed (s : State) : Bool :=
  match s.pc with
  | .working _ pc => pc.exposed s.kernel
  | _ => false

/-- What the uninitialised arrays hold while a key is handled. -/
structure Junk where
  stack : Stack
  argv : Vector Nat maxArgs

inductive Event where
  | irq0
  | irq1 (scancode : U8)
  | statement (junk : Junk)

def Event.code : Event → Option U8
  | .irq1 scancode => some scancode
  | _ => none

def Event.isStatement : Event → Bool
  | .statement _ => true
  | _ => false

def Event.isTick : Event → Bool
  | .irq0 => true
  | _ => false

-- What one event shows: a key with the ticks at which it is handled, or the IRQ1 handler's outcome.
inductive Shown where
  | handled (c : U8) (ticks : U32)
  | received (outcome : Keyboard.Outcome)
  | nothing

def promptCalls : List Vga.Op := [
  .vgaPrintColor (ascii "user") 0x0A#8,
  .vgaPrintColor (ascii "@vamos-os") 0x0B#8,
  .vgaPrintColor (ascii " > ") 0x0E#8]

def greeting : List Vga.Op :=
  cmdBanner ++ [.vgaPrint (ascii "Type 'help' to see all commands.\n\n")] ++ promptCalls

section Steps

variable (counterProcess : U32)

-- `if (pos > 0) shell_parse(line);`
def runLine (s : State) (line : Vector U8 maxLine) (junk : Junk) :
    Option (Begun × Vector U8 maxLine) :=
  let system : System :=
    { kernel := s.kernel, ticks := s.tickCount, counterProcess := counterProcess }
  if s.pos > 0 then ((parseAndRun system line junk.argv).run junk.stack).map Prod.fst
  else some (.prints [] true, line)

-- The prompt follows where the command returns.
def printing (ticks : U32) (made calls : List Vga.Op) (returns : Bool) : Pc :=
  .printing ticks made (calls ++ if returns then promptCalls else []) returns

-- `c == '\n'`, up to the first call of the command, or its first change of the run queue.
def handleNewline (s : State) (junk : Junk) : Option State := do
  let s := { s with vga := s.vga.vgaPutchar newline }
  let line ← Buffer.put s.line s.pos 0#8
  let (begun, line) ← runLine counterProcess s line junk
  match begun with
  | .prints calls returns =>
      return { s with
        line := line
        pc := printing s.tickCount [.vgaPutchar newline] calls returns }
  | .works pc => return { s with line := line, pc := .working s.tickCount pc }

-- The other keys are handled at once; a newline is when all of its line is done.
def handleKey (s : State) (c : U8) (junk : Junk) : Option (Shown × State) := do
  let s := { s with keystrokeCount := s.keystrokeCount + 1#32, pc := .refresh }
  let shown := Shown.handled c s.tickCount
  if c = newline then
    let s ← handleNewline counterProcess s junk
    return (.nothing, s)
  else if c = backspace then
    if s.pos > 0 then return (shown, { s with pos := s.pos - 1, vga := s.vga.vgaPutchar backspace })
    else return (shown, s)
  else if s.pos < maxLine - 1 then
    let line ← Buffer.put s.line s.pos c
    return (shown, { s with line := line, pos := s.pos + 1, vga := s.vga.vgaPutchar c })
  else return (shown, s)

def work (s : State) (ticks : U32) (pc : KernelPc) (junk : Junk) : Option State :=
  match finalCalls s.kernel pc with
  | some calls => do
      let (calls, _) ← calls.run junk.stack
      return { s with pc := printing ticks [.vgaPutchar newline] calls true }
  | none => do
      let (kernel, pc) ← kernelStatement s.kernel pc
      return { s with kernel := kernel, pc := .working ticks pc }

-- `vga_draw_statusbar` reads the ticks when it is called.
def current (ticks : U32) : Vga.Op → Vga.Op
  | .vgaDrawStatusbar _ => .vgaDrawStatusbar ticks
  | op => op

-- The next call. A command that does not return leaves the machine halted.
def print (s : State) (ticks : U32) (made : List Vga.Op) (returns : Bool) :
    List Vga.Op → Shown × State
  | op :: left =>
      (.nothing, { s with
        vga := s.vga.perform (current s.tickCount op)
        pc := .printing ticks (made ++ [op]) left returns })
  | [] => (.handled newline ticks,
      if returns then { s with pos := 0, pc := .refresh } else { s with pc := .halted })

-- `while ((c = keyboard_getchar()) == 0)`
def getchar (s : State) (pc : Keyboard.GetcharPc) : State :=
  match s.keyboard.keyboardGetchar pc with
  | (none, pc, keyboard) => { s with keyboard := keyboard, pc := .getchar pc }
  | (some c, _, keyboard) =>
      { s with keyboard := keyboard, pc := if c = 0#8 then .wait else .handle c }

def refresh (s : State) : State :=
  let vga :=
    if s.keystrokeCount % 50#32 = 0#32 then s.vga.vgaDrawStatusbar s.tickCount else s.vga
  { s with vga := vga, pc := .getchar .test }

-- `sti; hlt; cli; sti`, then the status bar every 200 turns.
def wait (s : State) : State :=
  let idle := s.idle + 1#32
  let vga := if idle % 200#32 = 0#32 then s.vga.vgaDrawStatusbar s.tickCount else s.vga
  { s with vga := vga, idle := idle, pc := .getchar .test }

def statement (s : State) (junk : Junk) : Option (Shown × State) :=
  match s.pc with
  | .refresh => some (.nothing, refresh s)
  | .getchar pc => some (.nothing, getchar s pc)
  | .wait => some (.nothing, wait s)
  | .handle c => handleKey counterProcess s c junk
  | .working ticks pc => (work s ticks pc junk).map fun next => (.nothing, next)
  | .printing ticks made left returns => some (print s ticks made returns left)
  | .halted | .lost => some (.nothing, s)

/--
A call of the console, and all of a key but the changes of the run queue and the calls, is one
statement: it reads at most one of the values that the handlers change, and they read none of what
it changes. The queue, which a listing reads call by call, is changed by `schedule()` only if there
is somebody to switch to; the shell is then lost.
-/
def step (s : State) : Event → Option (Shown × State)
  | .irq0 =>
      if s.pc.stopped then some (.nothing, s)
      else do
        let kernel ← s.kernel.schedule
        let pc := if kernel.currentPcb = s.kernel.currentPcb then s.pc else .lost
        return (.nothing, { s with tickCount := s.tickCount + 1#32, kernel := kernel, pc := pc })
  | .irq1 scancode =>
      if s.pc.stopped then some (.nothing, s)
      else
        let (outcome, keyboard) := s.keyboard.keyboardHandler scancode
        some (.received outcome, { s with keyboard := keyboard })
  | .statement junk => statement counterProcess s junk

def proceed (s : State) (e : Event) : Option State := (step counterProcess s e).map Prod.snd

def Step (s : State) (e : Event) (s' : State) : Prop := proceed counterProcess s e = some s'

/-- No timer interrupt comes between `create_process` and the store that blocks the new block. -/
def Spared (s : State) : Event → Prop
  | .irq0 => s.exposed = false
  | _ => True

instance (s : State) : (e : Event) → Decidable (Spared s e)
  | .irq0 => inferInstanceAs (Decidable (s.exposed = false))
  | .irq1 _ => inferInstanceAs (Decidable True)
  | .statement _ => inferInstanceAs (Decidable True)

def run (s : State) : List Event → Option (List Shown × State)
  | [] => some ([], s)
  | e :: rest => do
      let (shown, s) ← step counterProcess s e
      let (later, s) ← run s rest
      return (shown :: later, s)

variable {counterProcess}

theorem handleNewline_frame {s s' : State} {junk : Junk}
    (taken : handleNewline counterProcess s junk = some s') :
    s'.keyboard = s.keyboard ∧ s'.tickCount = s.tickCount ∧ s'.pc.inCommand = true := by
  obtain ⟨line, -, taken⟩ := Option.bind_eq_some_iff.mp taken
  obtain ⟨⟨begun, line⟩, -, taken⟩ := Option.bind_eq_some_iff.mp taken
  cases begun with
  | prints calls returns => exact Option.some.inj taken ▸ ⟨rfl, rfl, rfl⟩
  | works pc => exact Option.some.inj taken ▸ ⟨rfl, rfl, rfl⟩

theorem handleKey_frame {s s' : State} {c : U8} {junk : Junk} {shown : Shown}
    (taken : handleKey counterProcess s c junk = some (shown, s')) :
    s'.keyboard = s.keyboard ∧ s'.tickCount = s.tickCount ∧
      (shown = .nothing ∧ s'.pc.inCommand = true ∨ ∃ ticks, shown = .handled c ticks) := by
  rw [handleKey] at taken
  split at taken
  next =>
    obtain ⟨next, newline, taken⟩ := Option.bind_eq_some_iff.mp taken
    obtain ⟨keyboard, ticks, inCommand⟩ := handleNewline_frame newline
    cases taken
    exact ⟨keyboard, ticks, .inl ⟨rfl, inCommand⟩⟩
  split at taken
  next =>
    split at taken
    next => cases taken; exact ⟨rfl, rfl, .inr ⟨_, rfl⟩⟩
    next => cases taken; exact ⟨rfl, rfl, .inr ⟨_, rfl⟩⟩
  split at taken
  next =>
    obtain ⟨line, -, taken⟩ := Option.bind_eq_some_iff.mp taken
    cases taken
    exact ⟨rfl, rfl, .inr ⟨_, rfl⟩⟩
  next => cases taken; exact ⟨rfl, rfl, .inr ⟨_, rfl⟩⟩

theorem work_frame {s s' : State} {ticks : U32} {pc : KernelPc} {junk : Junk}
    (taken : work s ticks pc junk = some s') :
    s'.keyboard = s.keyboard ∧ s'.tickCount = s.tickCount := by
  rw [work] at taken
  split at taken
  next =>
    obtain ⟨calls, -, taken⟩ := Option.bind_eq_some_iff.mp taken
    exact Option.some.inj taken ▸ ⟨rfl, rfl⟩
  next =>
    obtain ⟨next, -, taken⟩ := Option.bind_eq_some_iff.mp taken
    exact Option.some.inj taken ▸ ⟨rfl, rfl⟩

theorem getchar_shiftHeld (s : State) (pc : Keyboard.GetcharPc) :
    (getchar s pc).keyboard.shiftHeld = s.keyboard.shiftHeld := by
  have kept := Keyboard.getchar_shiftHeld s.keyboard pc
  unfold getchar
  generalize s.keyboard.keyboardGetchar pc = result at kept ⊢
  obtain ⟨returned, pc', k'⟩ := result
  cases returned with
  | none => exact kept
  | some c => exact kept

theorem getchar_tickCount (s : State) (pc : Keyboard.GetcharPc) :
    (getchar s pc).tickCount = s.tickCount := by
  unfold getchar
  generalize s.keyboard.keyboardGetchar pc = result
  obtain ⟨returned, pc', k'⟩ := result
  cases returned <;> rfl

theorem statement_frame {s s' : State} {junk : Junk} {shown : Shown}
    (taken : statement counterProcess s junk = some (shown, s')) :
    s'.tickCount = s.tickCount ∧ s'.keyboard.shiftHeld = s.keyboard.shiftHeld ∧
      (shown = .nothing ∨ ∃ c ticks, shown = .handled c ticks) := by
  rw [statement] at taken
  split at taken
  next => cases taken; exact ⟨rfl, rfl, .inl rfl⟩
  next pc _ =>
    cases taken
    exact ⟨getchar_tickCount s pc, getchar_shiftHeld s pc, .inl rfl⟩
  next => cases taken; exact ⟨rfl, rfl, .inl rfl⟩
  next c _ =>
    obtain ⟨keyboard, ticks, shows⟩ := handleKey_frame taken
    rw [keyboard]
    exact ⟨ticks, rfl, shows.imp And.left fun ⟨ticks, shows⟩ => ⟨c, ticks, shows⟩⟩
  next =>
    obtain ⟨next, worked, result⟩ := Option.map_eq_some_iff.mp taken
    obtain ⟨keyboard, ticks⟩ := work_frame worked
    cases result
    rw [keyboard]
    exact ⟨ticks, rfl, .inl rfl⟩
  next left returns _ =>
    obtain ⟨rfl, rfl⟩ := Prod.mk.inj (Option.some.inj taken)
    cases left with
    | cons op left => exact ⟨rfl, rfl, .inl rfl⟩
    | nil => cases returns <;> exact ⟨rfl, rfl, .inr ⟨_, _, rfl⟩⟩
  next => cases taken; exact ⟨rfl, rfl, .inl rfl⟩
  next => cases taken; exact ⟨rfl, rfl, .inl rfl⟩

theorem step_stopped {s : State} (stopped : s.pc.stopped = true) (e : Event) :
    step counterProcess s e = some (.nothing, s) := by
  cases e with
  | irq0 => rw [step, if_pos stopped]
  | irq1 scancode => rw [step, if_pos stopped]
  | statement junk =>
      rw [step, statement]
      cases at_pc : s.pc <;> simp_all [Pc.stopped]

theorem run_cons_eq {s s' : State} {e : Event} {rest : List Event} {log : List Shown}
    (ran : run counterProcess s (e :: rest) = some (log, s')) :
    ∃ shown middle later, step counterProcess s e = some (shown, middle) ∧
      run counterProcess middle rest = some (later, s') ∧ log = shown :: later := by
  obtain ⟨⟨shown, middle⟩, first, ran⟩ := Option.bind_eq_some_iff.mp ran
  obtain ⟨⟨later, last⟩, after, result⟩ := Option.bind_eq_some_iff.mp ran
  cases result
  exact ⟨shown, middle, later, first, after, rfl⟩

theorem steps_of_run {s s' : State} {events : List Event} {log : List Shown}
    (ran : run counterProcess s events = some (log, s')) :
    events.foldlM (proceed counterProcess) s = some s' := by
  induction events generalizing s log with
  | nil =>
      cases ran
      rfl
  | cons e rest ih =>
      obtain ⟨shown, middle, later, first, after, -⟩ := run_cons_eq ran
      rw [List.foldlM_cons, proceed, first]
      exact ih after

theorem run_append (s : State) (events later : List Event) :
    run counterProcess s (events ++ later) = (run counterProcess s events).bind fun first =>
      (run counterProcess first.2 later).map fun last => (first.1 ++ last.1, last.2) := by
  induction events generalizing s with
  | nil => simp [run]
  | cons e rest ih =>
      simp only [List.cons_append, run, Option.bind_eq_bind, ih, Option.pure_def]
      cases step counterProcess s e with
      | none => rfl
      | some taken =>
          obtain ⟨shown, middle⟩ := taken
          simp only [Option.bind_some]
          cases run counterProcess middle rest with
          | none => rfl
          | some first =>
              simp only [Option.bind_some]
              cases run counterProcess first.2 later <;> rfl

end Steps

theorem spared_of_noTick (counterProcess : U32) (s : State) {events : List Event}
    (noTick : ∀ e ∈ events, e.isTick = false) :
    Transition.Meets (Step counterProcess) Spared s events := by
  induction events generalizing s with
  | nil => exact trivial
  | cons e rest ih =>
      intro t _
      refine ⟨?_, ih t fun e' member => noTick e' (List.mem_cons_of_mem _ member)⟩
      cases e with
      | irq0 => cases noTick .irq0 List.mem_cons_self
      | irq1 scancode => trivial
      | statement junk => trivial

/-- The end of `kernel_main`, and `shell_run` up to its loop. -/
def shellRun (vga : Vga) (line : Vector U8 maxLine) (kernel : Kernel Slot) (tickCount : U32)
    (keyboard : Keyboard) : State where
  vga := greeting.foldl Vga.perform ((vga.vgaSetColor 7#8 0#8).vgaClear.vgaDrawStatusbar tickCount)
  line := line
  pos := 0
  keystrokeCount := 0#32
  idle := 0#32
  kernel := kernel
  tickCount := tickCount
  keyboard := keyboard
  pc := .refresh

/-- What a user of the shell may rely on: a table, a line that is edited, and an answer to it. -/
structure Interpreter where
  table : Table
  held : List U8
  running : Bool

namespace Interpreter

variable (init : Pmm)

def prompted : List Output := fixed promptCalls

def answer (ticks : Nat) (i : Interpreter) : Answer :=
  if i.held = [] then ⟨[], i.table, true⟩ else interpret init ticks i.table i.held

def enter (ticks : Nat) (i : Interpreter) : List Output × Interpreter :=
  let answer := i.answer init ticks
  (typed [newline] ++ answer.text ++ (if answer.running then prompted else []),
    { table := answer.table, held := [], running := answer.running })

def key (ticks : Nat) (i : Interpreter) (c : U8) : List Output × Interpreter :=
  if c = newline then i.enter init ticks
  else if c = backspace then
    if i.held = [] then ([], i) else (typed [backspace], { i with held := i.held.dropLast })
  else if i.held.length < maxLine - 1 then (typed [c], { i with held := i.held ++ [c] })
  else ([], i)

def observe (i : Interpreter) : Shown → List Output × Interpreter
  | .handled c ticks => i.key init ticks.toNat c
  | _ => ([], i)

def runs (i : Interpreter) : List Shown → List Output × Interpreter
  | [] => ([], i)
  | shown :: rest =>
      let (now, i) := i.observe init shown
      let (later, i) := i.runs rest
      (now ++ later, i)

def initial : Interpreter := { table := Table.initial, held := [], running := true }

end Interpreter

end Session

end SoraOS
