import SoraOS.Session.ShellRun
import SoraOS.Shared.Conservation

set_option autoImplicit false

/-! `shell_run` and the interpreter, event by event. -/

namespace SoraOS

namespace Session

open Vga Shell Scratch Conservation

def Pc.reader : Pc → Keyboard.GetcharPc
  | .getchar pc => pc
  | _ => .test

def Pc.hand : Pc → List U8
  | .handle c => [c]
  | .working _ _ | .printing _ _ _ _ | .lost => [newline]
  | _ => []

-- What is on the screen of the answer to a newline in hand.
def Pc.printed : Pc → List Output
  | .working _ _ | .lost => typed [newline]
  | .printing _ made _ _ => made.flatMap outputs
  | _ => []

def State.unhandled (s : State) : List U8 := s.pc.hand ++ s.keyboard.pending

def Shown.accepted : Shown → Option U8
  | .received (.pushed c) => some c
  | _ => none

def Shown.key : Shown → Option U8
  | .handled c _ => some c
  | _ => none

def Event.isKey : Event → Bool
  | .irq1 _ => true
  | _ => false

structure Accounts (s : State) (e : Event) (shown : Shown) (s' : State) : Prop where
  conserved : s.unhandled ++ shown.accepted.toList = shown.key.toList ++ s'.unhandled
  few : shown.accepted.toList.length ≤ [e].countP Event.isKey

structure Editing (init : Pmm) (kernel : Kernel Slot) (offset : Nat) (chars : Vector U8 maxLine)
    (i : Interpreter) : Prop where
  table : ∃ l, Represents init kernel l i.table
  pos : offset = i.held.length
  room : offset < maxLine
  line : Buffer.Holds chars 0 i.held
  unzero : 0#8 ∉ i.held

structure Telling (init : Pmm) (kernel : Kernel Slot) (ticks : Nat) (made left : List Vga.Op)
    (returns : Bool) (i : Interpreter) : Prop where
  table : ∃ l, Represents init kernel l (i.answer init ticks).table
  streams : ∀ op ∈ left, op.streams = true
  text : (made ++ left).flatMap outputs = (i.enter init ticks).1
  returns : returns = (i.answer init ticks).running

-- What holds in each place of the loop, besides the screen and the keyboard.
def Stage (init : Pmm) (kernel : Kernel Slot) (pos : Nat) (line : Vector U8 maxLine)
    (i : Interpreter) : Pc → Prop
  | .working ticks pc => (i.answer init ticks.toNat).running = true ∧
      ∃ n, Completes (Answers init (i.answer init ticks.toNat)) n kernel pc
  | .printing ticks made left returns => Telling init kernel ticks.toNat made left returns i
  | .halted => ∃ l, Represents init kernel l i.table
  | .lost => False
  | _ => Editing init kernel pos line i

/-- The loop shows the paper, and does what the interpreter does. -/
structure Follows (init : Pmm) (s : State) (i : Interpreter) (p : Paper U8) : Prop where
  paper : OnPaper s.vga (s.pc.printed.foldl emit p)
  inBounds : s.vga.inBounds = true
  keyboard : Keyboard.Sound ⟨s.keyboard, s.pc.reader⟩
  handled : ∀ c, s.pc = .handle c → c ≠ 0#8
  running : s.pc = .halted ↔ i.running = false
  stage : Stage init s.kernel s.pos s.line i s.pc

theorem create_lastPid (capacity : Nat) (t : Table) :
    (t.create capacity).2.lastPid ≤ t.lastPid + 1 := by
  rw [Table.create]
  split
  next => simp
  next => simp

theorem respond_lastPid (init : Pmm) (ticks : Nat) (t : Table) (words : List (List U8))
    (command : Command) :
    (respond init ticks t words command).table.lastPid ≤ t.lastPid + 1 := by
  cases command with
  | newprocess =>
      have bound := create_lastPid (capacity init) t
      rw [respond]
      generalize t.create (capacity init) = made at bound
      obtain ⟨pid, t'⟩ := made
      cases pid with
      | none => exact bound
      | some pid => exact bound
  | killprocess =>
      cases words with
      | nil => exact Nat.le_succ _
      | cons command rest =>
          cases rest with
          | nil => exact Nat.le_succ _
          | cons argument others =>
              have kept : (t.kill (Killprocess.leadingNumber argument)).2.lastPid = t.lastPid := rfl
              simp only [respond]
              generalize t.kill (Killprocess.leadingNumber argument) = killed at kept
              obtain ⟨found, t'⟩ := killed
              cases found with
              | true => exact kept.le.trans (Nat.le_succ _)
              | false => exact kept.le.trans (Nat.le_succ _)
  | _ => exact Nat.le_succ _

theorem interpret_lastPid (init : Pmm) (ticks : Nat) (t : Table) (line : List U8) :
    (interpret init ticks t line).table.lastPid ≤ t.lastPid + 1 := by
  rw [interpret]
  cases (lineWords line).take 16 with
  | nil => exact Nat.le_succ _
  | cons name others =>
      cases known : commandNamed name with
      | none => simp [known]
      | some command => simpa [known] using respond_lastPid init ticks t (name :: others) command

theorem answer_lastPid (init : Pmm) (ticks : Nat) (i : Interpreter) :
    (i.answer init ticks).table.lastPid ≤ i.table.lastPid + 1 := by
  rw [Interpreter.answer]
  split
  next => exact Nat.le_succ _
  next => exact interpret_lastPid init ticks i.table i.held

theorem observe_lastPid (init : Pmm) (i : Interpreter) (shown : Shown) :
    (i.observe init shown).2.table.lastPid ≤ i.table.lastPid + shown.key.toList.length := by
  cases shown with
  | received outcome => exact le_rfl
  | nothing => exact le_rfl
  | handled c ticks =>
      rw [Interpreter.observe, Interpreter.key]
      split
      next => exact answer_lastPid init ticks.toNat i
      split
      next => split <;> simp [Shown.key]
      next => split <;> simp [Shown.key]

theorem Answers.final {init : Pmm} {a : Answer} {k : Kernel Slot} {pc : KernelPc}
    (h : Answers init a k pc) :
    k.schedule = some k ∧ kernelStatement k pc = none ∧ pc.exposed k = false := by
  obtain ⟨l, printing, calls, table, final, -⟩ := h
  refine ⟨table.schedule, ?_⟩
  cases pc with
  | created p => exact ⟨rfl, rfl⟩
  | deleted target => exact ⟨rfl, rfl⟩
  | create c => cases final
  | kill target p pc => cases final

theorem Completes.ticks {init : Pmm} {a : Answer} {n : Nat} {k : Kernel Slot} {pc : KernelPc}
    (h : Completes (Answers init a) n k pc) : Ticks k pc := by
  cases h with
  | done holds => exact ticks_of_calm holds.final.2.2 holds.final.1
  | statement ticks _ _ => exact ticks

theorem finalCalls_of_statement {k k' : Kernel Slot} {pc pc' : KernelPc}
    (ran : kernelStatement k pc = some (k', pc')) : finalCalls k pc = none := by
  cases pc with
  | created p => cases ran
  | deleted target => cases ran
  | create c => rfl
  | kill target p pc => rfl

section Steps

variable {init : Pmm} {s : State} {i : Interpreter} {p : Paper U8} (counterProcess : U32)

-- Only rows 1 to 24 matter, and the status bar is none of them.
theorem Follows.redrawn (h : Follows init s i p) (redraw : Prop) [Decidable redraw] :
    Follows init
      { s with vga := if redraw then s.vga.vgaDrawStatusbar s.tickCount else s.vga } i p := by
  have drawn : OnPaper (s.vga.perform (.vgaDrawStatusbar s.tickCount))
      (s.pc.printed.foldl emit p) := h.paper.perform rfl
  rw [Vga.perform] at drawn
  have kept := (s.vga.vgaDrawStatusbar_confined s.tickCount).inBounds
  by_cases now : redraw
  next =>
    simp only [if_pos now]
    exact { h with
      paper := by simpa only using drawn
      inBounds := by simpa only [kept] using h.inBounds }
  next =>
    simp only [if_neg now]
    exact h

theorem Follows.alive (h : Follows init s i p) (notHalted : s.pc ≠ .halted) : i.running = true := by
  by_contra stopped
  exact notHalted (h.running.mpr (by simpa using stopped))

theorem Follows.goes (h : Follows init s i p) (notHalted : s.pc ≠ .halted) :
    s.pc.stopped = false := by
  have stage := h.stage
  cases at_pc : s.pc with
  | halted => exact absurd at_pc notHalted
  | lost =>
      rw [at_pc] at stage
      exact absurd stage id
  | _ => rfl

theorem Follows.asks (h : Follows init s i p) (between : s.pc.reader = .test)
    (nothing : s.pc.printed = []) (alive : s.pc ≠ .halted)
    (editing : Editing init s.kernel s.pos s.line i) :
    Follows init { s with pc := .getchar .test } i p := by
  have keyboard := h.keyboard
  have paper := h.paper
  rw [between] at keyboard
  rw [nothing] at paper
  exact { h with
    paper := paper
    keyboard := keyboard
    handled := by simp
    running := by simp [h.alive alive]
    stage := editing }

theorem Editing.runLine {kernel : Kernel Slot} {pos : Nat} {line : Vector U8 maxLine}
    (h : Editing init kernel pos line i) (more : i.table.lastPid + 1 < 2 ^ 32)
    (holds : s.kernel = kernel ∧ s.pos = pos) (junk : Junk) :
    ∃ begun line', Session.runLine counterProcess s (line.set pos 0#8 h.room) junk =
        some (begun, line') ∧ begun.Gives init kernel (i.answer init s.tickCount.toNat) := by
  obtain ⟨rfl, rfl⟩ := holds
  obtain ⟨l, table⟩ := h.table
  have pos := h.pos
  by_cases empty : i.held = []
  next =>
    have none : ¬s.pos > 0 := by simp [pos, empty]
    rw [Session.runLine, if_neg none, Interpreter.answer, if_pos empty]
    exact ⟨_, _, rfl, by simp, rfl, ⟨l, table⟩, rfl⟩
  next =>
    have some : s.pos > 0 := by
      rw [pos]
      exact List.length_pos_iff.mpr empty
    have isLine : Buffer.stringAt 0#8 (line.set s.pos 0#8 h.room) 0 = Option.some i.held := by
      rw [Buffer.stringAt_eq_some]
      have room := h.room
      have held := h.line.push 0#8 (by omega : 0 + i.held.length < maxLine)
      simp only [Nat.zero_add, ← pos] at held
      exact ⟨h.unzero, held⟩
    obtain ⟨begun, line', returns, gives⟩ := table.parseAndRun_spec more
      (s := { kernel := s.kernel, ticks := s.tickCount, counterProcess := counterProcess })
      isLine junk.argv
    obtain ⟨stack, run⟩ := returns junk.stack
    rw [Session.runLine, if_pos some, run, Interpreter.answer, if_neg empty]
    exact ⟨begun, line', rfl, gives⟩

theorem telling {kernel : Kernel Slot} {ticks : U32} {calls : List Vga.Op} {returns : Bool}
    (table : ∃ l, Represents init kernel l (i.answer init ticks.toNat).table)
    (streams : ∀ op ∈ calls, op.streams = true)
    (text : calls.flatMap outputs = (i.answer init ticks.toNat).text)
    (answered : returns = (i.answer init ticks.toNat).running) (pos : Nat)
    (line : Vector U8 maxLine) :
    Stage init kernel pos line i (printing ticks [.vgaPutchar newline] calls returns) := by
  have prompts : ∀ op ∈ promptCalls, op.streams = true := by decide
  have echoed : outputs (.vgaPutchar newline) = typed [newline] := rfl
  constructor
  next => exact table
  next =>
    intro op member
    rcases List.mem_append.mp member with call | prompt
    · exact streams op call
    · cases returns with
      | true => exact prompts op prompt
      | false => cases prompt
  next =>
    rw [List.singleton_append, List.flatMap_cons, List.flatMap_append, text, Interpreter.enter,
      ← answered]
    cases returns with
    | true => simp [echoed, Interpreter.prompted, fixed]
    | false => simp [echoed]
  next => exact answered

theorem Follows.handleNewline (h : Follows init s i p)
    (editing : Editing init s.kernel s.pos s.line i) (running : i.running = true)
    (more : i.table.lastPid + 1 < 2 ^ 32) (reading : s.pc.reader = .test)
    (nothing : s.pc.printed = []) (junk : Junk) :
    ∃ s', Session.handleNewline counterProcess s junk = some s' ∧ Follows init s' i p ∧
      s'.keyboard = s.keyboard ∧ s'.pc.hand = [newline] := by
  have paper := h.paper
  rw [nothing] at paper
  have echoed : OnPaper (s.vga.vgaPutchar newline) ((typed [newline]).foldl emit p) :=
    paper.vgaPutchar newline
  have bounds : (s.vga.vgaPutchar newline).inBounds = true :=
    (s.vga.vgaPutchar_spec newline paper.placed.2).1.inBounds.trans h.inBounds
  have keyboard := h.keyboard
  rw [reading] at keyboard
  obtain ⟨begun, line, run, gives⟩ := editing.runLine counterProcess more
    (s := { s with vga := s.vga.vgaPutchar newline }) ⟨rfl, rfl⟩ junk
  rw [Session.handleNewline, Buffer.put_of_lt s.line 0#8 editing.room]
  simp only [Option.bind_eq_bind, Option.bind_some, run]
  cases begun with
  | prints calls returns =>
      obtain ⟨streams, text, table, answered⟩ := gives
      refine ⟨_, rfl, ?_, rfl, rfl⟩
      exact {
        paper := echoed
        inBounds := bounds
        keyboard := keyboard
        handled := by simp [printing]
        running := by simp [printing, running]
        stage := telling table streams text answered s.pos line }
  | works pc =>
      refine ⟨_, rfl, ?_, rfl, rfl⟩
      exact {
        paper := echoed
        inBounds := bounds
        keyboard := keyboard
        handled := by simp
        running := by simp [running]
        stage := gives }

theorem Follows.handleKey {c : U8} (h : Follows init s i p) (more : i.table.lastPid + 1 < 2 ^ 32)
    (handling : s.pc = .handle c) (junk : Junk) :
    ∃ shown s', Session.handleKey counterProcess s c junk = some (shown, s') ∧
      Follows init s' (i.observe init shown).2 ((i.observe init shown).1.foldl emit p) ∧
      s'.keyboard = s.keyboard ∧ shown.key.toList ++ s'.pc.hand = [c] := by
  have running := h.alive (by simp [handling])
  have keyboard := h.keyboard
  have paper := h.paper
  have stage := h.stage
  rw [handling] at keyboard paper stage
  have editing : Editing init s.kernel s.pos s.line i := stage
  have counted : Follows init
      { s with keystrokeCount := s.keystrokeCount + 1#32, pc := .refresh } i p :=
    { h with
      paper := paper
      keyboard := keyboard
      handled := by simp
      running := by simp [running]
      stage := editing }
  have pos := editing.pos
  rw [Session.handleKey]
  by_cases isNewline : c = newline
  next =>
    rw [if_pos isNewline]
    obtain ⟨s', run, next, kept, hand⟩ :=
      counted.handleNewline counterProcess editing running more rfl rfl junk
    rw [run]
    exact ⟨_, s', rfl, next, kept, by rw [hand, isNewline]; rfl⟩
  rw [if_neg isNewline]
  have typedByte (d : U8) : (typed [d]).foldl emit p = typeChar p d := rfl
  have bounds (d : U8) : (s.vga.vgaPutchar d).inBounds = true :=
    (s.vga.vgaPutchar_spec d paper.placed.2).1.inBounds.trans h.inBounds
  by_cases isBackspace : c = backspace
  next =>
    rw [if_pos isBackspace]
    by_cases empty : i.held = []
    next =>
      have none : ¬s.pos > 0 := by simp [pos, empty]
      rw [if_neg none]
      refine ⟨_, _, rfl, ?_, rfl, rfl⟩
      rw [Interpreter.observe, Interpreter.key, if_neg isNewline, if_pos isBackspace, if_pos empty]
      exact counted
    next =>
      have some : s.pos > 0 := by
        rw [pos]
        exact List.length_pos_iff.mpr empty
      rw [if_pos some]
      refine ⟨_, _, rfl, ?_, rfl, rfl⟩
      rw [Interpreter.observe, Interpreter.key, if_neg isNewline, if_pos isBackspace, if_neg empty,
        typedByte]
      have split := List.dropLast_append_getLast empty
      have front := editing.line
      rw [← split, Buffer.holds_append] at front
      have room := editing.room
      exact { counted with
        paper := paper.vgaPutchar backspace
        inBounds := bounds backspace
        stage := {
          table := editing.table
          pos := by simp [pos]
          room := by simp only; omega
          line := front.1
          unzero := fun member => editing.unzero (List.mem_of_mem_dropLast member) } }
  rw [if_neg isBackspace]
  by_cases room : s.pos < maxLine - 1
  next =>
    have inside : s.pos < maxLine := by omega
    have room' : i.held.length < maxLine - 1 := by omega
    rw [if_pos room, Buffer.put_of_lt s.line c inside]
    refine ⟨_, _, rfl, ?_, rfl, rfl⟩
    rw [Interpreter.observe, Interpreter.key, if_neg isNewline, if_neg isBackspace, if_pos room',
      typedByte]
    have line := editing.line.push c (by omega : 0 + i.held.length < maxLine)
    simp only [Nat.zero_add, ← pos] at line
    have nonzero := h.handled c handling
    exact { counted with
      paper := paper.vgaPutchar c
      inBounds := bounds c
      stage := {
        table := editing.table
        pos := by simp [pos]
        room := by simp only; omega
        line := line
        unzero := by simp [editing.unzero, Ne.symm nonzero] } }
  next =>
    have full : ¬i.held.length < maxLine - 1 := by omega
    rw [if_neg room]
    refine ⟨_, _, rfl, ?_, rfl, rfl⟩
    rw [Interpreter.observe, Interpreter.key, if_neg isNewline, if_neg isBackspace, if_neg full]
    exact counted

theorem Follows.work {ticks : U32} {pc : KernelPc} (h : Follows init s i p)
    (working : s.pc = .working ticks pc) (junk : Junk) :
    ∃ s', Session.work s ticks pc junk = some s' ∧ Follows init s' i p ∧
      s'.keyboard = s.keyboard ∧ s'.pc.hand = [newline] := by
  have running := h.alive (by simp [working])
  have keyboard := h.keyboard
  have paper := h.paper
  have stage := h.stage
  rw [working] at keyboard paper stage
  obtain ⟨answered, n, completes⟩ := stage
  cases completes with
  | done holds =>
      obtain ⟨l, said, calls, table, final, returns, streams, text⟩ := holds
      obtain ⟨stack, run⟩ := returns junk.stack
      rw [Session.work, final]
      simp only [Option.bind_eq_bind, run, Option.bind_some]
      refine ⟨_, rfl, ?_, rfl, rfl⟩
      exact {
        paper := paper
        inBounds := h.inBounds
        keyboard := keyboard
        handled := by simp [printing]
        running := by simp [printing, running]
        stage := telling ⟨l, table⟩ streams text answered.symm s.pos s.line }
  | statement calm ran rest =>
      rw [Session.work, finalCalls_of_statement ran, ran]
      refine ⟨_, rfl, ?_, rfl, rfl⟩
      exact {
        paper := paper
        inBounds := h.inBounds
        keyboard := keyboard
        handled := by simp
        running := by simp [running]
        stage := ⟨answered, _, rest⟩ }

theorem Follows.print {ticks : U32} {made left : List Vga.Op} {returns : Bool}
    (h : Follows init s i p) (at_pc : s.pc = .printing ticks made left returns) :
    let r := Session.print s ticks made returns left
    Follows init r.2 (i.observe init r.1).2 ((i.observe init r.1).1.foldl emit p) ∧
      r.2.keyboard = s.keyboard ∧ r.1.key.toList ++ r.2.pc.hand = [newline] := by
  have running := h.alive (by simp [at_pc])
  have keyboard := h.keyboard
  have paper := h.paper
  have stage := h.stage
  rw [at_pc] at keyboard paper stage
  obtain ⟨⟨l, table⟩, streams, text, answered⟩ := stage
  cases left with
  | cons op left =>
      have now := List.forall_mem_cons.mp streams
      have same : (current s.tickCount op).streams = op.streams ∧
          outputs (current s.tickCount op) = outputs op := by
        cases op <;> exact ⟨rfl, rfl⟩
      have kept := (s.vga.perform_spec (current s.tickCount op) paper.placed.2).2
      have shown := paper.perform (same.1.trans now.1)
      rw [same.2] at shown
      refine ⟨?_, rfl, rfl⟩
      constructor
      next =>
        simp only [Pc.printed, Session.print, List.flatMap_append, List.flatMap_cons,
          List.flatMap_nil, List.append_nil, List.foldl_append, Interpreter.observe]
        exact shown
      next => exact kept.trans h.inBounds
      next => exact keyboard
      next => simp [Session.print]
      next => simp [Session.print, Interpreter.observe, running]
      next =>
        exact ⟨⟨l, table⟩, now.2, by simpa [Session.print, Interpreter.observe] using text, answered⟩
  | nil =>
      rw [Pc.printed] at paper
      rw [List.append_nil] at text
      rw [text] at paper
      cases returns with
      | true =>
          refine ⟨?_, rfl, rfl⟩
          exact {
            paper := paper
            inBounds := h.inBounds
            keyboard := keyboard
            handled := by simp [Session.print]
            running := by
              simp [Session.print, Interpreter.observe, Interpreter.key, Interpreter.enter, ← answered]
            stage := {
              table := ⟨l, table⟩
              pos := rfl
              room := (by decide : 0 < maxLine)
              line := Buffer.holds_nil _ _
              unzero := List.not_mem_nil } }
      | false =>
          refine ⟨?_, rfl, rfl⟩
          exact {
            paper := paper
            inBounds := h.inBounds
            keyboard := keyboard
            handled := by simp [Session.print]
            running := by
              simp [Session.print, Interpreter.observe, Interpreter.key, Interpreter.enter, ← answered]
            stage := ⟨l, table⟩ }

theorem accounts_idle {s s' : State} (e : Event) (same : s'.unhandled = s.unhandled) :
    Accounts s e .nothing s' := by
  constructor
  next => simp [Shown.accepted, Shown.key, same]
  next => simp [Shown.accepted]

theorem keyboard_conserved {q : Keyboard.State} (sound : Keyboard.Sound q) (e : Keyboard.Event) :
    q.keyboard.pending ++ (Keyboard.step q e).1.accepted.toList =
      (Keyboard.step q e).1.received.toList ++ (Keyboard.step q e).2.keyboard.pending := by
  have conserved := (BoundedQueue.Trace.cons (sound.step e).1 (.nil _)).conserves
  rwa [filterMap_split, filterMap_split, List.filterMap_nil, List.filterMap_nil, List.append_nil,
    List.append_nil, Keyboard.Shown.action_accepted, Keyboard.Shown.action_delivered]
    at conserved

theorem Follows.irq1 (h : Follows init s i p) (scancode : U8) :
    Accounts s (.irq1 scancode) (.received (s.keyboard.keyboardHandler scancode).1)
      { s with keyboard := (s.keyboard.keyboardHandler scancode).2 } := by
  have conserved := keyboard_conserved h.keyboard (.irq scancode)
  simp only [Keyboard.step] at conserved
  generalize s.keyboard.keyboardHandler scancode = result at conserved
  obtain ⟨outcome, k'⟩ := result
  have accepted : (Shown.received outcome).accepted =
      (Keyboard.Shown.handled outcome).accepted := by
    cases outcome <;> rfl
  have none : (Keyboard.Shown.handled outcome).received = none := rfl
  rw [none, ← accepted] at conserved
  constructor
  next =>
    simp only [State.unhandled, List.append_assoc, conserved]
    rfl
  next => exact Option.length_toList_le.trans_eq rfl

theorem Follows.reading (h : Follows init s i p) (pc : Keyboard.GetcharPc)
    (inside : s.pc = .getchar pc) :
    Follows init (getchar s pc) i p ∧ (getchar s pc).unhandled = s.unhandled := by
  have running := h.alive (by simp [inside])
  have keyboard := h.keyboard
  have paper := h.paper
  have stage := h.stage
  rw [inside] at keyboard paper stage
  have conserved := keyboard_conserved keyboard .statement
  have sound := keyboard.statement.2
  have finished : ∀ c pc' k', s.keyboard.keyboardGetchar pc = (some c, pc', k') → pc' = .test := by
    intro c pc' k' returned
    cases pc with
    | test =>
        simp only [Keyboard.keyboardGetchar] at returned
        split at returned
        next =>
          simp only [Prod.mk.injEq] at returned
          exact returned.2.1.symm
        next => simp at returned
    | read => simp [Keyboard.keyboardGetchar] at returned
    | advance d =>
        simp only [Keyboard.keyboardGetchar, Prod.mk.injEq] at returned
        exact returned.2.1.symm
  have goes {keyboard' : Keyboard} {pc' : Pc} (sound : Keyboard.Sound ⟨keyboard', pc'.reader⟩)
      (nothing : pc'.printed = []) (nonzero : ∀ c, pc' = .handle c → c ≠ 0#8)
      (alive : pc' ≠ .halted) (editing : Stage init s.kernel s.pos s.line i pc') :
      Follows init { s with keyboard := keyboard', pc := pc' } i p :=
    { h with
      paper := by rw [nothing]; exact paper
      keyboard := sound
      handled := nonzero
      running := by simp [alive, running]
      stage := editing }
  simp only [Keyboard.step, Pc.reader] at conserved sound
  rw [State.unhandled, State.unhandled, inside]
  unfold getchar
  generalize s.keyboard.keyboardGetchar pc = result at conserved sound finished
  obtain ⟨returned, pc', k'⟩ := result
  cases returned with
  | none =>
      have same : s.keyboard.pending = k'.pending := by
        simpa [Keyboard.Shown.accepted, Keyboard.Shown.received] using conserved
      exact ⟨goes sound rfl (by simp) (by simp) stage, same.symm⟩
  | some c =>
      obtain rfl := finished c pc' k' rfl
      simp only [Keyboard.Shown.accepted, Keyboard.Shown.received] at conserved sound ⊢
      by_cases zero : c = 0#8
      next =>
        simp only [zero, if_true] at conserved ⊢
        exact ⟨goes sound rfl (by simp) (by simp) stage,
          by simpa [Pc.hand] using conserved.symm⟩
      next =>
        simp only [zero, if_false] at conserved ⊢
        exact ⟨goes sound rfl (by simp [zero]) (by simp) stage,
          by simpa [Pc.hand] using conserved.symm⟩

theorem Follows.ticks (h : Follows init s i p) (alive : s.pc.stopped = false) :
    if s.exposed then ∃ k', s.kernel.schedule = some k' ∧ k'.currentPcb ≠ s.kernel.currentPcb
    else s.kernel.schedule = some s.kernel := by
  have stage := h.stage
  rw [State.exposed]
  cases at_pc : s.pc with
  | halted => simp [at_pc, Pc.stopped] at alive
  | lost => simp [at_pc, Pc.stopped] at alive
  | working ticks pc =>
      rw [at_pc] at stage
      obtain ⟨-, n, completes⟩ := stage
      exact completes.ticks
  | printing ticks made left returns =>
      rw [at_pc] at stage
      obtain ⟨l, table⟩ := Telling.table stage
      exact table.schedule
  | _ =>
      rw [at_pc] at stage
      obtain ⟨l, table⟩ := Editing.table stage
      exact table.schedule

theorem Follows.statement (h : Follows init s i p)
    (more : i.table.lastPid + s.unhandled.length < 2 ^ 32) (junk : Junk) :
    ∃ shown s', Session.statement counterProcess s junk = some (shown, s') ∧
      Follows init s' (i.observe init shown).2 ((i.observe init shown).1.foldl emit p) ∧
      Accounts s (.statement junk) shown s' := by
  have keyHandled {c : U8} {shown : Shown} {s' : State} (hand : s.pc.hand = [c])
      (keyboard : s'.keyboard = s.keyboard) (next : shown.key.toList ++ s'.pc.hand = [c])
      (none : shown.accepted = none) : Accounts s (.statement junk) shown s' := by
    constructor
    next =>
      rw [State.unhandled, State.unhandled, hand, none, keyboard, ← List.append_assoc, next]
      simp
    next => simp [none]
  rw [Session.statement]
  split
  next at_pc =>
    have stage := h.stage
    rw [at_pc] at stage
    refine ⟨_, _, rfl, (h.redrawn _).asks (by simp [at_pc, Pc.reader]) (by simp [at_pc, Pc.printed])
      (by simp [at_pc]) stage, accounts_idle _ ?_⟩
    simp [State.unhandled, refresh, at_pc, Pc.hand]
  next pc at_pc =>
    obtain ⟨next, same⟩ := h.reading pc at_pc
    exact ⟨_, _, rfl, next, accounts_idle _ same⟩
  next at_pc =>
    have stage := h.stage
    rw [at_pc] at stage
    have next := (h.redrawn ((s.idle + 1#32) % 200#32 = 0#32)).asks
      (by simp [at_pc, Pc.reader]) (by simp [at_pc, Pc.printed]) (by simp [at_pc]) stage
    refine ⟨_, _, rfl, { next with }, accounts_idle _ ?_⟩
    simp [State.unhandled, wait, at_pc, Pc.hand]
  next c at_pc =>
    have held : s.pc.hand = [c] := by rw [at_pc, Pc.hand]
    rw [State.unhandled, held, List.singleton_append, List.length_cons] at more
    obtain ⟨shown, s', run, next, keyboard, hand⟩ :=
      h.handleKey counterProcess (by omega) at_pc junk
    refine ⟨shown, s', run, next, keyHandled held keyboard hand ?_⟩
    obtain ⟨-, -, ⟨rfl, -⟩ | ⟨ticks, rfl⟩⟩ := handleKey_frame run
    · rfl
    · rfl
  next ticks pc at_pc =>
    obtain ⟨s', run, next, keyboard, hand⟩ := h.work at_pc junk
    rw [run]
    refine ⟨_, s', rfl, next, keyHandled (by rw [at_pc, Pc.hand]) keyboard ?_ rfl⟩
    rw [hand]
    rfl
  next ticks made left returns at_pc =>
    obtain ⟨next, keyboard, hand⟩ := h.print at_pc
    refine ⟨_, _, rfl, next, keyHandled (by rw [at_pc, Pc.hand]) keyboard hand ?_⟩
    cases left <;> rfl
  next => exact ⟨_, _, rfl, h, accounts_idle _ rfl⟩
  next => exact ⟨_, _, rfl, h, accounts_idle _ rfl⟩

theorem Follows.tick (h : Follows init s i p) (alive : s.pc.stopped = false)
    (spared : Spared s .irq0) : Session.step counterProcess s .irq0 =
      some (.nothing, { s with tickCount := s.tickCount + 1#32 }) := by
  have ticks := h.ticks alive
  have outside : s.exposed = false := spared
  rw [if_neg (by simp [outside])] at ticks
  rw [Session.step, if_neg (by simp [alive]), ticks]
  simp only [Option.bind_eq_bind, Option.bind_some, if_true]
  rfl

theorem Follows.step (h : Follows init s i p)
    (more : i.table.lastPid + s.unhandled.length < 2 ^ 32) (e : Event) :
    ∃ shown s', Session.step counterProcess s e = some (shown, s') ∧
      (Spared s e → Follows init s' (i.observe init shown).2
        ((i.observe init shown).1.foldl emit p) ∧ Accounts s e shown s') ∧
      (¬Spared s e → s'.pc = .lost) := by
  by_cases stopped : s.pc.stopped = true
  next =>
    have spared : Spared s e := by
      cases e with
      | irq0 =>
          rw [Spared, State.exposed]
          cases at_pc : s.pc <;> simp_all [Pc.stopped]
      | irq1 scancode => trivial
      | statement junk => trivial
    exact ⟨_, _, step_stopped stopped e, fun _ => ⟨h, accounts_idle _ rfl⟩, absurd spared⟩
  cases e with
  | irq0 =>
      have alive : s.pc.stopped = false := by simpa using stopped
      by_cases spared : Spared s .irq0
      next =>
        exact ⟨_, _, h.tick counterProcess alive spared,
          fun _ => ⟨{ h with }, accounts_idle _ rfl⟩, absurd spared⟩
      next =>
        have ticks := h.ticks alive
        have exposed : s.exposed = true := by simpa [Spared] using spared
        rw [if_pos exposed] at ticks
        obtain ⟨k', scheduled, switched⟩ := ticks
        rw [Session.step, if_neg stopped, scheduled]
        exact ⟨_, _, rfl, fun now => absurd now spared, fun _ => if_neg switched⟩
  | irq1 scancode =>
      rw [Session.step, if_neg stopped]
      exact ⟨_, _, rfl, fun _ => ⟨{ h with keyboard := (h.keyboard.irq scancode).2 },
        h.irq1 scancode⟩, fun unspared => absurd trivial unspared⟩
  | statement junk =>
      obtain ⟨shown, s', ran, next, accounts⟩ := h.statement counterProcess more junk
      exact ⟨shown, s', ran, fun _ => ⟨next, accounts⟩, fun unspared => absurd trivial unspared⟩

theorem step_of_eq {e : Event} {shown : Shown} {s' : State}
    (taken : Session.step counterProcess s e = some (shown, s')) : Step counterProcess s e s' := by
  rw [Step, proceed, taken]
  rfl

-- A new process takes a line, and each line takes a key.
theorem Accounts.pids {s s' : State} {e : Event} {shown : Shown} (h : Accounts s e shown s')
    (init : Pmm) (i : Interpreter) :
    (i.observe init shown).2.table.lastPid + s'.unhandled.length ≤
      i.table.lastPid + s.unhandled.length + [e].countP Event.isKey := by
  have conserved := congrArg List.length h.conserved
  have few := h.few
  have most := observe_lastPid init i shown
  rw [List.length_append, List.length_append] at conserved
  omega

theorem Follows.run (h : Follows init s i p) (events : List Event)
    (spared : Transition.Meets (Step counterProcess) Spared s events)
    (few : i.table.lastPid + s.unhandled.length + events.countP Event.isKey < 2 ^ 32) :
    ∃ log s', Session.run counterProcess s events = some (log, s') ∧
      Follows init s' (i.runs init log).2 ((i.runs init log).1.foldl emit p) ∧
      Conserved Shown.accepted Shown.key s.unhandled log s'.unhandled ∧
      (i.runs init log).2.table.lastPid + s'.unhandled.length ≤
        i.table.lastPid + s.unhandled.length + events.countP Event.isKey := by
  induction events generalizing s i p with
  | nil => exact ⟨_, _, rfl, h, conserved_nil, le_rfl⟩
  | cons e rest ih =>
      rw [← List.singleton_append, List.countP_append] at few ⊢
      obtain ⟨shown, s', first, kept, -⟩ := h.step counterProcess (by omega) e
      obtain ⟨now, onward⟩ := spared s' (step_of_eq counterProcess first)
      obtain ⟨next, accounts⟩ := kept now
      have bound := accounts.pids init i
      obtain ⟨log, s'', later, last, conserved, most⟩ := ih next onward (by omega)
      refine ⟨shown :: log, s'', ?_, ?_, ?_, ?_⟩
      · simp [Session.run, first, later]
      · simp only [Interpreter.runs, List.foldl_append]
        exact last
      · exact conserved_cons accounts.conserved conserved
      · simp only [Interpreter.runs]
        omega

theorem Follows.keeps_iff (h : Follows init s i p) (events : List Event)
    (few : i.table.lastPid + s.unhandled.length + events.countP Event.isKey < 2 ^ 32) :
    Transition.Always (Step counterProcess) (fun s => s.pc ≠ .lost) s events ↔
      Transition.Meets (Step counterProcess) Spared s events := by
  have here : s.pc ≠ .lost := by
    intro lost
    have stage := h.stage
    rw [lost] at stage
    exact stage
  induction events generalizing s i p with
  | nil => exact ⟨fun _ => trivial, fun _ => here⟩
  | cons e rest ih =>
      rw [← List.singleton_append, List.countP_append] at few
      obtain ⟨shown, s', first, kept, lost⟩ := h.step counterProcess (by omega) e
      have only {t : State} (taken : Step counterProcess s e t) : t = s' := by
        rw [Step, proceed, first] at taken
        exact (Option.some.inj taken).symm
      by_cases spared : Spared s e
      next =>
        obtain ⟨next, accounts⟩ := kept spared
        have bound := accounts.pids init i
        have goesOn : s'.pc ≠ .lost := by
          intro lost
          have stage := next.stage
          rw [lost] at stage
          exact stage
        have onward := ih next (by omega) goesOn
        constructor
        next =>
          intro always t taken
          exact ⟨spared, only taken ▸ onward.mp (only taken ▸ always.2 t taken)⟩
        next =>
          intro meets
          exact ⟨here, fun t taken => only taken ▸ onward.mpr (only taken ▸ (meets t taken).2)⟩
      next =>
        have taken := step_of_eq counterProcess first
        constructor
        next => exact fun always => absurd (lost spared) (always.2 s' taken).here
        next => exact fun meets => absurd (meets s' taken).1 spared

end Steps

theorem follows_shellRun {init : Pmm} {k : Kernel Slot} {l : List Slot}
    (h : Represents init k l Table.initial) {vga : Vga} (inBounds : vga.inBounds = true)
    (line : Vector U8 maxLine) (tickCount : U32) (buffer : U8 → U8) :
    Follows init (shellRun vga line k tickCount (Keyboard.keyboardInit buffer)) Interpreter.initial
      ((fixed greeting).foldl emit (Paper.blank blankChar)) := by
  have streams : ∀ op ∈ greeting, op.streams = true := by decide
  have nothing : outputs (.vgaDrawStatusbar tickCount) = [] := rfl
  have cleared : OnPaper (vga.vgaSetColor 7#8 0#8).vgaClear (Paper.blank blankChar) :=
    onPaper_vgaClear _
  have drawn := cleared.run (.vgaDrawStatusbar tickCount :: greeting)
    (List.forall_mem_cons.mpr ⟨rfl, streams⟩)
  have kept := (Vga.run_spec _ (.vgaDrawStatusbar tickCount :: greeting) cleared.placed.2).2
  have bounds := (vga.vgaSetColor 7#8 0#8).vgaClear_spec.1.inBounds
  rw [List.foldl_cons, Vga.perform] at drawn kept
  rw [List.flatMap_cons, nothing, List.nil_append] at drawn
  have keyboard : Keyboard.Sound ⟨Keyboard.keyboardInit buffer, .test⟩ := by
    refine ⟨fun c member => ?_, trivial⟩
    have none := Keyboard.pending_booted buffer
    simp only [Keyboard.booted] at none
    rw [none] at member
    cases member
  constructor
  next => simpa only [shellRun, fixed, Pc.printed, List.foldl_nil] using drawn
  next => simpa only [shellRun] using kept.trans (bounds.trans inBounds)
  next => exact keyboard
  next => simp [shellRun]
  next => simp [shellRun, Interpreter.initial]
  next =>
    exact {
      table := ⟨l, h⟩
      pos := rfl
      room := (by decide : 0 < maxLine)
      line := Buffer.holds_nil _ _
      unzero := List.not_mem_nil }

theorem follows_boot {ram : Ram} {mb : MultibootInfo} {kernelEnd : U32} {fuel : Nat} {init : Pmm}
    (started : Pmm.pmmInit ram mb kernelEnd fuel = some init) {esp idleTask : U32}
    {memory : U32 → U32} {k : Kernel Slot}
    (booted : (Kernel.bss init esp memory).schedulerInit idleTask = some k) {vga : Vga}
    (inBounds : vga.inBounds = true) (line : Vector U8 maxLine) (tickCount : U32)
    (buffer : U8 → U8) :
    Follows init (shellRun vga line k tickCount (Keyboard.keyboardInit buffer)) Interpreter.initial
      ((fixed greeting).foldl emit (Paper.blank blankChar)) := by
  obtain ⟨l, start⟩ := represents_boot (Pmm.pmmInit_spec started).1 booted
  exact follows_shellRun start inBounds line tickCount buffer

theorem unhandled_shellRun (vga : Vga) (line : Vector U8 maxLine) (k : Kernel Slot)
    (tickCount : U32) (buffer : U8 → U8) :
    (shellRun vga line k tickCount (Keyboard.keyboardInit buffer)).unhandled = [] :=
  Keyboard.pending_booted buffer

theorem Follows.printed {init : Pmm} {s : State} {i : Interpreter} {p : Paper U8}
    (h : Follows init s i p) : ∃ ticks, s.pc.printed <+: (i.enter init ticks).1 ∧
      (s.pc.inCommand = false → s.pc.printed = []) := by
  have stage := h.stage
  cases at_pc : s.pc with
  | working ticks pc =>
      refine ⟨0, ?_, nofun⟩
      rw [Interpreter.enter, Pc.printed, List.append_assoc]
      exact List.prefix_append _ _
  | printing ticks made left returns =>
      rw [at_pc] at stage
      have text := Telling.text stage
      rw [List.flatMap_append] at text
      exact ⟨ticks.toNat, ⟨_, text⟩, nofun⟩
  | lost =>
      rw [at_pc] at stage
      exact absurd stage id
  | _ => exact ⟨0, List.nil_prefix, fun _ => rfl⟩

theorem Follows.listed {init : Pmm} {s : State} {i : Interpreter} {p : Paper U8}
    (h : Follows init s i p) (outside : s.pc.inCommand = false) :
    ∃ l, Represents init s.kernel l i.table := by
  have stage := h.stage
  cases at_pc : s.pc with
  | working ticks pc => simp [at_pc, Pc.inCommand] at outside
  | printing ticks made left returns => simp [at_pc, Pc.inCommand] at outside
  | lost =>
      rw [at_pc] at stage
      exact absurd stage id
  | halted =>
      rw [at_pc] at stage
      exact stage
  | _ =>
      rw [at_pc] at stage
      exact Editing.table stage

def zeroJunk : Junk where
  stack := { buf := Vector.replicate _ 0#8, tmps := fun _ => Vector.replicate _ 0#8 }
  argv := Vector.replicate _ 0

def typist (k : Kernel Slot) : State :=
  shellRun (poweredOn (fun _ => 0#16) 0#16) (Vector.replicate _ 0#8) k 300#32
    (Keyboard.keyboardInit fun _ => 0#8)

def calling : List Event :=
  [0x31#8, 0x12#8, 0x11#8, 0x19#8, 0x13#8, 0x18#8, 0x2E#8, 0x12#8, 0x1F#8, 0x1F#8, 0x1C#8].map
    .irq1 ++ List.replicate 55 (.statement zeroJunk)

def ticking (n : Nat) : List Event :=
  (List.replicate n [Event.irq0, .statement zeroJunk]).flatten

-- A tick comes before each statement of the command but the one behind `create_process`.
def typing : List Event := calling ++ ticking 43 ++ [.statement zeroJunk] ++ ticking 13

theorem typing_spared :
    ∃ init k, Pmm.pmmInit Stacks.sixtyFourPagesRam Stacks.sixtyFourPagesInfo 0x110000#32 2 =
        some init ∧ (Kernel.bss init 0x110000#32 fun _ => 0#32).schedulerInit 0x100100#32 = some k ∧
      Transition.Meets (Step 0x100200#32) Spared (typist k) typing ∧
      ∃ s, typing.foldlM (proceed 0x100200#32) (typist k) = some s ∧ s.pc.inCommand = false ∧
        s.kernel.cmdPs = some [⟨1#32, .running, 0#8⟩, ⟨2#32, .blocked, 1#8⟩] ∧
        s.tickCount = 356#32 := by
  have evaluated : ((Pmm.pmmInit Stacks.sixtyFourPagesRam Stacks.sixtyFourPagesInfo 0x110000#32
      2).bind fun init => ((Kernel.bss init 0x110000#32 fun _ => 0#32).schedulerInit
        0x100100#32).bind fun k => (typing.foldlM (fun s e =>
          if Spared s e then proceed 0x100200#32 s e else none) (typist k)).map fun s =>
            decide (s.pc.inCommand = false ∧ s.kernel.cmdPs =
              some [⟨1#32, .running, 0#8⟩, ⟨2#32, .blocked, 1#8⟩] ∧ s.tickCount = 356#32)) =
      some true := by
    decide +kernel
  obtain ⟨init, started, afterInit⟩ := Option.bind_eq_some_iff.mp evaluated
  obtain ⟨k, booted, afterBoot⟩ := Option.bind_eq_some_iff.mp afterInit
  obtain ⟨s, ran, values⟩ := Option.map_eq_some_iff.mp afterBoot
  exact ⟨init, k, started, booted, .of_run ran, s, Transition.run_of_guarded ran,
    of_decide_eq_true values⟩

/-- The shell keeps the CPU for the whole session exactly if each tick spares it. -/
theorem session_keeps_iff (ram : Ram) (mb : MultibootInfo) (kernelEnd : U32) (fuel : Nat)
    (init : Pmm) (started : Pmm.pmmInit ram mb kernelEnd fuel = some init) (esp idleTask : U32)
    (memory : U32 → U32) (k : Kernel Slot)
    (booted : (Kernel.bss init esp memory).schedulerInit idleTask = some k) (vga : Vga)
    (inBounds : vga.inBounds = true) (line : Vector U8 maxLine) (tickCount : U32) (buffer : U8 → U8)
    (counterProcess : U32) (events : List Event) (few : events.countP Event.isKey + 1 < 2 ^ 32) :
    Transition.Always (Step counterProcess) (fun s => s.pc ≠ .lost)
        (shellRun vga line k tickCount (Keyboard.keyboardInit buffer)) events ↔
      Transition.Meets (Step counterProcess) Spared
        (shellRun vga line k tickCount (Keyboard.keyboardInit buffer)) events := by
  have first : Interpreter.initial.table.lastPid = 1 := rfl
  exact (follows_boot started booted inBounds line tickCount buffer).keeps_iff counterProcess events
    (by rw [unhandled_shellRun, List.length_nil]; omega)

theorem session_keeps_iff_typing :
    ∃ init k, Pmm.pmmInit Stacks.sixtyFourPagesRam Stacks.sixtyFourPagesInfo 0x110000#32 2 =
        some init ∧ (Kernel.bss init 0x110000#32 fun _ => 0#32).schedulerInit 0x100100#32 = some k ∧
      Transition.Always (Step 0x100200#32) (fun s => s.pc ≠ .lost) (typist k) typing := by
  obtain ⟨init, k, started, booted, spared, -⟩ := typing_spared
  exact ⟨init, k, started, booted, (session_keeps_iff _ _ _ _ init started _ _ _ k booted
    (poweredOn (fun _ => 0#16) 0#16) rfl (Vector.replicate _ 0#8) 300#32 (fun _ => 0#8) 0x100200#32
    typing (by decide)).mpr spared⟩

def heldAfter (held : Bool) (events : List Event) : Bool :=
  ((events.filterMap Event.code).map Keyboard.Event.irq).foldl Keyboard.heldAfter held

theorem run_stopped {counterProcess : U32} {s s' : State} {events : List Event} {log : List Shown}
    (stopped : s.pc.stopped = true) (ran : run counterProcess s events = some (log, s')) :
    s' = s ∧ ∀ shown ∈ log, shown = .nothing := by
  induction events generalizing log with
  | nil =>
      cases ran
      exact ⟨rfl, by simp⟩
  | cons e rest ih =>
      obtain ⟨shown, middle, later, first, after, rfl⟩ := run_cons_eq ran
      rw [step_stopped stopped e] at first
      obtain ⟨rfl, rfl⟩ := Prod.mk.inj (Option.some.inj first)
      simpa using ih after

theorem step_flag {counterProcess : U32} {s s' : State} {e : Event} {shown : Shown} {held : Bool}
    (flag : s.keyboard.shiftHeld ≠ 0#8 ↔ held = true) (alive : s.pc.stopped = false)
    (taken : step counterProcess s e = some (shown, s')) :
    s'.keyboard.shiftHeld ≠ 0#8 ↔ heldAfter held [e] = true := by
  cases e with
  | irq0 =>
      rw [step, if_neg (by simp [alive])] at taken
      obtain ⟨kernel, -, taken⟩ := Option.bind_eq_some_iff.mp taken
      cases taken
      exact flag
  | irq1 scancode =>
      rw [step, if_neg (by simp [alive])] at taken
      have handled := Keyboard.flag_step (s := ⟨s.keyboard, .test⟩) flag (.irq scancode)
      simp only [Keyboard.step] at handled
      cases taken
      exact handled
  | statement junk =>
      obtain ⟨-, kept, -⟩ := statement_frame taken
      rw [kept]
      exact flag

theorem run_flag {counterProcess : U32} {s s' : State} {events : List Event} {log : List Shown}
    {held : Bool} (flag : s.keyboard.shiftHeld ≠ 0#8 ↔ held = true)
    (ran : run counterProcess s events = some (log, s')) (alive : s'.pc.stopped = false) :
    s'.keyboard.shiftHeld ≠ 0#8 ↔ heldAfter held events = true := by
  induction events generalizing s held log with
  | nil =>
      cases ran
      exact flag
  | cons e rest ih =>
      obtain ⟨shown, middle, later, first, after, rfl⟩ := run_cons_eq ran
      by_cases stopped : s.pc.stopped = true
      next =>
        obtain ⟨rfl, -⟩ := run_stopped stopped ran
        rw [stopped] at alive
        cases alive
      next =>
        have next := ih (step_flag flag (by simpa using stopped) first) after
        rw [next, ← List.singleton_append (l := rest)]
        simp only [heldAfter, List.filterMap_append, List.map_append, List.foldl_append]

/--
The keys that are handled, the one in hand and those in the buffer are, in order, the characters
that the keyboard interrupts have put into the buffer; and each of these puts in the character of
its scancode, in the state of the shift keys, exactly if fewer than 255 wait.
-/
theorem session_input (ram : Ram) (mb : MultibootInfo) (kernelEnd : U32) (fuel : Nat) (init : Pmm)
    (started : Pmm.pmmInit ram mb kernelEnd fuel = some init) (esp idleTask : U32)
    (memory : U32 → U32) (k : Kernel Slot)
    (booted : (Kernel.bss init esp memory).schedulerInit idleTask = some k) (vga : Vga)
    (inBounds : vga.inBounds = true) (line : Vector U8 maxLine) (tickCount : U32) (buffer : U8 → U8)
    (counterProcess : U32) (events : List Event) (few : events.countP Event.isKey + 1 < 2 ^ 32)
    (spared : Transition.Meets (Step counterProcess) Spared
      (shellRun vga line k tickCount (Keyboard.keyboardInit buffer)) events) :
    ∃ log s, run counterProcess
        (shellRun vga line k tickCount (Keyboard.keyboardInit buffer)) events = some (log, s) ∧
      log.filterMap Shown.key ++ s.pc.hand ++ s.keyboard.pending = log.filterMap Shown.accepted ∧
      (s.pc ≠ .halted → ∀ scancode, ∃ s', step counterProcess s (.irq1 scancode) =
        some (.received (Keyboard.offered s.keyboard.pending.length
          (Keyboard.charOf (heldAfter false events) scancode)), s')) := by
  have follows := follows_boot started booted inBounds line tickCount buffer
  have first : Interpreter.initial.table.lastPid = 1 := rfl
  have nothing := unhandled_shellRun vga line k tickCount buffer
  obtain ⟨log, s, run, last, conserved, -⟩ := follows.run counterProcess events spared
    (by rw [nothing, List.length_nil]; omega)
  rw [Conserved, nothing, List.nil_append] at conserved
  refine ⟨log, s, run, ?_, fun alive scancode => ?_⟩
  · rw [conserved, State.unhandled, List.append_assoc]
  · have goes : s.pc.stopped = false := last.goes alive
    have flag : s.keyboard.shiftHeld ≠ 0#8 ↔ heldAfter false events = true :=
      run_flag (s := shellRun vga line k tickCount (Keyboard.keyboardInit buffer))
        (by simp [shellRun, Keyboard.keyboardInit]) run goes
    rw [step, if_neg (by simp [goes]), ← Keyboard.keyboardHandler_offered s.keyboard flag]
    exact ⟨_, rfl⟩

theorem session_input_typing :
    ∃ init k, Pmm.pmmInit Stacks.sixtyFourPagesRam Stacks.sixtyFourPagesInfo 0x110000#32 2 =
        some init ∧ (Kernel.bss init 0x110000#32 fun _ => 0#32).schedulerInit 0x100100#32 = some k ∧
      ∃ log s, run 0x100200#32 (typist k) typing = some (log, s) ∧
        log.filterMap Shown.key ++ s.pc.hand ++ s.keyboard.pending =
          log.filterMap Shown.accepted := by
  obtain ⟨init, k, started, booted, spared, -⟩ := typing_spared
  have accounted := session_input _ _ _ _ init started _ _ _ k booted
    (poweredOn (fun _ => 0#16) 0#16) rfl (Vector.replicate _ 0#8) 300#32 (fun _ => 0#8) 0x100200#32
    typing (by decide) spared
  obtain ⟨log, s, run, conserved, -⟩ := accounted
  exact ⟨init, k, started, booted, log, s, run, conserved⟩

end Session

end SoraOS
