import SoraOS.Keyboard.Keyboard

set_option autoImplicit false

namespace SoraOS.Keyboard

def heldAfter (held : Bool) : Event → Bool
  | .irq scancode =>
      if scancode = 0x2A#8 ∨ scancode = 0x36#8 then true
      else if scancode = 0xAA#8 ∨ scancode = 0xB6#8 then false
      else held
  | .statement => held

-- The character of a scancode; break codes, shift keys and unmapped keys have none.
def charOf (held : Bool) (scancode : U8) : Option U8 :=
  let c := (if held then scancodeShifted else scancodeNormal).getD scancode.toNat 0#8
  if c = 0#8 then none else some c

def offered (pending : Nat) : Option U8 → Outcome
  | none => .ignored
  | some c => if pending < 255 then .pushed c else .discarded c

/-- What an event means for the abstract queue; the result 0 reports an empty one. -/
def Shown.action : Shown → BoundedQueue.Action U8
  | .handled (.pushed c) => .accept c
  | .handled (.discarded c) => .reject c
  | .handled .ignored => .idle
  | .running => .idle
  | .returned c => if c = 0#8 then .empty else .deliver c

def Holds (k : Keyboard) : GetcharPc → Prop
  | .test => True
  | .read => k.head ≠ k.tail
  | .advance c => k.head ≠ k.tail ∧ k.buffer k.tail = c

structure Sound (s : State) : Prop where
  mapped : ∀ c ∈ s.keyboard.pending, c ≠ 0#8
  holds : s.keyboard.Holds s.pc

theorem keyboardHandler_cases (k : Keyboard) (scancode : U8) :
    (k.keyboardHandler scancode).1 = .ignored ∧
        (k.keyboardHandler scancode).2.toRingBuffer = k.toRingBuffer ∨
      ∃ c, c ≠ 0#8 ∧
        (k.head + 1#8 ≠ k.tail ∧ (k.keyboardHandler scancode).1 = .pushed c ∧
            (k.keyboardHandler scancode).2.toRingBuffer = k.toRingBuffer.push c ∨
          k.head + 1#8 = k.tail ∧ (k.keyboardHandler scancode).1 = .discarded c ∧
            (k.keyboardHandler scancode).2 = k) := by
  unfold keyboardHandler
  split
  next => exact .inl ⟨rfl, rfl⟩
  split
  next => exact .inl ⟨rfl, rfl⟩
  split
  next => exact .inl ⟨rfl, rfl⟩
  by_cases unmapped : translate k.shiftHeld scancode = 0#8
  next => exact .inl ⟨by simp [unmapped], by simp [unmapped]⟩
  next =>
    simp only [unmapped, if_false]
    refine .inr ⟨translate k.shiftHeld scancode, unmapped, ?_⟩
    by_cases full : k.head + 1#8 = k.tail
    next => exact .inr ⟨full, by simp [full], by simp [full]⟩
    next => exact .inl ⟨full, by simp [full], by simp [full, RingBuffer.push]⟩

theorem scancode_bits (scancode : U8) :
    (scancode &&& 0x80#8 ≠ 0#8 ↔ 128 ≤ scancode.toNat) ∧
      (scancode &&& 0x80#8 = 0#8 → scancode &&& 0x7F#8 = scancode) := by
  revert scancode
  decide

theorem charOf_shift (held : Bool) :
    charOf held 0x2A#8 = none ∧ charOf held 0x36#8 = none := by
  cases held with
  | true => decide
  | false => decide

theorem charOf_break (held : Bool) {scancode : U8} (isBreak : 128 ≤ scancode.toNat) :
    charOf held scancode = none := by
  obtain ⟨normal, shifted, -⟩ := scancode_tables
  have outside : (if held then scancodeShifted else scancodeNormal).length ≤ scancode.toNat := by
    cases held with
    | true => exact shifted.trans_le isBreak
    | false => exact normal.trans_le isBreak
  rw [charOf, List.getD_eq_getElem?_getD, List.getElem?_eq_none outside]
  rfl

theorem pending_length_le (k : Keyboard) : k.pending.length ≤ 255 := by
  rw [RingBuffer.length_pending]
  omega

/-- The handler takes a character exactly while fewer than 255 wait, and ignores all else. -/
theorem keyboardHandler_offered (k : Keyboard) {held : Bool}
    (flag : k.shiftHeld ≠ 0#8 ↔ held = true) (scancode : U8) :
    (k.keyboardHandler scancode).1 = offered k.pending.length (charOf held scancode) := by
  obtain ⟨isBreak, sameCode⟩ := scancode_bits scancode
  unfold keyboardHandler
  split
  next shift =>
    rcases shift with rfl | rfl
    · rw [(charOf_shift held).1]
      rfl
    · rw [(charOf_shift held).2]
      rfl
  split
  next shift =>
    have late : 128 ≤ scancode.toNat := by
      rcases shift with rfl | rfl
      · decide
      · decide
    rw [charOf_break held late]
    rfl
  split
  next late =>
    rw [charOf_break held (isBreak.mp late)]
    rfl
  next early =>
    have looked : translate k.shiftHeld scancode =
        (if held then scancodeShifted else scancodeNormal).getD scancode.toNat 0#8 := by
      rw [translate, sameCode (Classical.not_not.mp early)]
      simp only [flag]
    have full := RingBuffer.full_iff k.toRingBuffer
    have bound := k.pending_length_le
    simp only [looked, charOf]
    generalize (if held then scancodeShifted else scancodeNormal).getD scancode.toNat 0#8 = c
    by_cases unmapped : c = 0#8
    next =>
      rw [if_pos unmapped, if_pos unmapped]
      rfl
    next =>
      rw [if_neg unmapped, if_neg unmapped, offered]
      by_cases noRoom : k.head + 1#8 = k.tail
      next =>
        have isFull : k.pending.length = 255 := full.mp noRoom
        rw [if_neg (not_not_intro noRoom), if_neg (by omega)]
      next =>
        have notFull : k.pending.length ≠ 255 := mt full.mpr noRoom
        rw [if_pos noRoom, if_pos (by omega)]

theorem flag_step {s : State} {held : Bool} (flag : s.keyboard.shiftHeld ≠ 0#8 ↔ held = true)
    (e : Event) : (step s e).2.keyboard.shiftHeld ≠ 0#8 ↔ heldAfter held e = true := by
  cases e with
  | irq scancode =>
      rw [heldAfter]
      simp only [Keyboard.step, handler_shiftHeld]
      split_ifs with press release
      · simp
      · simp
      · exact flag
  | statement =>
      rw [heldAfter]
      simpa only [Keyboard.step, getchar_shiftHeld] using flag

theorem flag_run {s : State} {held : Bool} (flag : s.keyboard.shiftHeld ≠ 0#8 ↔ held = true)
    (events : List Event) :
    (run s events).2.keyboard.shiftHeld ≠ 0#8 ↔ events.foldl heldAfter held = true := by
  induction events generalizing s held with
  | nil => exact flag
  | cons e rest ih => exact ih (flag_step flag e)

theorem Holds.push {k : Keyboard} {pc : GetcharPc} (h : k.Holds pc) {k' : Keyboard} {c : U8}
    (room : k.head + 1#8 ≠ k.tail) (pushed : k'.toRingBuffer = k.toRingBuffer.push c) :
    k'.Holds pc := by
  -- A push keeps the cell at the tail while the reader holds it.
  have tail : k'.tail = k.tail := by simp [pushed, RingBuffer.push]
  have head : k'.head = k.head + 1#8 := by simp [pushed, RingBuffer.push]
  have buffer : k'.buffer = Function.update k.buffer k.head c := by simp [pushed, RingBuffer.push]
  cases pc with
  | test => trivial
  | read =>
      rw [Holds, head, tail]
      exact room
  | advance read =>
      obtain ⟨nonempty, same⟩ := h
      rw [Holds, head, tail, buffer, Function.update_of_ne nonempty.symm]
      exact ⟨room, same⟩

theorem Holds.congr {k k' : Keyboard} {pc : GetcharPc} (h : k.Holds pc)
    (same : k'.toRingBuffer = k.toRingBuffer) : k'.Holds pc := by
  cases pc with
  | test => trivial
  | read => simpa [Holds, same] using h
  | advance c => simpa [Holds, same] using h

theorem Sound.irq {s : State} (h : Sound s) (scancode : U8) :
    BoundedQueue.Step 255 s.keyboard.pending (step s (.irq scancode)).1.action
        (step s (.irq scancode)).2.keyboard.pending ∧ Sound (step s (.irq scancode)).2 := by
  obtain ⟨k, pc⟩ := s
  obtain ⟨mapped, holds⟩ := h
  simp only [Keyboard.step] at mapped holds ⊢
  rcases k.keyboardHandler_cases scancode with ⟨ignored, same⟩ |
    ⟨c, nonzero, ⟨room, pushed, ring⟩ | ⟨full, discarded, same⟩⟩
  · rw [ignored, same]
    exact ⟨.idle _, same ▸ mapped, holds.congr same⟩
  · have grown := RingBuffer.pending_push k.toRingBuffer c room
    have notFull : k.pending.length ≠ 255 := fun full => room ((RingBuffer.full_iff _).mpr full)
    have bound := k.pending_length_le
    rw [pushed, ring, grown]
    refine ⟨.accept _ c (by omega), ?_, holds.push room ring⟩
    rw [ring, grown]
    intro d member
    rcases List.mem_append.mp member with older | newest
    · exact mapped d older
    · exact (List.mem_singleton.mp newest) ▸ nonzero
  · rw [discarded, same]
    exact ⟨.reject _ c ((RingBuffer.full_iff _).mp full), mapped, holds⟩

theorem Sound.statement {s : State} (h : Sound s) :
    BoundedQueue.Step 255 s.keyboard.pending (step s .statement).1.action
        (step s .statement).2.keyboard.pending ∧ Sound (step s .statement).2 := by
  obtain ⟨k, pc⟩ := s
  obtain ⟨mapped, holds⟩ := h
  cases pc with
  | test =>
      by_cases empty : k.head = k.tail
      next =>
        have nothing := (RingBuffer.pending_eq_nil_iff k.toRingBuffer).mpr empty
        simp only [Keyboard.step, keyboardGetchar, empty, if_true, Shown.action] at mapped ⊢
        rw [nothing]
        exact ⟨.empty, mapped, trivial⟩
      next =>
        simp only [Keyboard.step, keyboardGetchar, empty, if_false, Shown.action]
        exact ⟨.idle _, mapped, empty⟩
  | read => exact ⟨.idle _, mapped, holds, rfl⟩
  | advance c =>
      obtain ⟨nonempty, same⟩ := holds
      have oldest := RingBuffer.pending_pop k.toRingBuffer nonempty
      rw [show k.buffer k.tail = c from same] at oldest
      simp only [oldest] at mapped ⊢
      have nonzero := mapped c (List.mem_cons_self ..)
      simp only [Keyboard.step, keyboardGetchar, Shown.action, nonzero, if_false]
      exact ⟨.deliver _ _, fun d member => mapped d (List.mem_cons_of_mem _ member), trivial⟩

theorem Sound.step {s : State} (h : Sound s) (e : Event) :
    BoundedQueue.Step 255 s.keyboard.pending (step s e).1.action (step s e).2.keyboard.pending ∧
      Sound (step s e).2 := by
  cases e with
  | irq scancode => exact h.irq scancode
  | statement => exact h.statement

theorem Sound.pc_of_empty {s : State} (h : Sound s) {e : Event}
    (empty : (Keyboard.step s e).1 = .returned 0#8) : s.pc = .test := by
  -- Only the test at the start of a call returns 0.
  obtain ⟨k, pc⟩ := s
  obtain ⟨mapped, holds⟩ := h
  cases e with
  | irq scancode => cases empty
  | statement =>
      cases pc with
      | test => rfl
      | read => cases empty
      | advance c =>
          obtain ⟨nonempty, same⟩ := holds
          obtain rfl : c = 0#8 := by simpa [Keyboard.step, keyboardGetchar] using empty
          have oldest := RingBuffer.pending_pop k.toRingBuffer nonempty
          have member : k.buffer k.tail ∈ k.pending := by simp [oldest]
          exact absurd same (mapped _ member)

theorem Sound.run {s : State} (h : Sound s) (events : List Event) :
    BoundedQueue.Trace 255 s.keyboard.pending ((run s events).1.map Shown.action)
        (run s events).2.keyboard.pending ∧ Sound (run s events).2 := by
  induction events generalizing s with
  | nil => exact ⟨.nil _, h⟩
  | cons e rest ih =>
      obtain ⟨first, next⟩ := h.step e
      obtain ⟨later, last⟩ := ih next
      exact ⟨.cons first later, last⟩

def booted (buffer : U8 → U8) : State := { keyboard := keyboardInit buffer, pc := .test }

def Shown.accepted : Shown → Option U8
  | .handled (.pushed c) => some c
  | _ => none

def Shown.received : Shown → Option U8
  | .returned c => if c = 0#8 then none else some c
  | _ => none

theorem Shown.action_accepted (shown : Shown) : shown.action.accepted = shown.accepted := by
  cases shown with
  | handled outcome => cases outcome <;> rfl
  | running => rfl
  | returned c =>
      rw [Shown.action]
      split <;> rfl

theorem Shown.action_delivered (shown : Shown) : shown.action.delivered = shown.received := by
  cases shown with
  | handled outcome => cases outcome <;> rfl
  | running => rfl
  | returned c =>
      rw [Shown.action, Shown.received]
      split <;> rfl

theorem pending_booted (buffer : U8 → U8) : (booted buffer).keyboard.pending = [] :=
  (RingBuffer.pending_eq_nil_iff _).mpr rfl

theorem irq_oldest {s : State} {c : U8} {rest : List U8} (oldest : s.keyboard.pending = c :: rest)
    (scancode : U8) : ∃ more, (step s (.irq scancode)).2.keyboard.pending = c :: more := by
  simp only [Keyboard.step]
  rcases s.keyboard.keyboardHandler_cases scancode with ⟨-, same⟩ |
    ⟨d, -, ⟨room, -, ring⟩ | ⟨-, -, same⟩⟩
  · rw [same]
    exact ⟨rest, oldest⟩
  · rw [ring, RingBuffer.pending_push _ d room, oldest]
    exact ⟨rest ++ [d], rfl⟩
  · rw [same]
    exact ⟨rest, oldest⟩

theorem irqs_oldest {s : State} (sound : Sound s) {c : U8} {rest : List U8}
    (oldest : s.keyboard.pending = c :: rest) (codes : List U8) :
    let t := (run s (codes.map .irq)).2
    t.pc = s.pc ∧ Sound t ∧ ∃ more, t.keyboard.pending = c :: more := by
  induction codes generalizing s rest with
  | nil => exact ⟨rfl, sound, rest, oldest⟩
  | cons code codes ih =>
      obtain ⟨more, kept⟩ := irq_oldest oldest code
      exact ih (sound.irq code).2 kept

theorem run_append (s : State) (events later : List Event) :
    (run s (events ++ later)).2 = (run (run s events).2 later).2 := by
  induction events generalizing s with
  | nil => rfl
  | cons e rest ih => exact ih (step s e).2

-- A call on a queue that is not empty returns the oldest character with its third statement.
theorem returns_oldest {s : State} (sound : Sound s) (outside : s.pc = .test) {c : U8}
    {rest : List U8} (oldest : s.keyboard.pending = c :: rest) (first second : List U8) :
    (step (run s (.statement :: first.map .irq ++ .statement :: second.map .irq)).2
      .statement).1 = .returned c := by
  have nonempty : s.keyboard.head ≠ s.keyboard.tail := by
    rw [ne_eq, ← RingBuffer.pending_eq_nil_iff, oldest]
    exact List.cons_ne_nil c rest
  have tested : (step s .statement).2 = { s with pc := .read } := by
    simp [Keyboard.step, outside, keyboardGetchar, nonempty]
  have soundRead : Sound { s with pc := .read } := tested ▸ sound.statement.2
  obtain ⟨reading, soundFirst, more, oldestFirst⟩ := irqs_oldest soundRead oldest first
  generalize isFirst : (run { s with pc := .read } (first.map .irq)).2 = t
    at reading soundFirst oldestFirst
  have read : (step t .statement).2 =
      { t with pc := .advance (t.keyboard.buffer t.keyboard.tail) } := by
    simp [Keyboard.step, reading, keyboardGetchar]
  have soundAdvance : Sound { t with pc := .advance (t.keyboard.buffer t.keyboard.tail) } :=
    read ▸ soundFirst.statement.2
  have same : t.keyboard.buffer t.keyboard.tail = c := by
    have found := RingBuffer.pending_pop t.keyboard.toRingBuffer soundAdvance.holds.1
    rw [oldestFirst] at found
    exact (List.cons.inj found).1.symm
  rw [same] at read soundAdvance
  obtain ⟨advancing, -, -⟩ := irqs_oldest soundAdvance oldestFirst second
  have whole : (run s (.statement :: first.map .irq ++ .statement :: second.map .irq)).2 =
      (run { t with pc := .advance c } (second.map .irq)).2 := by
    rw [List.cons_append, run]
    simp only [tested, run_append, isFirst]
    rw [run]
    simp only [read]
  rw [whole]
  simp [Keyboard.step, advancing, keyboardGetchar]

/--
Whatever the interleaving, the ring behaves as a queue of capacity 255: what the reader received
and what is pending are the accepted characters in order. The handler accepts the character of a
mapped make code, in the case that the shift codes so far call for, exactly while fewer than 255
are pending, and discards it only then. A call returns 0 exactly on finding the queue empty, and
otherwise the oldest character with its third statement.
-/
theorem keyboard_fifo (buffer : U8 → U8) (events : List Event) (e : Event) :
    let log := (run (booted buffer) events).1
    let s := (run (booted buffer) events).2
    BoundedQueue.Trace 255 [] (log.map Shown.action) s.keyboard.pending ∧
      log.filterMap Shown.received ++ s.keyboard.pending = log.filterMap Shown.accepted ∧
      (∀ scancode, (step s (.irq scancode)).1 = .handled (offered s.keyboard.pending.length
        (charOf (events.foldl heldAfter false) scancode))) ∧
      (∀ c, (step s e).1 = .handled (.discarded c) → s.keyboard.pending.length = 255) ∧
      ((step s e).1 = .returned 0#8 → s.pc = .test ∧ s.keyboard.pending = []) ∧
      (s.pc = .test → s.keyboard.pending = [] → (step s .statement).1 = .returned 0#8) ∧
      (s.pc = .test → ∀ c ∈ s.keyboard.pending.head?, ∀ first second : List U8,
        (step (run s (.statement :: first.map .irq ++ .statement :: second.map .irq)).2
          .statement).1 = .returned c) := by
  have start : Sound (booted buffer) :=
    ⟨by simp [pending_booted], trivial⟩
  obtain ⟨trace, sound⟩ := start.run events
  have next := (sound.step e).1
  rw [pending_booted] at trace
  have conserved := trace.conserves
  simp only [List.nil_append, List.filterMap_map, Function.comp_def, Shown.action_accepted,
    Shown.action_delivered] at conserved
  refine ⟨trace, conserved.symm, ?_, ?_, ?_, ?_, ?_⟩
  · intro scancode
    have released : (booted buffer).keyboard.shiftHeld ≠ 0#8 ↔ false = true := by
      simp [booted, keyboardInit]
    rw [← keyboardHandler_offered _ (flag_run released events) scancode]
    rfl
  · intro c discarded
    rw [discarded] at next
    exact next.full
  · intro empty
    refine ⟨sound.pc_of_empty empty, ?_⟩
    rw [empty] at next
    exact next.nothing
  · intro outside nothing
    have empty := (RingBuffer.pending_eq_nil_iff _).mp nothing
    simp [Keyboard.step, outside, keyboardGetchar, empty]
  · intro outside c oldest first second
    obtain ⟨rest, cells⟩ := List.head?_eq_some_iff.mp oldest
    exact returns_oldest sound outside cells first second

end SoraOS.Keyboard
