import SoraOS.Keyboard.Shift
import SoraOS.Session.Refinement

set_option autoImplicit false

/-! A text, the keys it is typed with, and the same text at the shell. -/

namespace SoraOS

namespace Keyboard

def Outcome.char : Outcome → Option U8
  | .ignored => none
  | .pushed c => some c
  | .discarded c => some c

theorem char_offered (pending : Nat) (c : Option U8) : (offered pending c).char = c := by
  cases c with
  | none => rfl
  | some c =>
      rw [offered]
      split <;> rfl

def decodeAll (held : Bool) : List U8 → List U8
  | [] => []
  | scancode :: rest =>
      (charOf held scancode).toList ++ decodeAll (heldAfter held (.irq scancode)) rest

theorem decodeAll_append (held : Bool) (codes rest : List U8) :
    decodeAll held (codes ++ rest) = decodeAll held codes ++
      decodeAll ((codes.map Event.irq).foldl heldAfter held) rest := by
  induction codes generalizing held with
  | nil => rfl
  | cons code codes ih =>
      simp only [List.cons_append, decodeAll, List.map_cons, List.foldl_cons, ih, List.append_assoc]

end Keyboard

namespace Typing

open Keyboard

-- The key for a character, and whether a shift key has to be held.
def keyFor (c : U8) : Option (Bool × Key) :=
  match scancodeNormal.idxOf? c, scancodeShifted.idxOf? c with
  | some i, _ => some (false, BitVec.ofNat 7 i)
  | none, some i => some (true, BitVec.ofNat 7 i)
  | none, none => none

-- The scancodes of one key after the other, each with its own shift.
def strokes (c : U8) : List U8 :=
  match keyFor c with
  | some (false, key) => [make key, breakCode key]
  | some (true, key) => [make leftShift, make key, breakCode key, breakCode leftShift]
  | none => []

-- Backspace, Tab, Enter and the printable characters.
def Typeable (c : U8) : Prop := 0x08#8 ≤ c ∧ c ≤ 0x0A#8 ∨ 0x20#8 ≤ c ∧ c ≤ 0x7E#8

instance (c : U8) : Decidable (Typeable c) := inferInstanceAs (Decidable (_ ∨ _))

theorem decode_strokes (c : U8) (typeable : Typeable c) :
    decodeAll false (strokes c) = [c] ∧
      ((strokes c).map Event.irq).foldl heldAfter false = false ∧ (strokes c).length ≤ 4 := by
  revert c
  decide +kernel

theorem decode_typed {text : List U8} (typeable : ∀ c ∈ text, Typeable c) :
    decodeAll false (text.flatMap strokes) = text ∧
      (text.flatMap strokes).length ≤ 4 * text.length := by
  induction text with
  | nil => exact ⟨rfl, le_rfl⟩
  | cons c rest ih =>
      obtain ⟨first, released, short⟩ := decode_strokes c (typeable c List.mem_cons_self)
      obtain ⟨later, length⟩ := ih fun d member => typeable d (List.mem_cons_of_mem _ member)
      rw [List.flatMap_cons, decodeAll_append, first, released, later]
      refine ⟨rfl, ?_⟩
      rw [List.length_append, List.length_cons]
      omega

end Typing

namespace Session

open Vga Shell Keyboard Conservation

def Shown.char : Shown → Option U8
  | .received outcome => outcome.char
  | _ => none

section Keys

variable {counterProcess : U32}

theorem decodeAll_event (held : Bool) (e : Event) (rest : List Event) :
    decodeAll held ((e :: rest).filterMap Event.code) =
      (e.code.bind (charOf held)).toList ++
        decodeAll (Session.heldAfter held [e]) (rest.filterMap Event.code) := by
  cases e <;> rfl

theorem step_char {s s' : State} {e : Event} {shown : Shown} {held : Bool}
    (flag : s.keyboard.shiftHeld ≠ 0#8 ↔ held = true) (alive : s.pc.stopped = false)
    (taken : step counterProcess s e = some (shown, s')) :
    shown.char = e.code.bind (charOf held) := by
  cases e with
  | irq0 =>
      rw [step, if_neg (by simp [alive])] at taken
      obtain ⟨kernel, -, taken⟩ := Option.bind_eq_some_iff.mp taken
      cases taken
      rfl
  | irq1 scancode =>
      rw [step, if_neg (by simp [alive])] at taken
      have told := keyboardHandler_offered s.keyboard flag scancode
      simp only [Option.some.injEq, Prod.mk.injEq] at taken
      obtain ⟨rfl, -⟩ := taken
      rw [Shown.char, told, char_offered]
      rfl
  | statement junk =>
      obtain ⟨-, -, rfl | ⟨d, ticks, rfl⟩⟩ := statement_frame taken
      · rfl
      · rfl

theorem step_discarded {s s' : State} {e : Event} {c : U8} {held : Bool}
    (flag : s.keyboard.shiftHeld ≠ 0#8 ↔ held = true) (alive : s.pc.stopped = false)
    (taken : step counterProcess s e = some (.received (.discarded c), s')) :
    255 ≤ s.keyboard.pending.length := by
  cases e with
  | irq0 =>
      rw [step, if_neg (by simp [alive])] at taken
      obtain ⟨kernel, -, taken⟩ := Option.bind_eq_some_iff.mp taken
      cases taken
  | irq1 scancode =>
      rw [step, if_neg (by simp [alive])] at taken
      have told := keyboardHandler_offered s.keyboard flag scancode
      simp only [Option.some.injEq, Prod.mk.injEq, Shown.received.injEq] at taken
      rw [taken.1] at told
      by_contra room
      rw [Nat.not_le] at room
      cases char : charOf held scancode with
      | none =>
          rw [char] at told
          cases told
      | some d =>
          rw [char, offered, if_pos room] at told
          cases told
  | statement junk =>
      obtain ⟨-, -, taken | ⟨d, ticks, taken⟩⟩ := statement_frame taken
      · cases taken
      · cases taken

theorem run_decode {s s' : State} {events : List Event} {log : List Shown} {held : Bool}
    (flag : s.keyboard.shiftHeld ≠ 0#8 ↔ held = true)
    (ran : run counterProcess s events = some (log, s')) :
    log.filterMap Shown.char <+: decodeAll held (events.filterMap Event.code) ∧
      (s'.pc.stopped = false →
        log.filterMap Shown.char = decodeAll held (events.filterMap Event.code)) := by
  induction events generalizing s log held with
  | nil =>
      cases ran
      exact ⟨List.nil_prefix, fun _ => rfl⟩
  | cons e rest ih =>
      by_cases stopped : s.pc.stopped = true
      next =>
        obtain ⟨rfl, nothing⟩ := run_stopped stopped ran
        have none : log.filterMap Shown.char = [] := by
          rw [List.filterMap_eq_nil_iff]
          intro shown member
          rw [nothing shown member]
          rfl
        rw [none]
        refine ⟨List.nil_prefix, fun alive => ?_⟩
        rw [stopped] at alive
        cases alive
      next =>
        obtain ⟨shown, middle, later, first, after, rfl⟩ := run_cons_eq ran
        have alive : s.pc.stopped = false := by simpa using stopped
        obtain ⟨pre, whole⟩ := ih (step_flag flag alive first) after
        rw [filterMap_split, decodeAll_event, step_char flag alive first]
        exact ⟨(List.prefix_append_right_inj _).mpr pre, fun alive => by rw [whole alive]⟩

end Keys

section Reading

variable {init : Pmm} {s : State} {i : Interpreter} {p : Paper U8} {counterProcess : U32}

theorem Follows.kept (h : Follows init s i p) {held : Bool}
    (flag : s.keyboard.shiftHeld ≠ 0#8 ↔ held = true) {events : List Event} {log : List Shown}
    {s' : State} (few : i.table.lastPid + s.unhandled.length + events.countP Event.isKey < 2 ^ 32)
    (spared : Transition.Meets (Step counterProcess) Spared s events)
    (ran : Session.run counterProcess s events = some (log, s'))
    (room : s.unhandled.length + (decodeAll held (events.filterMap Event.code)).length ≤ 255) :
    log.filterMap Shown.accepted = log.filterMap Shown.char := by
  induction events generalizing s i p log held with
  | nil =>
      cases ran
      rfl
  | cons e rest ih =>
      by_cases stopped : s.pc.stopped = true
      next =>
        obtain ⟨-, nothing⟩ := run_stopped stopped ran
        refine List.filterMap_congr fun shown member => ?_
        rw [nothing shown member]
        rfl
      next =>
        have alive : s.pc.stopped = false := by simpa using stopped
        rw [← List.singleton_append, List.countP_append] at few
        obtain ⟨shown, middle, later, first, after, rfl⟩ := run_cons_eq ran
        obtain ⟨shown', middle', again, kept, -⟩ := h.step counterProcess (by omega) e
        rw [first] at again
        cases again
        obtain ⟨now, onward⟩ := spared middle (step_of_eq counterProcess first)
        obtain ⟨next, accounts⟩ := kept now
        have bound := accounts.pids init i
        have brought := step_char flag alive first
        rw [decodeAll_event, ← brought, List.length_append] at room
        have same : shown.accepted = shown.char := by
          cases shown with
          | handled c ticks => rfl
          | nothing => rfl
          | received outcome =>
              cases outcome with
              | ignored => rfl
              | pushed c => rfl
              | discarded c =>
                  have full := step_discarded flag alive first
                  simp only [State.unhandled, List.length_append, Shown.char, Outcome.char,
                    Option.toList_some, List.length_singleton] at room
                  omega
        have conserved := congrArg List.length accounts.conserved
        rw [List.length_append, List.length_append, same] at conserved
        rw [filterMap_split, filterMap_split, same,
          ih next (step_flag flag alive first) (by omega) onward after (by omega)]

-- From an empty buffer: what is handled, and what is not yet, is the text as far as it was taken in.
theorem Follows.brings (h : Follows init s i p) (nothing : s.unhandled = [])
    (released : s.keyboard.shiftHeld = 0#8) {events : List Event} {text : List U8}
    (told : decodeAll false (events.filterMap Event.code) = text) (short : text.length ≤ 255)
    (few : i.table.lastPid + s.unhandled.length + events.countP Event.isKey < 2 ^ 32)
    (spared : Transition.Meets (Step counterProcess) Spared s events) {log : List Shown} {s' : State}
    (ran : Session.run counterProcess s events = some (log, s')) :
    log.filterMap Shown.key ++ s'.unhandled <+: text ∧
      (s'.pc.stopped = false → log.filterMap Shown.key ++ s'.unhandled = text) := by
  have flag : s.keyboard.shiftHeld ≠ 0#8 ↔ false = true := by simp [released]
  obtain ⟨log', last, again, -, conserved, -⟩ := h.run counterProcess events spared few
  obtain ⟨rfl, rfl⟩ := Prod.mk.inj (Option.some.inj (ran.symm.trans again))
  have kept := h.kept flag few spared ran (by rw [nothing, told]; simpa using short)
  have brought := run_decode flag ran
  rw [nothing, Conserved, List.nil_append] at conserved
  rwa [told, ← kept, conserved] at brought

end Reading

section Progress

variable {init : Pmm} {s : State} {i : Interpreter} {p : Paper U8} {counterProcess : U32}

/-- Which part of the key at hand comes next, and so many statements of this part are left. -/
inductive Due (init : Pmm) (kernel : Kernel Slot) (i : Interpreter) : Pc → Nat × Nat → Prop
  | refresh : Due init kernel i .refresh (2, 5)
  | wait : Due init kernel i .wait (2, 5)
  | test : Due init kernel i (.getchar .test) (2, 4)
  | read : Due init kernel i (.getchar .read) (2, 3)
  | advance (c : U8) : Due init kernel i (.getchar (.advance c)) (2, 2)
  | handle (c : U8) : Due init kernel i (.handle c) (2, 1)
  | working (ticks : U32) (pc : KernelPc) (n : Nat)
      (completes : Completes (Answers init (i.answer init ticks.toNat)) n kernel pc) :
      Due init kernel i (.working ticks pc) (1, n)
  | printing (ticks : U32) (made left : List Vga.Op) (returns : Bool) :
      Due init kernel i (.printing ticks made left returns) (0, left.length)

theorem Follows.due (h : Follows init s i p) (alive : s.pc ≠ .halted) :
    ∃ left, Due init s.kernel i s.pc left ∧ (s.pc.inCommand = true → left.1 < 2) := by
  have stage := h.stage
  cases at_pc : s.pc with
  | refresh => exact ⟨_, .refresh, nofun⟩
  | wait => exact ⟨_, .wait, nofun⟩
  | handle c => exact ⟨_, .handle c, nofun⟩
  | getchar pc =>
      cases pc with
      | test => exact ⟨_, .test, nofun⟩
      | read => exact ⟨_, .read, nofun⟩
      | advance c => exact ⟨_, .advance c, nofun⟩
  | working ticks pc =>
      rw [at_pc] at stage
      obtain ⟨-, n, completes⟩ := stage
      exact ⟨_, .working ticks pc n completes, fun _ => Nat.one_lt_two⟩
  | printing ticks made left returns => exact ⟨_, .printing ticks made left returns, fun _ => Nat.two_pos⟩
  | halted => exact absurd at_pc alive
  | lost =>
      rw [at_pc] at stage
      exact absurd stage id

abbrev Less : Nat × Nat → Nat × Nat → Prop := Prod.Lex (· < ·) (· < ·)

theorem Follows.getchar_nearer (h : Follows init s i p) {pc : GetcharPc} {left : Nat × Nat}
    (at_pc : s.pc = .getchar pc) (due : Due init s.kernel i (.getchar pc) left)
    (waiting : s.keyboard.pending ≠ []) :
    ∃ left', Due init (getchar s pc).kernel i (getchar s pc).pc left' ∧ Less left' left := by
  have keyboard := h.keyboard
  rw [at_pc] at keyboard
  cases due with
  | test =>
      have nonempty : s.keyboard.head ≠ s.keyboard.tail :=
        fun empty => waiting ((RingBuffer.pending_eq_nil_iff s.keyboard.toRingBuffer).mpr empty)
      have reads : getchar s .test = { s with pc := .getchar .read } := by
        simp [getchar, keyboardGetchar, nonempty]
      rw [reads]
      exact ⟨_, .read, .right _ (by decide)⟩
  | read => exact ⟨_, .advance _, .right _ (by decide)⟩
  | advance c =>
      obtain ⟨mapped, nonempty, same⟩ := keyboard
      have oldest := RingBuffer.pending_pop s.keyboard.toRingBuffer nonempty
      rw [show s.keyboard.buffer s.keyboard.tail = c from same] at oldest
      have nonzero : c ≠ 0#8 := mapped c (by simp [oldest])
      have gets : getchar s (.advance c) =
          { s with keyboard := { s.keyboard with tail := s.keyboard.tail + 1#8 }, pc := .handle c } := by
        simp [getchar, keyboardGetchar, nonzero]
      rw [gets]
      exact ⟨_, .handle c, .right _ (by decide)⟩

theorem Follows.nearer (h : Follows init s i p)
    (more : i.table.lastPid + s.unhandled.length < 2 ^ 32) {left : Nat × Nat}
    (due : Due init s.kernel i s.pc left) (waiting : s.unhandled ≠ []) {junk : Junk} {shown : Shown}
    {s' : State} (ran : Session.statement counterProcess s junk = some (shown, s'))
    (goesOn : shown.key = none) :
    ∃ left', Due init s'.kernel i s'.pc left' ∧ Less left' left := by
  have next := h.statement counterProcess more junk
  rw [ran] at next
  rw [Session.statement] at ran
  generalize at_pc : s.pc = pc at due ran
  have reading {pc : GetcharPc} (at_pc : s.pc = .getchar pc) : s.keyboard.pending ≠ [] := by
    simpa [State.unhandled, at_pc, Pc.hand] using waiting
  cases due with
  | refresh => cases ran; exact ⟨_, .test, .right _ (by decide)⟩
  | wait => cases ran; exact ⟨_, .test, .right _ (by decide)⟩
  | test => cases ran; exact h.getchar_nearer at_pc .test (reading at_pc)
  | read => cases ran; exact h.getchar_nearer at_pc .read (reading at_pc)
  | advance c => cases ran; exact h.getchar_nearer at_pc (.advance c) (reading at_pc)
  | handle c =>
      obtain ⟨-, -, ⟨rfl, inCommand⟩ | ⟨ticks, rfl⟩⟩ := handleKey_frame ran
      · obtain ⟨_, _, same, follows, -⟩ := next
        cases same
        have alive : s'.pc ≠ .halted := by
          intro halted
          rw [halted] at inCommand
          cases inCommand
        obtain ⟨left', due, earlier⟩ := follows.due alive
        exact ⟨left', due, .left _ _ (earlier inCommand)⟩
      · cases goesOn
  | working ticks pc n completes =>
      obtain ⟨s', worked, result⟩ := Option.map_eq_some_iff.mp ran
      cases result
      cases completes with
      | done holds =>
          obtain ⟨l, said, calls, table, final, -⟩ := holds
          rw [Session.work, final] at worked
          obtain ⟨calls, -, result⟩ := Option.bind_eq_some_iff.mp worked
          cases result
          exact ⟨_, .printing _ _ _ _, .left _ _ Nat.one_pos⟩
      | statement calm stepped rest =>
          rw [Session.work, finalCalls_of_statement stepped, stepped] at worked
          cases worked
          exact ⟨_, .working _ _ _ rest, .right _ (Nat.lt_succ_self _)⟩
  | printing ticks made left returns =>
      obtain ⟨rfl, rfl⟩ := Prod.mk.inj (Option.some.inj ran)
      cases left with
      | nil => cases goesOn
      | cons op left => exact ⟨_, .printing _ _ _ _, .right _ (Nat.lt_succ_self _)⟩

-- The keys that are left, and what is left of the next one.
def Within (init : Pmm) (left : Nat × Nat × Nat) (s : State) : Prop :=
  ∃ i p, Follows init s i p ∧ i.table.lastPid + s.unhandled.length < 2 ^ 32 ∧
    s.unhandled.length = left.1 ∧ s.unhandled ≠ [] ∧ Due init s.kernel i s.pc left.2

def Finished (s : State) : Prop := s.pc = .halted ∨ s.unhandled = []

theorem Within.tick {left : Nat × Nat × Nat} (h : Within init left s) :
    ∃ s', proceed counterProcess s .irq0 = some s' ∧
      (Spared s .irq0 → Finished s' ∨ Within init left s') := by
  obtain ⟨i, p, follows, more, length, waiting, due⟩ := h
  by_cases stopped : s.pc.stopped = true
  next =>
    refine ⟨s, by rw [proceed, step_stopped stopped]; rfl, fun _ => .inr ?_⟩
    exact ⟨i, p, follows, more, length, waiting, due⟩
  next =>
    obtain ⟨shown, s', ran, -⟩ := follows.step counterProcess more .irq0
    refine ⟨s', by rw [proceed, ran]; rfl, fun spared => .inr ?_⟩
    rw [follows.tick counterProcess (by simpa using stopped) spared] at ran
    cases ran
    exact ⟨i, p, { follows with }, more, length, waiting, due⟩

theorem Within.falls {left : Nat × Nat × Nat} (h : Within init left s) (junk : Junk) :
    ∃ s', proceed counterProcess s (.statement junk) = some s' ∧
      (Finished s' ∨ ∃ left', WellFoundedRelation.rel left' left ∧ Within init left' s') := by
  obtain ⟨i, p, follows, more, length, waiting, due⟩ := h
  obtain ⟨shown, s', ran, next, accounts⟩ := follows.statement counterProcess more junk
  refine ⟨s', by rw [proceed, step, ran]; rfl, ?_⟩
  by_cases halted : s'.pc = .halted
  next => exact .inl (.inl halted)
  by_cases handled : s'.unhandled = []
  next => exact .inl (.inr handled)
  right
  have bound := accounts.pids init i
  have few := accounts.few
  have conserved := congrArg List.length accounts.conserved
  rw [List.length_append, List.length_append] at conserved
  have notKey : [Event.statement junk].countP Event.isKey = 0 := rfl
  rw [notKey] at bound few
  obtain ⟨left₁, left₂⟩ := left
  simp only at length due
  cases key : shown.key with
  | none =>
      have same : (i.observe init shown).2 = i := by
        cases shown with
        | handled c ticks => cases key
        | received outcome => rfl
        | nothing => rfl
      rw [key, Option.toList_none, List.length_nil] at conserved
      obtain ⟨left', due', less⟩ := follows.nearer more due waiting ran key
      refine ⟨(left₁, left'), .right _ less, _, _, next, by omega, by simp only; omega, handled, ?_⟩
      rw [same]
      exact due'
  | some c =>
      rw [key, Option.toList_some, List.length_singleton] at conserved
      obtain ⟨left', due', -⟩ := next.due halted
      have fewer : left₁ - 1 < left₁ := by omega
      exact ⟨(left₁ - 1, left'), .left _ _ fewer, _, _, next, by omega, by simp only; omega, handled,
        due'⟩

theorem Follows.finishes (h : Follows init s i p)
    (more : i.table.lastPid + s.unhandled.length < 2 ^ 32) {later : Nat → Event}
    (quiet : ∀ n, (later n).code = none) (fair : ∀ n, ∃ m, n ≤ m ∧ (later m).isStatement = true)
    (spared : ∀ n, Transition.Meets (Step counterProcess) Spared s (Transition.firsts later n)) :
    Transition.Reaches (proceed counterProcess) Finished later s := by
  by_cases finished : Finished s
  next => exact ⟨0, s, rfl, finished⟩
  rw [Finished, not_or] at finished
  obtain ⟨left, due, -⟩ := h.due finished.1
  have start : Within init (s.unhandled.length, left) s :=
    ⟨i, p, h, more, rfl, finished.2, due⟩
  refine Transition.reaches_of_variant (Event.isStatement · = true) fair spared ?_ ?_ start
  · intro left s n within notStatement
    cases e : later n with
    | irq0 => exact within.tick
    | irq1 scancode =>
        have silent := quiet n
        rw [e] at silent
        cases silent
    | statement junk =>
        rw [e] at notStatement
        exact absurd rfl notStatement
  · intro left s n within counted
    cases e : later n with
    | statement junk =>
        obtain ⟨s', ran, next⟩ := within.falls junk
        exact ⟨s', ran, fun _ => next⟩
    | irq0 =>
        rw [e] at counted
        cases counted
    | irq1 scancode =>
        rw [e] at counted
        cases counted

end Progress

theorem countP_isKey (events : List Event) :
    events.countP Event.isKey = (events.filterMap Event.code).length := by
  rw [List.length_filterMap_eq_countP]
  refine List.countP_congr fun e _ => ?_
  cases e <;> simp [Event.isKey, Event.code]

theorem Finished.printed {s : State} (h : Finished s) : s.pc.printed = [] := by
  rcases h with halted | handled
  · rw [halted]
    rfl
  · rw [State.unhandled, List.append_eq_nil_iff] at handled
    have hand := handled.1
    cases at_pc : s.pc <;> simp_all [Pc.hand, Pc.printed]

-- `ps` and Enter are typed.
def tapping : List Event :=
  [.irq1 0x19#8, .irq1 0x99#8, .irq1 0x1F#8, .irq1 0x9F#8, .irq1 0x1C#8, .irq1 0x9C#8]

end Session

end SoraOS
