import SoraOS.Keyboard.Keyboard
import SoraOS.Shared.Transition

set_option autoImplicit false

/-! `shift_held` against the keys that are physically down. -/

namespace SoraOS

namespace Typing

open Keyboard

/-- A key by its make code in Set 1; its break code is the same with bit 7 set. -/
abbrev Key := BitVec 7

def make (key : Key) : U8 := key.setWidth 8

def breakCode (key : Key) : U8 := key.setWidth 8 ||| 0x80#8

def leftShift : Key := 0x2A#7
def rightShift : Key := 0x36#7
def prefixCode : U8 := 0xE0#8

/-- The keyboard driver with its reader, and the keys with one-byte codes that are down. -/
structure State where
  keyboard : Keyboard
  pc : GetcharPc
  down : Key → Bool

inductive Stroke where
  -- the first make code of a key, or a repeat
  | press (key : Key)
  | release (key : Key)
  -- `E0` and a make or a break code
  | extended (key : Key) (released : Bool)
  | reader

def State.irq (s : State) (scancode : U8) : State :=
  { s with keyboard := (s.keyboard.keyboardHandler scancode).2 }

-- Only a key that is down is released.
def step (s : State) : Stroke → Option State
  | .press key => some { s.irq (make key) with down := Function.update s.down key true }
  | .release key =>
      if s.down key then
        some { s.irq (breakCode key) with down := Function.update s.down key false }
      else none
  | .extended key released =>
      some ((s.irq prefixCode).irq (if released then breakCode key else make key))
  | .reader =>
      let (_, pc, keyboard) := s.keyboard.keyboardGetchar s.pc
      some { s with keyboard := keyboard, pc := pc }

def Step (s : State) (a : Stroke) (t : State) : Prop := step s a = some t

def start (buffer : U8 → U8) : State where
  keyboard := keyboardInit buffer
  pc := .test
  down := fun _ => false

def State.shiftDown (s : State) : Bool := s.down leftShift || s.down rightShift

def State.table (s : State) : List U8 := if s.shiftDown then scancodeShifted else scancodeNormal

def isShift (key : Key) : Bool := decide (key = leftShift) || decide (key = rightShift)

structure Tracked (s : State) : Prop where
  flag : s.keyboard.shiftHeld = 1#8 ↔ s.shiftDown = true
  translated : ∀ key, isShift key = false → s.table.getD key.toNat 0#8 ≠ 0#8 →
    (s.keyboard.keyboardHandler (make key)).1 = .pushed (s.table.getD key.toNat 0#8) ∨
      (s.keyboard.keyboardHandler (make key)).1 = .discarded (s.table.getD key.toNat 0#8)

/--
No shift key is released while the other one is down; `E0 2A` and `E0 36` come only while a shift
key is down, `E0 AA` and `E0 B6` only while none is.
-/
def Tidy (s : State) : Stroke → Prop
  | .release key =>
      (key = leftShift → s.down rightShift = false) ∧ (key = rightShift → s.down leftShift = false)
  | .extended key released => isShift key = true → s.shiftDown = !released
  | _ => True

theorem make_codes (key : Key) :
    ((make key = 0x2A#8 ∨ make key = 0x36#8) ↔ isShift key = true) ∧
      ¬(make key = 0xAA#8 ∨ make key = 0xB6#8) ∧ make key &&& 0x80#8 = 0#8 ∧
      (make key &&& 0x7F#8).toNat = key.toNat := by
  revert key
  decide

theorem break_codes (key : Key) :
    ¬(breakCode key = 0x2A#8 ∨ breakCode key = 0x36#8) ∧
      ((breakCode key = 0xAA#8 ∨ breakCode key = 0xB6#8) ↔ isShift key = true) := by
  revert key
  decide

theorem handler_make (k : Keyboard) (key : Key) :
    (k.keyboardHandler (make key)).2.shiftHeld = if isShift key then 1#8 else k.shiftHeld := by
  obtain ⟨shift, notBreak, -, -⟩ := make_codes key
  rw [handler_shiftHeld, if_neg notBreak]
  simp only [shift]

theorem handler_break (k : Keyboard) (key : Key) :
    (k.keyboardHandler (breakCode key)).2.shiftHeld = if isShift key then 0#8 else k.shiftHeld := by
  obtain ⟨notMake, shift⟩ := break_codes key
  rw [handler_shiftHeld, if_neg notMake]
  simp only [shift]

theorem handler_prefix (k : Keyboard) : (k.keyboardHandler prefixCode).2.shiftHeld = k.shiftHeld := by
  rw [handler_shiftHeld]
  rfl

def Truthful (s : State) : Prop := s.keyboard.shiftHeld = if s.shiftDown then 1#8 else 0#8

theorem Truthful.flag {s : State} (h : Truthful s) :
    s.keyboard.shiftHeld = 1#8 ↔ s.shiftDown = true := by
  rw [h]
  cases s.shiftDown with
  | true => simp
  | false => simp

theorem Truthful.tracked {s : State} (h : Truthful s) : Tracked s := by
  refine ⟨h.flag, ?_⟩
  intro key ordinary mapped
  obtain ⟨shift, notBreak, plain, index⟩ := make_codes key
  have notShift : ¬(make key = 0x2A#8 ∨ make key = 0x36#8) := by
    rw [shift, ordinary]
    decide
  have looked : Keyboard.translate s.keyboard.shiftHeld (make key) = s.table.getD key.toNat 0#8 := by
    rw [Keyboard.translate, index, h, State.table]
    cases s.shiftDown with
    | true => rfl
    | false => rfl
  rw [keyboardHandler, if_neg notShift, if_neg notBreak, plain, if_neg (by decide)]
  dsimp only
  rw [looked, if_neg mapped]
  split
  next => exact Or.inl rfl
  next => exact Or.inr rfl

theorem truthful_start (buffer : U8 → U8) : Truthful (start buffer) := rfl

theorem step_cases {s t : State} {a : Stroke} (taken : Step s a t) :
    (∃ key, a = .press key ∧ t.down = Function.update s.down key true ∧
      t.keyboard.shiftHeld = if isShift key then 1#8 else s.keyboard.shiftHeld) ∨
    (∃ key, a = .release key ∧ s.down key = true ∧ t.down = Function.update s.down key false ∧
      t.keyboard.shiftHeld = if isShift key then 0#8 else s.keyboard.shiftHeld) ∨
    (∃ key released, a = .extended key released ∧ t.down = s.down ∧
      t.keyboard.shiftHeld =
        if isShift key then (if released then 0#8 else 1#8) else s.keyboard.shiftHeld) ∨
    (a = .reader ∧ t.down = s.down ∧ t.keyboard.shiftHeld = s.keyboard.shiftHeld) := by
  cases a with
  | press key =>
      obtain rfl := Option.some.inj taken
      exact Or.inl ⟨key, rfl, rfl, handler_make _ key⟩
  | release key =>
      rw [Step, step] at taken
      split at taken
      next down =>
        obtain rfl := Option.some.inj taken
        exact Or.inr (Or.inl ⟨key, rfl, down, rfl, handler_break _ key⟩)
      next => cases taken
  | extended key released =>
      obtain rfl := Option.some.inj taken
      refine Or.inr (Or.inr (Or.inl ⟨key, released, rfl, rfl, ?_⟩))
      cases released with
      | true =>
          refine (handler_break _ key).trans ?_
          rw [← handler_prefix s.keyboard]
          rfl
      | false =>
          refine (handler_make _ key).trans ?_
          rw [← handler_prefix s.keyboard]
          rfl
  | reader =>
      obtain rfl := Option.some.inj taken
      exact Or.inr (Or.inr (Or.inr ⟨rfl, rfl, getchar_shiftHeld s.keyboard s.pc⟩))

theorem shiftDown_update {s t : State} {key : Key} {value : Bool}
    (down : t.down = Function.update s.down key value) (ordinary : isShift key = false) :
    t.shiftDown = s.shiftDown := by
  have apart : leftShift ≠ key ∧ rightShift ≠ key := by
    constructor
    next =>
      rintro rfl
      exact absurd ordinary (by decide)
    next =>
      rintro rfl
      exact absurd ordinary (by decide)
  rw [State.shiftDown, State.shiftDown, down, Function.update_of_ne apart.1,
    Function.update_of_ne apart.2]

theorem isShift_iff (key : Key) : isShift key = true ↔ key = leftShift ∨ key = rightShift := by
  simp [isShift]

theorem Truthful.of_unchanged {s t : State} (h : Truthful s) (down : t.shiftDown = s.shiftDown)
    (flag : t.keyboard.shiftHeld = s.keyboard.shiftHeld) : Truthful t := by
  rw [Truthful, flag, down]
  exact h

theorem truthful_of_flag {s : State} {b : Bool}
    (flag : s.keyboard.shiftHeld = if b then 1#8 else 0#8) :
    (s.shiftDown = b → Truthful s) ∧ (s.shiftDown ≠ b → ¬Tracked s) := by
  constructor
  next =>
    intro agrees
    rw [Truthful, flag, agrees]
  next =>
    intro disagrees tracked
    have told := tracked.flag
    rw [flag] at told
    cases held : s.shiftDown <;> cases b <;> simp_all

theorem shiftDown_release {s t : State} {key : Key} (shift : isShift key = true)
    (down : t.down = Function.update s.down key false) :
    t.shiftDown = false ↔ Tidy s (.release key) := by
  have apart : leftShift ≠ rightShift := by decide
  rw [State.shiftDown, down, Bool.or_eq_false_iff]
  rcases (isShift_iff key).mp shift with rfl | rfl
  · rw [Function.update_self, Function.update_of_ne apart.symm]
    constructor
    next => exact fun both => ⟨fun _ => both.2, fun same => absurd same apart⟩
    next => exact fun tidy => ⟨rfl, tidy.1 rfl⟩
  · rw [Function.update_self, Function.update_of_ne apart]
    constructor
    next => exact fun both => ⟨fun same => absurd same apart.symm, fun _ => both.1⟩
    next => exact fun tidy => ⟨tidy.2 rfl, rfl⟩

theorem tidy_of_ordinary (s : State) {key : Key} (ordinary : isShift key = false) :
    Tidy s (.release key) := by
  constructor
  next =>
    rintro rfl
    exact absurd ordinary (by decide)
  next =>
    rintro rfl
    exact absurd ordinary (by decide)

theorem truthful_press {s t : State} {key : Key} (h : Truthful s)
    (down : t.down = Function.update s.down key true)
    (flag : t.keyboard.shiftHeld = if isShift key then 1#8 else s.keyboard.shiftHeld) :
    Truthful t := by
  cases shift : isShift key with
  | true =>
      rw [shift] at flag
      apply (truthful_of_flag (b := true) flag).1
      rw [State.shiftDown, down, Bool.or_eq_true]
      rcases (isShift_iff key).mp shift with rfl | rfl
      · exact Or.inl (Function.update_self ..)
      · exact Or.inr (Function.update_self ..)
  | false =>
      rw [shift] at flag
      exact h.of_unchanged (shiftDown_update down shift) flag

theorem truthful_release {s t : State} {key : Key} (h : Truthful s)
    (down : t.down = Function.update s.down key false)
    (flag : t.keyboard.shiftHeld = if isShift key then 0#8 else s.keyboard.shiftHeld) :
    (Tidy s (.release key) → Truthful t) ∧ (¬Tidy s (.release key) → ¬Tracked t) := by
  cases shift : isShift key with
  | true =>
      rw [shift] at flag
      rw [← shiftDown_release shift down]
      exact truthful_of_flag (b := false) flag
  | false =>
      rw [shift] at flag
      exact ⟨fun _ => h.of_unchanged (shiftDown_update down shift) flag,
        fun untidy => absurd (tidy_of_ordinary s shift) untidy⟩

theorem truthful_extended {s t : State} {key : Key} {released : Bool} (h : Truthful s)
    (same : t.shiftDown = s.shiftDown)
    (flag : t.keyboard.shiftHeld =
      if isShift key then (if released then 0#8 else 1#8) else s.keyboard.shiftHeld) :
    (Tidy s (.extended key released) → Truthful t) ∧
      (¬Tidy s (.extended key released) → ¬Tracked t) := by
  cases shift : isShift key with
  | true =>
      rw [shift] at flag
      have tidy : Tidy s (.extended key released) ↔ t.shiftDown = !released := by
        rw [same]
        exact ⟨fun tidy => tidy shift, fun agrees _ => agrees⟩
      rw [tidy]
      apply truthful_of_flag
      rw [flag]
      cases released with
      | true => rfl
      | false => rfl
  | false =>
      rw [shift] at flag
      refine ⟨fun _ => h.of_unchanged same flag, fun untidy => absurd ?_ untidy⟩
      intro shift'
      rw [shift] at shift'
      cases shift'

theorem truthful_step {s t : State} {a : Stroke} (h : Truthful s) (taken : Step s a t) :
    (Tidy s a → Truthful t) ∧ (¬Tidy s a → ¬Tracked t) := by
  rcases step_cases taken with ⟨key, rfl, down, flag⟩ | ⟨key, rfl, -, down, flag⟩ |
    ⟨key, released, rfl, down, flag⟩ | ⟨rfl, down, flag⟩
  · exact ⟨fun _ => truthful_press h down flag, fun untidy => absurd trivial untidy⟩
  · exact truthful_release h down flag
  · exact truthful_extended h (by rw [State.shiftDown, State.shiftDown, down]) flag
  · have same : t.shiftDown = s.shiftDown := by rw [State.shiftDown, State.shiftDown, down]
    exact ⟨fun _ => h.of_unchanged same flag, fun untidy => absurd trivial untidy⟩

/-- Shift is tracked through a whole sequence of codes exactly when all of them are tidy. -/
theorem shift_tracked_iff (buffer : U8 → U8) (strokes : List Stroke) :
    Transition.Always Step Tracked (start buffer) strokes ↔
      Transition.Meets Step Tidy (start buffer) strokes := by
  apply Transition.always_iff_meets (fun s (truthful : Truthful s) => truthful.tracked)
  · intro s a t truthful tidy taken
    exact (truthful_step truthful taken).1 tidy
  · intro s a t truthful untidy taken
    exact (truthful_step truthful taken).2 untidy
  · exact truthful_start buffer

theorem shift_lost :
    ¬∀ (buffer : U8 → U8) (strokes : List Stroke),
      Transition.Always Step Tracked (start buffer) strokes := by
  intro always
  let strokes : List Stroke := [.press leftShift, .press rightShift, .release leftShift]
  have evaluated : (strokes.foldlM step (start fun _ => 0#8)).map
      (fun s => (s.keyboard.shiftHeld, s.shiftDown)) = some (0#8, true) := by
    decide +kernel
  obtain ⟨t, ran, shown⟩ := Option.map_eq_some_iff.mp evaluated
  have tracked : Tracked t := (always (fun _ => 0#8) strokes).of_run ran
  obtain ⟨flag, held⟩ := Prod.mk.inj shown
  have set := tracked.flag.mpr held
  rw [flag] at set
  exact absurd set (by decide)

end Typing

end SoraOS
