import SoraOS.Session.Refinement

set_option autoImplicit false

/-! A session without its corrections: what was rubbed out leaves no trace on the screen. -/

namespace SoraOS

namespace Session

open Vga Shell Scratch Conservation

namespace Interpreter

variable (init : Pmm)

-- A line is put out as a whole when it is entered.
def settle (i : Interpreter) : Shown → List Output
  | .handled c ticks =>
      if c = newline then typed i.held ++ (i.enter init ticks.toNat).1 else []
  | _ => []

def dialogue (i : Interpreter) : List Shown → List Output
  | [] => typed i.held
  | shown :: rest => i.settle init shown ++ (i.observe init shown).2.dialogue rest

end Interpreter

/-- No byte goes back on the paper. -/
def Onward (out : List Output) : Prop :=
  ∀ c, .byte c ∈ out → c ≠ carriageReturn ∧ c ≠ backspace

-- What the keyboard adds to a line.
def Ordinary (c : U8) : Prop := c ≠ newline ∧ c ≠ carriageReturn ∧ c ≠ backspace

theorem onward_typed {s : List U8} : Onward (typed s) ↔ Plain s := by
  constructor
  next => exact fun onward c member => onward c (List.mem_map_of_mem member)
  next =>
    intro plain c member
    obtain ⟨d, inside, same⟩ := List.mem_map.mp member
    obtain rfl := Output.byte.inj same
    exact plain d inside

theorem Onward.append {out out' : List Output} (h : Onward out) (h' : Onward out') :
    Onward (out ++ out') := by
  intro c member
  rcases List.mem_append.mp member with first | second
  · exact h c first
  · exact h' c second

theorem plain_append {s s' : List U8} (h : Plain s) (h' : Plain s') : Plain (s ++ s') := by
  intro c member
  rcases List.mem_append.mp member with first | second
  · exact h c first
  · exact h' c second

theorem plain_flatMap {A : Type} {f : A → List U8} (each : ∀ a, Plain (f a)) (l : List A) :
    Plain (l.flatMap f) := by
  intro c member
  obtain ⟨a, -, inside⟩ := List.mem_flatMap.mp member
  exact each a c inside

theorem plain_text (n : Nat) : Plain (text n) := by
  intro c member
  have digit := text_digit member
  constructor
  next =>
    rintro rfl
    exact absurd digit (by decide)
  next =>
    rintro rfl
    exact absurd digit (by decide)

theorem plain_ascii (chars : List Char)
    (each : (chars.all fun c => BitVec.ofNat 8 c.toNat ≠ carriageReturn ∧
      BitVec.ofNat 8 c.toNat ≠ backspace) = true) : Plain (ascii (String.ofList chars)) := by
  intro d member
  rw [ascii, String.toList_ofList] at member
  obtain ⟨c, listed, rfl⟩ := List.mem_map.mp member
  exact of_decide_eq_true (List.all_eq_true.mp each c listed)

theorem plain_stateName (state : ProcessState) : Plain (stateName state) := by
  cases state <;> exact plain_ascii _ rfl

theorem plain_newline : Plain [newline] := by simp [Plain]; decide

theorem plain_intercalate {c : U8} (gap : Plain [c]) {words : List (List U8)}
    (plain : ∀ w ∈ words, Plain w) : Plain ([c].intercalate words) := by
  induction words with
  | nil => simp [Plain]
  | cons w words ih =>
      have first := plain w (by simp)
      have later := ih fun w' member => plain w' (List.mem_cons_of_mem _ member)
      cases words with
      | nil => simpa using first
      | cons w' words =>
          have shape : [c].intercalate (w :: w' :: words) =
              w ++ ([c] ++ [c].intercalate (w' :: words)) := by simp [List.intercalate]
          rw [shape]
          exact plain_append first (plain_append gap later)

theorem plain_echoText {words : List (List U8)} (plain : ∀ w ∈ words, Plain w) :
    Plain (echoText words) := by
  have gap : Plain [space] := by simp [Plain]; decide
  exact plain_append (plain_intercalate gap fun w later => plain w (List.mem_of_mem_tail later))
    plain_newline

theorem plain_psText (p : Process) : Plain (psText p) := by
  rw [psText]
  repeat' apply plain_append
  all_goals first | exact plain_text _ | exact plain_stateName _ | exact plain_ascii _ rfl

theorem plain_lsText (p : Process) : Plain (lsText p) := by
  rw [lsText]
  repeat' apply plain_append
  all_goals first | exact plain_text _ | exact plain_stateName _ | exact plain_ascii _ rfl

theorem plain_takeWhile {s : List U8} (plain : Plain s) (p : U8 → Bool) : Plain (s.takeWhile p) :=
  fun c member => plain c ((List.takeWhile_sublist p).mem member)

theorem onward_print {s : List U8} {calls : List Vga.Op} (plain : Plain s)
    (later : Onward (fixed calls)) : Onward (fixed (.vgaPrint s :: calls)) :=
  (onward_typed.mpr (plain_takeWhile plain _)).append later

theorem onward_printColor {s : List U8} {color : U8} {calls : List Vga.Op} (plain : Plain s)
    (later : Onward (fixed calls)) : Onward (fixed (.vgaPrintColor s color :: calls)) :=
  (onward_typed.mpr (plain_takeWhile plain _)).append later

theorem onward_fixed :
    Onward (fixed cmdHelp) ∧ Onward (fixed cmdAbout) ∧ Onward (fixed cmdBanner) ∧
      Onward (fixed cmdReboot) ∧ Onward (fixed cmdExit) ∧ Onward (fixed promptCalls) := by
  unfold cmdHelp cmdAbout cmdBanner cmdReboot cmdExit promptCalls
  refine ⟨?_, ?_, ?_, ?_, ?_, ?_⟩
  all_goals
    repeat first
      | refine onward_print (plain_ascii _ rfl) ?_
      | refine onward_printColor (plain_ascii _ rfl) ?_
    simp [fixed, Onward]

theorem onward_respond (init : Pmm) (ticks : Nat) (t : Table) {words : List (List U8)}
    (plain : ∀ w ∈ words, Plain w) (command : Command) :
    Onward (respond init ticks t words command).text := by
  cases command with
  | help => exact onward_fixed.1
  | clear => simp [respond, Onward]
  | echo => exact onward_typed.mpr (plain_echoText plain)
  | ls =>
      rw [respond, onward_typed]
      split
      next =>
        repeat' apply plain_append
        all_goals first | exact plain_newline | exact plain_ascii _ rfl
      next =>
        repeat' apply plain_append
        all_goals
          first | exact plain_newline | exact plain_flatMap plain_lsText _ | exact plain_ascii _ rfl
  | time =>
      rw [respond, onward_typed, timeText]
      repeat' apply plain_append
      all_goals first | exact plain_text _ | exact plain_ascii _ rfl
  | ps =>
      rw [respond, onward_typed]
      repeat' apply plain_append
      all_goals
        first | exact plain_newline | exact plain_flatMap plain_psText _ | exact plain_ascii _ rfl
  | threads =>
      rw [respond, onward_typed]
      repeat' apply plain_append
      all_goals first | exact plain_newline | exact plain_ascii _ rfl
  | meminfo =>
      rw [respond, onward_typed, memoryText]
      repeat' apply plain_append
      all_goals first | exact plain_text _ | exact plain_ascii _ rfl
  | newprocess =>
      rw [respond]
      split
      next =>
        rw [onward_typed, createdText]
        repeat' apply plain_append
        all_goals first | exact plain_text _ | exact plain_ascii _ rfl
      next => exact onward_typed.mpr (plain_ascii _ rfl)
  | killprocess =>
      cases words with
      | nil => exact onward_typed.mpr (plain_ascii _ rfl)
      | cons command rest =>
          cases rest with
          | nil => exact onward_typed.mpr (plain_ascii _ rfl)
          | cons argument others =>
              simp only [respond]
              split
              all_goals
                rw [onward_typed]
                repeat' apply plain_append
                all_goals first | exact plain_text _ | exact plain_newline | exact plain_ascii _ rfl
  | reboot => exact onward_fixed.2.2.2.1
  | exit => exact onward_fixed.2.2.2.2.1
  | about => exact onward_fixed.2.1
  | banner => exact onward_fixed.2.2.1

theorem onward_interpret (init : Pmm) (ticks : Nat) (t : Table) {line : List U8}
    (plain : Plain line) : Onward (interpret init ticks t line).text := by
  have words : ∀ w ∈ (lineWords line).take 16, Plain w := by
    intro w member c inside
    exact plain c (Words.mem_of_mem_words (List.mem_of_mem_take member) inside)
  rw [interpret]
  cases shape : (lineWords line).take 16 with
  | nil => simp [Onward]
  | cons name others =>
      rw [shape] at words
      cases known : commandNamed name with
      | some command =>
          simp only [known]
          exact onward_respond init ticks t words command
      | none =>
          simp only [known]
          rw [onward_typed]
          exact plain_append (plain_append (plain_ascii _ rfl) (words name (by simp)))
            (plain_ascii _ rfl)

theorem onward_enter (init : Pmm) (ticks : Nat) {i : Interpreter} (plain : Plain i.held) :
    Onward (i.enter init ticks).1 := by
  have answered : Onward (i.answer init ticks).text := by
    rw [Interpreter.answer]
    split
    next => simp [Onward]
    next => exact onward_interpret init ticks i.table plain
  have prompted : Onward Interpreter.prompted := onward_fixed.2.2.2.2.2
  simp only [Interpreter.enter]
  refine ((onward_typed.mpr plain_newline).append answered).append ?_
  split
  next => exact prompted
  next => simp [Onward]

section Papers

abbrev Framed (p : Paper U8) : Prop := p.Framed vgaWidth textRows blankChar

theorem framed_emit {p : Paper U8} (h : Framed p) (o : Output) : Framed (emit p o) := by
  cases o with
  | byte c =>
      rw [emit, typeChar]
      split
      next => exact h.newline
      split
      next => exact h.start
      split
      next => exact h.erase
      next => exact h.put c
  | clear => exact Paper.framed_blank (by decide) (by decide)

structure Behind (p q : Paper U8) : Prop where
  alike : Paper.Alike p q
  top : q.top ≤ p.top

theorem Behind.emit {p q : Paper U8} (h : Behind p q) {o : Output} (onward : Onward [o]) :
    Behind (emit p o) (emit q o) := by
  cases o with
  | byte c =>
      obtain ⟨notReturn, notBackspace⟩ := onward c (by simp)
      simp only [Vga.emit, typeChar, notReturn, notBackspace, if_false]
      split
      next => exact ⟨h.alike.newline, h.alike.top_newline h.top⟩
      next => exact ⟨h.alike.put c, h.alike.top_put h.top c⟩
  | clear => exact ⟨⟨rfl, rfl, rfl⟩, le_rfl⟩

theorem fresh_emit {p : Paper U8} (h : p.Fresh blankChar) {o : Output} (onward : Onward [o]) :
    (emit p o).Fresh blankChar := by
  cases o with
  | byte c =>
      obtain ⟨notReturn, notBackspace⟩ := onward c (by simp)
      simp only [emit, typeChar, notReturn, notBackspace, if_false]
      split
      next => exact h.newline
      next => exact h.put c
  | clear => exact fun _ _ _ => rfl

theorem onward_cons {o : Output} {out : List Output} (h : Onward (o :: out)) :
    Onward [o] ∧ Onward out := by
  constructor
  next => exact fun c member => h c (by simp_all)
  next => exact fun c member => h c (List.mem_cons_of_mem _ member)

theorem framed_emits {p : Paper U8} (h : Framed p) (out : List Output) :
    Framed (out.foldl emit p) := by
  induction out generalizing p with
  | nil => exact h
  | cons o rest ih => exact ih (framed_emit h o)

theorem fresh_emits {p : Paper U8} (h : p.Fresh blankChar) {out : List Output}
    (onward : Onward out) : (out.foldl emit p).Fresh blankChar := by
  induction out generalizing p with
  | nil => exact h
  | cons o rest ih =>
      obtain ⟨first, later⟩ := onward_cons onward
      exact ih (fresh_emit h first) later

theorem Behind.emits {p q : Paper U8} (h : Behind p q) {out : List Output}
    (onward : Onward out) : Behind (out.foldl Vga.emit p) (out.foldl Vga.emit q) := by
  induction out generalizing p q with
  | nil => exact h
  | cons o rest ih =>
      obtain ⟨first, later⟩ := onward_cons onward
      exact ih (h.emit first) later

theorem emit_ordinary (p : Paper U8) {c : U8} (ordinary : Ordinary c) :
    emit p (.byte c) = p.put vgaWidth textRows c := by
  simp [emit, typeChar, ordinary.1, ordinary.2.1, ordinary.2.2]

theorem index_line {p : Paper U8} (h : Framed p) {held : List U8}
    (ordinary : ∀ c ∈ held, Ordinary c) :
    ((typed held).foldl emit p).index vgaWidth = p.index vgaWidth + held.length := by
  induction held generalizing p with
  | nil => rfl
  | cons c rest ih =>
      have put := Paper.index_put h c
      have later := ih (h.put c) fun d member => ordinary d (List.mem_cons_of_mem _ member)
      rw [← emit_ordinary p (ordinary c (by simp))] at put later
      rw [put] at later
      rw [List.length_cons, Nat.add_comm rest.length, ← Nat.add_assoc, ← later]
      rfl

end Papers

/--
The paper `p` says what the paper `q`, on which the line is not begun, says with the line as it
is now.
-/
structure Settled (p q : Paper U8) (held : List U8) : Prop where
  behind : Behind p ((typed held).foldl emit q)
  framed : Framed q
  fresh : q.Fresh blankChar
  reach : p.top ≤ q.line
  ordinary : ∀ c ∈ held, Ordinary c
  short : held.length < maxLine

-- A line of 255 characters reaches four rows down, and the window has 24.
theorem Settled.down {p q : Paper U8} {held : List U8} (h : Settled p q held) :
    q.line ≤ ((typed held).foldl emit q).line ∧
      ((typed held).foldl emit q).line ≤ q.line + 4 ∧
      (held ≠ [] → 0 < ((typed held).foldl emit q).col ∨
        q.line < ((typed held).foldl emit q).line) := by
  have index := index_line h.framed h.ordinary
  have inside := (framed_emits h.framed (typed held)).inside
  have before := h.framed.inside
  have short := h.short
  rw [← List.length_pos_iff]
  simp only [Paper.index, vgaWidth, maxLine] at index inside before short ⊢
  omega

theorem Settled.typed {p q : Paper U8} {held : List U8} (h : Settled p q held) {c : U8}
    (ordinary : Ordinary c) (room : held.length < maxLine - 1) :
    Settled (emit p (.byte c)) q (held ++ [c]) := by
  have down := h.down
  have reach := h.reach
  have line := h.behind.alike.line
  have onward : Onward [Output.byte c] := by
    simpa [Onward] using ordinary.2
  constructor
  next =>
    rw [typed_append, List.foldl_append]
    exact h.behind.emit onward
  next => exact h.framed
  next => exact h.fresh
  next =>
    rw [emit_ordinary p ordinary]
    simp only [Paper.put]
    split
    next => exact reach
    next =>
      simp only [Paper.newline, Paper.follow, Paper.write_line, Paper.write_top, textRows,
        vgaHeight]
      omega
  next =>
    intro d member
    rcases List.mem_append.mp member with older | newest
    · exact h.ordinary d older
    · exact List.mem_singleton.mp newest ▸ ordinary
  next =>
    rw [List.length_append, List.length_singleton]
    omega

theorem Settled.rubbed {p q : Paper U8} {held : List U8} {c : U8}
    (h : Settled p q (held ++ [c])) : Settled (emit p (.byte backspace)) q held := by
  have ordinary := h.ordinary c (by simp)
  have earlier : ∀ d ∈ held, Ordinary d := fun d member => h.ordinary d (by simp [member])
  have onward : Onward (Session.typed held) :=
    onward_typed.mpr fun d member => (earlier d member).2
  have framed := framed_emits h.framed (Session.typed held)
  have fresh := fresh_emits h.fresh onward
  have said := h.behind
  have down := h.down.2.2 (by simp)
  have reach := h.reach
  have short := h.short
  rw [typed_append, List.foldl_append] at said down
  generalize line : (Session.typed held).foldl emit q = r at framed fresh said down
  have put : (Session.typed [c]).foldl emit r = r.put vgaWidth textRows c :=
    emit_ordinary r ordinary
  rw [put] at said down
  have further : r.top ≤ (r.put vgaWidth textRows c).top := by
    simp only [Paper.put]
    split
    next => exact le_rfl
    next => exact le_max_left _ _
  have kept : (p.erase vgaWidth blankChar).top = p.top := by
    simp only [Paper.erase, Paper.write_top, Paper.retreat]
    split
    next => rfl
    next => split <;> rfl
  have back : emit p (.byte backspace) = p.erase vgaWidth blankChar := rfl
  have top := said.top
  rw [List.length_append, List.length_singleton] at short
  rw [back]
  have undone : Paper.Alike (p.erase vgaWidth blankChar)
      ((r.put vgaWidth textRows c).erase vgaWidth blankChar) := said.alike.erase (by omega)
  have restored := Paper.erase_put framed (by decide) c (fresh _ _ (by omega))
  constructor
  next =>
    rw [line]
    exact ⟨undone.trans restored, by omega⟩
  next => exact h.framed
  next => exact h.fresh
  next => omega
  next => exact earlier
  next => omega

theorem Settled.entered {p q : Paper U8} {held : List U8} (h : Settled p q held)
    {out : List Output} (onward : Onward out) (framed : Framed p) :
    Settled (out.foldl emit p) ((Session.typed held ++ out).foldl emit q) [] := by
  have said := h.behind.emits onward
  have line := onward_typed.mpr fun c member => (h.ordinary c member).2
  have top := (framed_emits framed out).above
  rw [List.foldl_append]
  constructor
  next => exact said
  next => exact framed_emits (framed_emits h.framed _) _
  next => exact fresh_emits (fresh_emits h.fresh line) onward
  next =>
    rw [← said.alike.line]
    exact top
  next => simp
  next => exact (by decide : 0 < maxLine)

section Runs

variable (init : Pmm)

theorem Settled.observe {p q : Paper U8} {i : Interpreter} (h : Settled p q i.held)
    (framed : Framed p) {shown : Shown} (sent : ∀ c ∈ shown.key, c ≠ carriageReturn) :
    Settled ((i.observe init shown).1.foldl emit p) ((i.settle init shown).foldl emit q)
      (i.observe init shown).2.held := by
  cases shown with
  | received outcome => exact h
  | nothing => exact h
  | handled c ticks =>
      have plain : Plain i.held := fun d member => (h.ordinary d member).2
      simp only [Interpreter.observe, Interpreter.settle, Interpreter.key]
      by_cases isNewline : c = newline
      next =>
        rw [if_pos isNewline, if_pos isNewline]
        exact h.entered (onward_enter init ticks.toNat plain) framed
      rw [if_neg isNewline, if_neg isNewline]
      by_cases isBackspace : c = backspace
      next =>
        rw [if_pos isBackspace]
        by_cases empty : i.held = []
        next =>
          rw [if_pos empty]
          exact h
        next =>
          rw [if_neg empty]
          have split := List.dropLast_append_getLast empty
          rw [← split] at h
          exact h.rubbed
      rw [if_neg isBackspace]
      by_cases room : i.held.length < maxLine - 1
      next =>
        rw [if_pos room]
        exact h.typed ⟨isNewline, sent c rfl, isBackspace⟩ room
      next =>
        rw [if_neg room]
        exact h

theorem Settled.runs {p q : Paper U8} {i : Interpreter} (h : Settled p q i.held)
    (framed : Framed p) (log : List Shown)
    (sent : ∀ c ∈ log.filterMap Shown.key, c ≠ carriageReturn) :
    Behind ((i.runs init log).1.foldl emit p) ((i.dialogue init log).foldl emit q) ∧
      ∀ c ∈ (i.runs init log).2.held, Ordinary c := by
  induction log generalizing i p q with
  | nil => exact ⟨h.behind, h.ordinary⟩
  | cons shown rest ih =>
      rw [filterMap_split] at sent
      have next := h.observe init framed fun c member =>
        sent c (List.mem_append_left _ (Option.mem_toList.mpr member))
      have later := ih next (framed_emits framed _) fun c member =>
        sent c (List.mem_append_right _ member)
      simp only [Interpreter.runs, Interpreter.dialogue, List.foldl_append]
      exact later

end Runs

theorem translate_sent (shiftHeld scancode : U8) :
    Keyboard.translate shiftHeld scancode ≠ carriageReturn := by
  have tables : (Keyboard.scancodeNormal ++ Keyboard.scancodeShifted).all
      (fun c => c ≠ carriageReturn) = true := by decide +kernel
  rw [List.all_append, Bool.and_eq_true, List.all_eq_true, List.all_eq_true] at tables
  have looked (table : List U8) (sent : ∀ c ∈ table, decide (c ≠ carriageReturn) = true) (i : Nat) :
      table.getD i 0#8 ≠ carriageReturn := by
    rw [List.getD_eq_getElem?_getD]
    cases found : table[i]? with
    | none => decide
    | some c => exact of_decide_eq_true (sent c (List.mem_of_getElem? found))
  rw [Keyboard.translate]
  split
  next => exact looked _ tables.2 _
  next => exact looked _ tables.1 _

theorem keyboardHandler_sent {k : Keyboard} {scancode c : U8}
    (pushed : (k.keyboardHandler scancode).1 = .pushed c) : c ≠ carriageReturn := by
  have translated : Keyboard.translate k.shiftHeld scancode = c := by
    unfold Keyboard.keyboardHandler at pushed
    split at pushed
    next => cases pushed
    split at pushed
    next => cases pushed
    split at pushed
    next => cases pushed
    simp only at pushed
    split at pushed
    next => cases pushed
    split at pushed
    next => exact Keyboard.Outcome.pushed.inj pushed
    next => cases pushed
  exact translated ▸ translate_sent k.shiftHeld scancode

theorem step_sent {counterProcess : U32} {s s' : State} {e : Event} {shown : Shown}
    (taken : step counterProcess s e = some (shown, s')) :
    ∀ c ∈ shown.accepted, c ≠ carriageReturn := by
  intro c accepted
  by_cases stopped : s.pc.stopped = true
  next =>
    rw [step_stopped stopped e] at taken
    cases taken
    cases accepted
  cases e with
  | irq0 =>
      rw [step, if_neg stopped] at taken
      obtain ⟨kernel, -, result⟩ := Option.bind_eq_some_iff.mp taken
      cases result
      cases accepted
  | irq1 scancode =>
      rw [step, if_neg stopped] at taken
      simp only [Option.some.injEq, Prod.mk.injEq] at taken
      obtain ⟨rfl, -⟩ := taken
      cases pushed : (s.keyboard.keyboardHandler scancode).1 with
      | ignored => simp [Shown.accepted, pushed] at accepted
      | discarded d => simp [Shown.accepted, pushed] at accepted
      | pushed d =>
          obtain rfl : d = c := by simpa [Shown.accepted, pushed] using accepted
          exact keyboardHandler_sent pushed
  | statement junk =>
      obtain ⟨-, -, rfl | ⟨d, ticks, rfl⟩⟩ := statement_frame taken
      · cases accepted
      · cases accepted

theorem run_sent {counterProcess : U32} {s s' : State} {events : List Event} {log : List Shown}
    (taken : run counterProcess s events = some (log, s')) :
    ∀ c ∈ log.filterMap Shown.accepted, c ≠ carriageReturn := by
  induction events generalizing s log with
  | nil =>
      obtain ⟨rfl, -⟩ := Prod.mk.inj (Option.some.inj taken)
      simp
  | cons e rest ih =>
      obtain ⟨shown, s'', later, first, after, rfl⟩ := run_cons_eq taken
      intro c member
      rw [filterMap_split] at member
      rcases List.mem_append.mp member with now | then_
      · exact step_sent first c (Option.mem_toList.mp now)
      · exact ih after c then_

theorem settled_greeting :
    Settled ((fixed greeting).foldl emit (Paper.blank blankChar))
      ((fixed greeting).foldl emit (Paper.blank blankChar)) [] := by
  have onward : Onward (fixed greeting) := by
    have hint : Onward (fixed [.vgaPrint (ascii "Type 'help' to see all commands.\n\n")]) :=
      onward_print (plain_ascii _ rfl) (by simp [fixed, Onward])
    have parts : fixed greeting = fixed cmdBanner ++
        fixed [.vgaPrint (ascii "Type 'help' to see all commands.\n\n")] ++ fixed promptCalls := by
      simp [fixed, greeting]
    rw [parts]
    exact (onward_fixed.2.2.1.append hint).append onward_fixed.2.2.2.2.2
  have blank : Framed (Paper.blank blankChar) := Paper.framed_blank (by decide) (by decide)
  constructor
  next =>
    rw [typed, List.map_nil, List.foldl_nil]
    exact ⟨⟨rfl, rfl, rfl⟩, le_rfl⟩
  next => exact framed_emits blank _
  next => exact fresh_emits (fun _ _ _ => rfl) onward
  next => exact (framed_emits blank _).above
  next => simp
  next => exact (by decide : 0 < maxLine)

-- `pz`, a backspace, `s` and Enter.
def rubbing : List Event :=
  [.irq1 0x19#8, .irq1 0x2C#8, .irq1 0x0E#8, .irq1 0x1F#8, .irq1 0x1C#8] ++
    List.replicate 42 (.statement zeroJunk)

end Session

end SoraOS
