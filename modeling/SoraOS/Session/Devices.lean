import SoraOS.Boot.Pit
import SoraOS.Session.Typing

set_option autoImplicit false

/-! The shell on the machine: how the timer and the keyboard reach it through the controllers. -/

namespace SoraOS

namespace Boot

variable {σ : Type}

def outstanding (s : Machine σ) (line : Fin 8) : Nat :=
  (s.pics.pending (.inl line)).toNat + s.inHand.count line.val

theorem Accounts.outstanding {s s' : Machine σ} {note : Note} (h : Accounts s note s')
    {line : Fin 8} (device : line ≠ cascadeLine) (notLast : line.val ≠ 7) :
    Boot.outstanding s line + [note].count (.raised (.inl line)) =
      note.returned.toList.count line.val + [note].count (.dropped (.inl line)) +
        Boot.outstanding s' line := by
  have requests := h.requests (.inl line) (by simpa using device)
  have order := congrArg (List.count line.val) h.order
  rw [List.count_append, List.count_append] at order
  have taken : note.taken.toList.count line.val = [note].count (.delivered (.inl line)) := by
    cases note with
    | delivered input =>
        cases input with
        | inl l => simp [Note.taken, irqOf, List.count_singleton, Fin.ext_iff]
        | inr l =>
            have other : line.val ≠ l.val + 8 := by omega
            simp [Note.taken, irqOf, other.symm]
    | spurious vector =>
        rcases h.spurious vector rfl with rfl | rfl
        · simp [Note.taken, Ne.symm notLast]
        · have other : line.val ≠ 15 := by omega
          simp [Note.taken, other.symm]
    | _ => simp [Note.taken]
  rw [Boot.outstanding, Boot.outstanding]
  omega

theorem step_note {labels : Stubs.Labels} {s s' : Machine σ} {e : Event} {note : Note}
    (taken : step labels s e = some (note, s')) (notHandle : e ≠ .handle) :
    note.returned = none ∧ (∀ i, note = .raised i → e = .raise i) ∧
      (∀ i, note = .dropped i → e = .drop i) ∧
      (note.taken ≠ none → ∃ m, e = .interrupt m) := by
  cases e with
  | handle => exact absurd rfl notHandle
  | raise input =>
      rw [step] at taken
      split at taken
      next => cases taken; simp [Note.returned, Note.taken]
      next =>
        obtain ⟨rfl, -⟩ := Prod.mk.inj (Option.some.inj taken)
        split <;> simp [Note.returned, Note.taken]
  | drop input =>
      rw [step] at taken
      split at taken
      next => cases taken; simp [Note.returned, Note.taken]
      next =>
        obtain ⟨rfl, -⟩ := Prod.mk.inj (Option.some.inj taken)
        split <;> simp [Note.returned, Note.taken]
  | settle =>
      cases taken
      simp [Note.returned, Note.taken]
  | interrupt m =>
      rw [step, interrupt] at taken
      split at taken
      next => cases taken; simp [Note.returned, Note.taken]
      next =>
        dsimp only at taken
        split at taken
        next =>
          obtain ⟨rfl, -⟩ := Prod.mk.inj (Option.some.inj taken)
          split <;> simp [Note.returned]
        next => cases taken

end Boot

namespace Session

theorem step_tickCount {counterProcess : U32} {s s' : State} {e : Event} {shown : Shown}
    (alive : e.isTick = true → s.pc.stopped = false)
    (taken : step counterProcess s e = some (shown, s')) :
    s'.tickCount = s.tickCount + BitVec.ofNat 32 ([e].countP Event.isTick) := by
  cases e with
  | irq0 =>
      rw [step, if_neg (by simp [alive rfl])] at taken
      obtain ⟨kernel, -, taken⟩ := Option.bind_eq_some_iff.mp taken
      cases taken
      rfl
  | irq1 scancode =>
      have zero : BitVec.ofNat 32 ([Event.irq1 scancode].countP Event.isTick) = 0#32 := rfl
      rw [zero, BitVec.add_zero]
      rw [step] at taken
      split at taken
      next => cases taken; rfl
      next => cases taken; rfl
  | statement junk =>
      have zero : BitVec.ofNat 32 ([Event.statement junk].countP Event.isTick) = 0#32 := rfl
      rw [zero, BitVec.add_zero]
      exact (statement_frame taken).1

end Session

namespace Devices

open X86 Stubs Boot Conservation

def timerLine : Fin 8 := (0#3).toFin
def keyboardLine : Fin 8 := (1#3).toFin

/-- The shell, and the output buffer of the keyboard controller behind port 0x60. -/
structure World where
  session : Session.State
  data : U8
  full : Bool

def World.unread (w : World) : List U8 := if w.full then [w.data] else []

-- A note, the scancode that the output buffer has taken, and the event that it is for the shell.
structure Seen where
  note : Note
  sent : Option U8
  event : Option Session.Event

-- A handler works on the world, or on `none` where the model ends.
abbrev System := Boot.Machine (Option World)

def Seen.read (seen : Seen) : Option U8 := seen.event.bind Session.Event.code

/--
The timer asks, the keyboard has a scancode to send, another device asks or takes its request back,
the CPU takes an interrupt or finishes a handler, or the shell executes a statement.
-/
inductive Event where
  | tick
  | scancode (code : U8)
  | device (input : Fin 8 ⊕ Fin 8) (asks : Bool)
  | settle
  | interrupt (m : ByteMachine)
  | handle
  | statement (junk : Session.Junk)

def Event.isScancode : Event → Bool
  | .scancode _ => true
  | _ => false

section Machines

variable (counterProcess : U32) (labels : Labels)

-- `schedule()` does not return if it switches to another block: there the model ends.
def timerHandler (user : Option World) : Option World := do
  let w ← user
  let (_, session) ← Session.step counterProcess w.session .irq0
  match session.pc with
  | .lost => none
  | _ => return { w with session := session }

def keyboardHandler (user : Option World) : Option World := do
  let w ← user
  let (_, session) ← Session.step counterProcess w.session (.irq1 w.data)
  return { w with session := session, full := false }

def handlers : Handlers (Option World) :=
  irqRegisterHandler (irqRegisterHandler (Vector.replicate irqCount none) 0#8
    (timerHandler counterProcess)) 1#8 (keyboardHandler counterProcess)

def sessionEvent (w : World) : Note → Option Session.Event
  | .handled irq => if irq = 0 then some .irq0 else if irq = 1 then some (.irq1 w.data) else none
  | _ => none

def silent (s : System) : Option (Seen × System) :=
  some (⟨.nothing, none, none⟩, s)

def controllers (s : System) (e : Boot.Event) :
    Option (Seen × System) :=
  (Boot.step labels s e).map fun (note, s) => (⟨note, none, none⟩, s)

/--
The keyboard waits until its last byte has been read. A handler is not interrupted, and a halted
machine takes no interrupts.
-/
def step (s : System) : Event → Option (Seen × System)
  | .tick => controllers labels s (.raise (.inl timerLine))
  | .scancode code => do
      let w ← s.user
      if w.full then silent s
      else
        let loaded := { s with user := some { w with data := code, full := true } }
        let (note, s) ← Boot.step labels loaded (.raise (.inl keyboardLine))
        return (⟨note, some code, none⟩, s)
  | .device input asks =>
      if input = .inl timerLine ∨ input = .inl keyboardLine then silent s
      else controllers labels s (if asks then .raise input else .drop input)
  | .settle => controllers labels s .settle
  | .interrupt m => do
      let w ← s.user
      if w.session.pc.stopped then silent s else controllers labels s (.interrupt m)
  | .handle => do
      let w ← s.user
      let (note, s) ← Boot.step labels s .handle
      return (⟨note, none, sessionEvent w note⟩, s)
  | .statement junk =>
      match s.handling with
      | some _ => silent s
      | none => do
          let w ← s.user
          let (_, session) ← Session.step counterProcess w.session (.statement junk)
          return (⟨.nothing, none, some (.statement junk)⟩,
            { s with user := some { w with session := session } })

def proceed (s : System) (e : Event) : Option System := (step counterProcess labels s e).map Prod.snd

def Step (s : System) (e : Event) (s' : System) : Prop := proceed counterProcess labels s e = some s'

def exposed (s : System) : Bool :=
  match s.user with
  | some w => w.session.exposed
  | none => false

/-- The handler of the timer does not run where it would take the CPU away from the shell. -/
def Spared (s : System) : Event → Prop
  | .handle => 0 ∈ s.inHand → exposed s = false
  | _ => True

instance (s : System) : (e : Event) → Decidable (Spared s e)
  | .handle => inferInstanceAs (Decidable (0 ∈ s.inHand → exposed s = false))
  | .tick | .scancode _ | .device _ _ | .settle | .interrupt _ | .statement _ =>
      inferInstanceAs (Decidable True)

def run (s : System) : List Event → Option (List Seen × System)
  | [] => some ([], s)
  | e :: rest => do
      let (seen, s) ← step counterProcess labels s e
      let (later, s) ← run s rest
      return (seen :: later, s)

/-- The output buffer is full exactly while IRQ1 waits or is in service. -/
structure Joined (init : Pmm) (pids : Nat) (s : System) (w : World) : Prop where
  sound : Boot.Sound s
  handlers : s.handlers = handlers counterProcess
  user : s.user = some w
  follows : ∃ i p, Session.Follows init w.session i p ∧
    i.table.lastPid + w.session.unhandled.length + w.full.toNat ≤ pids
  unread : w.full.toNat = outstanding s keyboardLine
  alive : s.inHand ≠ [] → w.session.pc.stopped = false

structure Progress (s : System) (w : World) (log : List Seen)
    (s' : System) (w' : World) : Prop where
  session : ∃ shown, Session.run counterProcess w.session (log.filterMap Seen.event) =
    some (shown, w'.session)
  spared : Transition.Meets (Session.Step counterProcess) Session.Spared w.session
    (log.filterMap Seen.event)
  ticks : outstanding s timerLine + (log.map Seen.note).count (.raised (.inl timerLine)) =
    (log.filterMap Seen.event).countP Session.Event.isTick + outstanding s' timerLine
  codes : Conserved Seen.sent Seen.read w.unread log w'.unread
  time : w'.session.tickCount = w.session.tickCount +
    BitVec.ofNat 32 ((log.filterMap Seen.event).countP Session.Event.isTick)

end Machines

section Steps

variable {counterProcess : U32} {labels : Labels} {init : Pmm} {pids : Nat}
  {s s' s'' : System} {w w' w'' : World}

theorem progress_nil (s : System) (w : World) :
    Progress counterProcess s w [] s w :=
  ⟨⟨[], rfl⟩, trivial, by simp, conserved_nil, by simp⟩

theorem Progress.cons {seen : Seen} {log : List Seen}
    (first : Progress counterProcess s w [seen] s' w')
    (later : Progress counterProcess s' w' log s'' w'') :
    Progress counterProcess s w (seen :: log) s'' w'' := by
  have split : (seen :: log).filterMap Seen.event =
      [seen].filterMap Seen.event ++ log.filterMap Seen.event := by
    rw [← List.filterMap_append, List.singleton_append]
  constructor
  next =>
    obtain ⟨shown, ran⟩ := first.session
    obtain ⟨shown', ran'⟩ := later.session
    exact ⟨shown ++ shown', by rw [split, Session.run_append, ran, Option.bind_some, ran']; rfl⟩
  next =>
    obtain ⟨shown, ran⟩ := first.session
    rw [split]
    exact first.spared.append (Session.steps_of_run ran) later.spared
  next =>
    have now := first.ticks
    have then_ := later.ticks
    rw [split, List.countP_append, List.map_cons, ← List.singleton_append, List.count_append]
    simp only [List.map_cons, List.map_nil] at now
    omega
  next =>
    have now := first.codes
    rw [Conserved, filterMap_split, filterMap_split, List.filterMap_nil, List.filterMap_nil,
      List.append_nil, List.append_nil] at now
    exact conserved_cons now later.codes
  next =>
    rw [later.time, first.time, split, List.countP_append, BitVec.ofNat_add, BitVec.add_assoc]

theorem lines : timerLine ≠ cascadeLine ∧ keyboardLine ≠ cascadeLine ∧ timerLine.val = 0 ∧
    keyboardLine.val = 1 := by decide

theorem Joined.mono (h : Joined counterProcess init pids s w) {pids' : Nat} (le : pids ≤ pids') :
    Joined counterProcess init pids' s w := by
  obtain ⟨i, p, follows, bound⟩ := h.follows
  exact { h with follows := ⟨i, p, follows, bound.trans le⟩ }

theorem Joined.quietly (h : Joined counterProcess init pids s w) {note : Note}
    (sent : Option U8) (same : w'.session = w.session) (sound : Boot.Sound s')
    (accounts : Accounts { s with user := some w' } note s') (returned : note.returned = none)
    (kept : ∀ line ∈ [timerLine, keyboardLine], note ≠ .dropped (.inl line))
    (alive : note.taken ≠ none → w.session.pc.stopped = false)
    (codes : w.unread ++ sent.toList = w'.unread)
    (full : w'.full.toNat = w.full.toNat + [note].count (.raised (.inl keyboardLine))) :
    Joined counterProcess init (pids + [note].count (.raised (.inl keyboardLine))) s' w' ∧
      Progress counterProcess s w [⟨note, sent, none⟩] s' w' := by
  have order := accounts.order
  have timer := accounts.outstanding lines.1 (by rw [lines.2.2.1]; decide)
  have keyboard := accounts.outstanding lines.2.1 (by rw [lines.2.2.2]; decide)
  have noDrop (line : Fin 8) (member : line ∈ [timerLine, keyboardLine]) :
      [note].count (.dropped (.inl line)) = 0 :=
    List.count_eq_zero.mpr fun inside => kept line member (List.mem_singleton.mp inside).symm
  rw [noDrop timerLine (by simp), returned] at timer
  rw [noDrop keyboardLine (by simp), returned] at keyboard
  rw [returned] at order
  simp only [Option.toList_none, List.count_nil, List.nil_append, Nat.add_zero, Nat.zero_add]
    at timer keyboard order
  constructor
  next =>
    constructor
    next => exact sound
    next => exact accounts.handlers.trans h.handlers
    next =>
      have calls := accounts.calls
      rw [returned] at calls
      exact calls
    next =>
      obtain ⟨i, p, follows, bound⟩ := h.follows
      rw [same]
      exact ⟨i, p, follows, by omega⟩
    next =>
      have before : outstanding { s with user := some w' } keyboardLine =
          outstanding s keyboardLine := rfl
      have unread := h.unread
      omega
    next =>
      intro inHand
      rw [same]
      rw [← order] at inHand
      by_cases busy : s.inHand = []
      next =>
        apply alive
        intro none
        have idle : ({ s with user := some w' } : System).inHand = [] := busy
        rw [idle, none] at inHand
        exact inHand rfl
      next => exact h.alive busy
  next =>
    constructor
    next => exact ⟨[], by simp [Session.run, same]⟩
    next => exact trivial
    next =>
      have before : outstanding { s with user := some w' } timerLine =
          outstanding s timerLine := rfl
      simp only [List.map_cons, List.map_nil, List.filterMap_cons, List.filterMap_nil,
        List.countP_nil, Nat.zero_add]
      omega
    next => exact conserved_cons codes conserved_nil
    next => simp [same]

theorem Joined.silent (h : Joined counterProcess init pids s w) :
    ∃ seen s' w', Devices.silent s = some (seen, s') ∧ Joined counterProcess init pids s' w' ∧
      Progress counterProcess s w [seen] s' w' := by
  refine ⟨_, s, w, rfl, h, ?_⟩
  constructor
  next => exact ⟨[], rfl⟩
  next => exact trivial
  next => simp
  next => exact conserved_cons (List.append_nil _) conserved_nil
  next => simp

theorem Joined.controllers (h : Joined counterProcess init pids s w) {e : Boot.Event}
    (notHandle : e ≠ .handle) (notKey : e ≠ .raise (.inl keyboardLine))
    (kept : ∀ line ∈ [timerLine, keyboardLine], e ≠ .drop (.inl line))
    (alive : ∀ m, e = .interrupt m → w.session.pc.stopped = false) :
    ∃ seen s' w', Devices.controllers labels s e = some (seen, s') ∧
      Joined counterProcess init pids s' w' ∧ Progress counterProcess s w [seen] s' w' := by
  obtain ⟨note, s', taken, sound, accounts⟩ := h.sound.step labels e
  obtain ⟨returned, raised, dropped, answered⟩ := step_note taken notHandle
  have reload : { s with user := some w } = s := by rw [← h.user]
  have none : [note].count (.raised (.inl keyboardLine)) = 0 :=
    List.count_eq_zero.mpr fun inside => notKey (raised _ (List.mem_singleton.mp inside).symm)
  rw [← reload] at accounts
  have next := h.quietly Option.none rfl sound accounts returned
    (fun line member same => kept line member (dropped _ same))
    (fun took => (answered took).elim alive) (List.append_nil _) (by rw [none, Nat.add_zero])
  rw [none, Nat.add_zero] at next
  exact ⟨_, s', w, by rw [Devices.controllers, taken]; rfl, next⟩

theorem Joined.scancode (h : Joined counterProcess init pids s w) (code : U8) :
    ∃ seen s' w', step counterProcess labels s (.scancode code) = some (seen, s') ∧
      Joined counterProcess init (pids + 1) s' w' ∧ Progress counterProcess s w [seen] s' w' := by
  have user := h.user
  cases full : w.full with
  | true =>
      rw [step, user]
      simp only [Option.bind_eq_bind, Option.bind_some, full, if_true]
      exact (h.mono (Nat.le_succ _)).silent
  | false =>
      have unread := h.unread
      rw [full, outstanding] at unread
      have free : s.pics.pending (.inl keyboardLine) = false := by
        cases waiting : s.pics.pending (.inl keyboardLine) with
        | true =>
            rw [waiting, Bool.toNat_true, Bool.toNat_false] at unread
            omega
        | false => rfl
      obtain ⟨service, serves, idle, frames⟩ := h.sound
      have loaded : Boot.Sound
          { s with user := some { w with data := code, full := true } } :=
        ⟨service, serves, idle, frames⟩
      obtain ⟨note, s', taken, sound, accounts⟩ :=
        loaded.step labels (.raise (.inl keyboardLine))
      have first : note = .raised (.inl keyboardLine) := by
        have wire : (Sum.inl keyboardLine : Fin 8 ⊕ Fin 8) ≠ .inl cascadeLine := by decide
        simp only [Boot.step, if_neg wire, free, Bool.false_eq_true, if_false, Option.some.injEq,
          Prod.mk.injEq] at taken
        exact taken.1.symm
      subst first
      have once : [Note.raised (.inl keyboardLine)].count (.raised (.inl keyboardLine)) = 1 := by
        simp
      have same : ({ w with data := code, full := true } : World).session = w.session := rfl
      have next := h.quietly (some code) same sound accounts rfl (by simp)
        (by simp [Note.taken]) (by simp [World.unread, full]) (by simp [full])
      rw [once] at next
      refine ⟨_, s', { w with data := code, full := true }, ?_, next⟩
      rw [step, user]
      simp only [Option.bind_eq_bind, Option.bind_some, full, Bool.false_eq_true, if_false, taken]
      rfl

theorem call_handlers (user : Option World) (irq : Nat) :
    call (handlers counterProcess) user irq =
      if irq = 0 then timerHandler counterProcess user
      else if irq = 1 then keyboardHandler counterProcess user
      else user := by
  by_cases inside : irq < irqCount
  next =>
    have entry : (handlers counterProcess)[irq]? =
        some ((handlers counterProcess).get ⟨irq, inside⟩) := Vector.getElem?_eq_getElem inside
    rw [call, entry, handlers, handlers_booted]
    dsimp only
    by_cases timer : irq = 0
    next => rw [if_pos timer, if_pos timer]
    next =>
      rw [if_neg timer, if_neg timer]
      by_cases keyboard : irq = 1
      next => rw [if_pos keyboard, if_pos keyboard]
      next => rw [if_neg keyboard, if_neg keyboard]
  next =>
    have missing : (handlers counterProcess)[irq]? = none :=
      Vector.getElem?_eq_none (Nat.le_of_not_lt inside)
    have count : irqCount = 16 := rfl
    rw [call, missing, if_neg (by omega), if_neg (by omega)]

theorem sessionEvent_handled (w : World) (irq : Nat) :
    (sessionEvent w (.handled irq)).toList.countP Session.Event.isTick =
        (if irq = 0 then 1 else 0) ∧
      (sessionEvent w (.handled irq)).bind Session.Event.code =
        if irq = 1 then some w.data else none := by
  rw [sessionEvent]
  by_cases timer : irq = 0
  next => simp [timer, Session.Event.isTick, Session.Event.code]
  next =>
    by_cases keyboard : irq = 1
    next => simp [keyboard, Session.Event.isTick, Session.Event.code]
    next => simp [timer, keyboard]

theorem inHand_length {σ : Type} (s : Boot.Machine σ) : s.inHand.length ≤ 1 := by
  rw [Boot.Machine.inHand, List.length_map]
  cases s.handling <;> simp

theorem Joined.returned (h : Joined counterProcess init pids s w) {irq : Nat}
    (sound : Boot.Sound s') (accounts : Accounts s (.handled irq) s') (user : s'.user = some w')
    {shown : List Session.Shown}
    (ran : Session.run counterProcess w.session (sessionEvent w (.handled irq)).toList =
      some (shown, w'.session))
    (spared : Transition.Meets (Session.Step counterProcess) Session.Spared w.session
      (sessionEvent w (.handled irq)).toList)
    (follows : ∃ i p, Session.Follows init w'.session i p ∧
      i.table.lastPid + w'.session.unhandled.length + w'.full.toNat ≤ pids)
    (data : w'.data = w.data) (full : w'.full = (w.full && !decide (irq = 1)))
    (time : w'.session.tickCount = w.session.tickCount +
      BitVec.ofNat 32 ((sessionEvent w (.handled irq)).toList.countP Session.Event.isTick)) :
    Joined counterProcess init pids s' w' ∧
      Progress counterProcess s w [⟨.handled irq, none, sessionEvent w (.handled irq)⟩] s' w' := by
  have order := congrArg List.length accounts.order
  have timer := accounts.outstanding lines.1 (by rw [lines.2.2.1]; decide)
  have keyboard := accounts.outstanding lines.2.1 (by rw [lines.2.2.2]; decide)
  have most := inHand_length s
  have unread := h.unread
  rw [lines.2.2.1] at timer
  rw [lines.2.2.2] at keyboard
  simp only [Note.taken, Note.returned, Option.toList_none, Option.toList_some, List.append_nil,
    List.length_append, List.length_singleton] at order
  have done : s'.inHand = [] := List.eq_nil_of_length_eq_zero (by omega)
  have single (note : Note) (other : note ≠ .handled irq) : [Note.handled irq].count note = 0 :=
    List.count_eq_zero.mpr fun inside => other (List.mem_singleton.mp inside)
  rw [single _ (by simp), single _ (by simp)] at timer keyboard
  simp only [Note.returned, Option.toList_some, List.count_singleton, beq_iff_eq] at timer keyboard
  have bit := w.full.toNat_le
  constructor
  next =>
    constructor
    next => exact sound
    next => exact accounts.handlers.trans h.handlers
    next => exact user
    next => exact follows
    next =>
      rw [full]
      by_cases read : irq = 1
      next =>
        simp only [read, decide_true, Bool.not_true, Bool.and_false, Bool.toNat_false]
        rw [if_pos read] at keyboard
        omega
      next =>
        simp only [read, decide_false, Bool.not_false, Bool.and_true]
        rw [if_neg read] at keyboard
        omega
    next => exact fun inHand => absurd done inHand
  next =>
    have events :
        [Seen.mk (.handled irq) none (sessionEvent w (.handled irq))].filterMap Seen.event =
          (sessionEvent w (.handled irq)).toList := by
      rw [filterMap_split, List.filterMap_nil, List.append_nil]
    constructor
    next => exact ⟨shown, by rw [events, ran]⟩
    next => exact events ▸ spared
    next =>
      rw [events, List.map_cons, List.map_nil, single _ (by simp), (sessionEvent_handled w irq).1]
      omega
    next =>
      refine conserved_cons ?_ conserved_nil
      rw [Seen.read, (sessionEvent_handled w irq).2, World.unread, World.unread, full, data]
      by_cases read : irq = 1
      next =>
        have loaded : w.full = true := by
          cases held : w.full with
          | true => rfl
          | false =>
              rw [held, Bool.toNat_false] at unread
              rw [if_pos read] at keyboard
              omega
        simp [read, loaded]
      next => simp [read]
    next => rw [events, time]

theorem handle_note {σ : Type} {s s' : Boot.Machine σ} {note : Note}
    (taken : Boot.handle s = some (note, s')) :
    note = .nothing ∧ s' = s ∨ ∃ irq, note = .handled irq := by
  rw [Boot.handle] at taken
  split at taken
  next =>
    obtain ⟨rfl, rfl⟩ := Prod.mk.inj (Option.some.inj taken)
    exact .inl ⟨rfl, rfl⟩
  next =>
    split at taken
    next => cases taken
    next =>
      obtain ⟨rfl, -⟩ := Prod.mk.inj (Option.some.inj taken)
      exact .inr ⟨_, rfl⟩

theorem Joined.session (h : Joined counterProcess init pids s w) (more : pids < 2 ^ 32)
    {e : Session.Event} (spared : Session.Spared w.session e)
    (alive : e.isTick = true → w.session.pc.stopped = false) :
    ∃ shown session, Session.step counterProcess w.session e = some (shown, session) ∧
      session.pc ≠ .lost ∧ Session.run counterProcess w.session [e] = some ([shown], session) ∧
      Transition.Meets (Session.Step counterProcess) Session.Spared w.session [e] ∧
      (∃ i p, Session.Follows init session i p ∧ i.table.lastPid + session.unhandled.length +
        w.full.toNat ≤ pids + [e].countP Session.Event.isKey) ∧
      session.tickCount = w.session.tickCount +
        BitVec.ofNat 32 ([e].countP Session.Event.isTick) := by
  obtain ⟨i, p, follows, bound⟩ := h.follows
  obtain ⟨shown, session, first, kept, -⟩ := follows.step counterProcess (by omega) e
  obtain ⟨next, accounts⟩ := kept spared
  have most := accounts.pids init i
  have here : session.pc ≠ .lost := by
    intro lost
    have stage := next.stage
    rw [lost] at stage
    exact stage
  exact ⟨shown, session, first, here, by simp [Session.run, first],
    fun _ _ => ⟨spared, trivial⟩, ⟨_, _, next, by omega⟩, Session.step_tickCount alive first⟩

theorem Joined.handle (h : Joined counterProcess init pids s w) (more : pids < 2 ^ 32) :
    ∃ seen s', Devices.step counterProcess labels s .handle = some (seen, s') ∧
      (Spared s .handle → ∃ w', Joined counterProcess init pids s' w' ∧
        Progress counterProcess s w [seen] s' w') := by
  obtain ⟨note, s', taken, sound, accounts⟩ := h.sound.handle
  have result : Devices.step counterProcess labels s .handle =
      some (⟨note, none, sessionEvent w note⟩, s') := by
    rw [Devices.step, h.user]
    simp only [Option.bind_eq_bind, Option.bind_some, Boot.step, taken]
    rfl
  refine ⟨_, _, result, fun spared => ?_⟩
  rcases handle_note taken with ⟨rfl, rfl⟩ | ⟨irq, rfl⟩
  · obtain ⟨seen, s', w', idle, joined, progress⟩ := h.silent
    cases idle
    exact ⟨w', joined, progress⟩
  · have calls := accounts.calls
    simp only [Note.returned, Option.toList_some, List.foldl_cons, List.foldl_nil, h.handlers,
      h.user, call_handlers] at calls
    have handled : irq ∈ s.inHand := by
      have order := accounts.order
      simp only [Note.taken, Note.returned, Option.toList_none, Option.toList_some,
        List.append_nil] at order
      simp [order]
    have busy : s.inHand ≠ [] := List.ne_nil_of_mem handled
    by_cases timer : irq = 0
    next =>
      subst timer
      have outside : Session.Spared w.session .irq0 := by
        have closed := spared handled
        rwa [exposed, h.user] at closed
      obtain ⟨shown, session, first, here, ran, met, follows, time⟩ :=
        h.session more outside fun _ => h.alive busy
      have user : s'.user = some { w with session := session } := by
        rw [calls, if_pos rfl, timerHandler]
        simp only [Option.bind_eq_bind, Option.bind_some, first]
        rfl
      exact ⟨_, h.returned sound accounts user ran met follows rfl (by simp) time⟩
    by_cases keyboard : irq = 1
    next =>
      subst keyboard
      have loaded : w.full = true := by
        have unread := h.unread
        have waits := List.count_pos_iff.mpr handled
        rw [outstanding, lines.2.2.2] at unread
        cases held : w.full with
        | true => rfl
        | false =>
            rw [held, Bool.toNat_false] at unread
            omega
      obtain ⟨shown, session, first, -, ran, met, follows, time⟩ :=
        h.session more (e := .irq1 w.data) trivial fun _ => h.alive busy
      have user : s'.user = some { w with session := session, full := false } := by
        rw [calls, if_neg (by decide), if_pos rfl, keyboardHandler]
        simp only [Option.bind_eq_bind, Option.bind_some, first]
        rfl
      have fewer : ∃ i p, Session.Follows init session i p ∧
          i.table.lastPid + session.unhandled.length + false.toNat ≤ pids := by
        obtain ⟨i, p, follows, bound⟩ := follows
        have one : [Session.Event.irq1 w.data].countP Session.Event.isKey = 1 := rfl
        rw [one, loaded, Bool.toNat_true] at bound
        exact ⟨i, p, follows, by rw [Bool.toNat_false]; omega⟩
      exact ⟨_, h.returned sound accounts user ran met fewer rfl (by simp) time⟩
    next =>
      have none : sessionEvent w (.handled irq) = none := by
        rw [sessionEvent, if_neg timer, if_neg keyboard]
      rw [if_neg timer, if_neg keyboard] at calls
      have ran : Session.run counterProcess w.session (sessionEvent w (.handled irq)).toList =
          some ([], w.session) := by
        rw [none]
        rfl
      have met : Transition.Meets (Session.Step counterProcess) Session.Spared w.session
          (sessionEvent w (.handled irq)).toList := by
        rw [none]
        trivial
      exact ⟨w, h.returned sound accounts calls ran met h.follows rfl (by simp [keyboard])
        (by simp [none])⟩

theorem Joined.statement (h : Joined counterProcess init pids s w) (more : pids < 2 ^ 32)
    (junk : Session.Junk) :
    ∃ seen s' w', Devices.step counterProcess labels s (.statement junk) = some (seen, s') ∧
      Joined counterProcess init pids s' w' ∧ Progress counterProcess s w [seen] s' w' := by
  rcases Option.eq_none_or_eq_some s.handling with handling | ⟨regs, handling⟩
  · obtain ⟨shown, session, first, -, ran, met, follows, time⟩ :=
      h.session more (e := .statement junk) trivial (by simp [Session.Event.isTick])
    have idle : s.inHand = [] := by
      rw [Boot.Machine.inHand, handling]
      rfl
    have result : Devices.step counterProcess labels s (.statement junk) =
        some (⟨.nothing, none, some (.statement junk)⟩,
          { s with user := some { w with session := session } }) := by
      simp only [Devices.step, handling, h.user, Option.bind_eq_bind, Option.bind_some, first]
      rfl
    refine ⟨_, _, { w with session := session }, result, ?_, ?_⟩
    · exact {
        sound := h.sound
        handlers := h.handlers
        user := rfl
        follows := follows
        unread := h.unread
        alive := fun inHand => absurd idle inHand }
    · constructor
      next => exact ⟨_, ran⟩
      next => exact met
      next =>
        have same : outstanding { s with user := some { w with session := session } } timerLine =
            outstanding s timerLine := rfl
        simp [Session.Event.isTick, same]
      next => exact conserved_cons (List.append_nil _) conserved_nil
      next => exact time
  · have result : Devices.step counterProcess labels s (.statement junk) = Devices.silent s := by
      simp only [Devices.step, handling]
    rw [result]
    exact h.silent

theorem Joined.step (h : Joined counterProcess init pids s w) (more : pids < 2 ^ 32)
    (labels : Labels) (e : Event) :
    ∃ seen s', Devices.step counterProcess labels s e = some (seen, s') ∧
      (Spared s e → ∃ w', Joined counterProcess init (pids + [e].countP Event.isScancode) s' w' ∧
        Progress counterProcess s w [seen] s' w') := by
  have always {o : Option (Seen × System)} {pids' : Nat}
      (taken : ∃ seen s' w', o = some (seen, s') ∧ Joined counterProcess init pids' s' w' ∧
        Progress counterProcess s w [seen] s' w') :
      ∃ seen s', o = some (seen, s') ∧ (Spared s e → ∃ w',
        Joined counterProcess init pids' s' w' ∧ Progress counterProcess s w [seen] s' w') := by
    obtain ⟨seen, s', w', taken, both⟩ := taken
    exact ⟨seen, s', taken, fun _ => ⟨w', both⟩⟩
  cases e with
  | tick =>
      have others : timerLine ≠ keyboardLine := by decide
      exact always (h.controllers (by simp) (by simpa using others) (by simp) (by simp))
  | scancode code => exact always (h.scancode code)
  | settle => exact always (h.controllers (by simp) (by simp) (by simp) (by simp))
  | handle => exact h.handle more
  | statement junk => exact always (h.statement more junk)
  | device input asks =>
      rw [Devices.step]
      by_cases own : input = .inl timerLine ∨ input = .inl keyboardLine
      next =>
        rw [if_pos own]
        exact always h.silent
      next =>
        rw [if_neg own]
        rw [not_or] at own
        cases asks with
        | true => exact always (h.controllers (by simp) (by simpa using own.2) (by simp) (by simp))
        | false => exact always (h.controllers (by simp) (by simp) (by simpa using own) (by simp))
  | interrupt m =>
      rw [Devices.step, h.user]
      simp only [Option.bind_eq_bind, Option.bind_some]
      split
      next => exact always h.silent
      next alive =>
        exact always (h.controllers (by simp) (by simp) (by simp) fun _ _ => by simpa using alive)

theorem Joined.run (h : Joined counterProcess init pids s w) (labels : Labels) (events : List Event)
    (few : pids + events.countP Event.isScancode < 2 ^ 32)
    (spared : Transition.Meets (Step counterProcess labels) Spared s events) :
    ∃ log s' w', Devices.run counterProcess labels s events = some (log, s') ∧
      Joined counterProcess init (pids + events.countP Event.isScancode) s' w' ∧
      Progress counterProcess s w log s' w' := by
  induction events generalizing s w pids with
  | nil => exact ⟨_, _, w, rfl, h, progress_nil s w⟩
  | cons e rest ih =>
      rw [← List.singleton_append, List.countP_append, ← Nat.add_assoc] at few ⊢
      obtain ⟨seen, s', first, kept⟩ := h.step (by omega) labels e
      have taken : Step counterProcess labels s e s' := by
        rw [Step, proceed, first]
        rfl
      obtain ⟨now, onward⟩ := spared s' taken
      obtain ⟨w', next, progress⟩ := kept now
      obtain ⟨log, s'', w'', later, last, progress'⟩ := ih next few onward
      exact ⟨seen :: log, s'', w'', by simp [Devices.run, first, later], last,
        progress.cons progress'⟩

theorem steps_of_run {events : List Event} {log : List Seen}
    (ran : Devices.run counterProcess labels s events = some (log, s')) :
    events.foldlM (proceed counterProcess labels) s = some s' := by
  induction events generalizing s log with
  | nil =>
      cases ran
      rfl
  | cons e rest ih =>
      obtain ⟨⟨seen, middle⟩, first, ran⟩ := Option.bind_eq_some_iff.mp ran
      obtain ⟨⟨later, last⟩, after, result⟩ := Option.bind_eq_some_iff.mp ran
      cases result
      rw [List.foldlM_cons, proceed, first]
      exact ih after

theorem step_sent {e : Event} {seen : Seen}
    (taken : Devices.step counterProcess labels s e = some (seen, s')) :
    seen.sent.toList.length ≤ [e].countP Event.isScancode := by
  have controlled {e : Boot.Event} (taken : Devices.controllers labels s e = some (seen, s')) :
      seen.sent = none := by
    obtain ⟨r, -, result⟩ := Option.map_eq_some_iff.mp taken
    cases result
    rfl
  have quiet (taken : Devices.silent s = some (seen, s')) : seen.sent = none := by
    cases taken
    rfl
  cases e with
  | scancode code => exact Option.length_toList_le
  | tick => simp [controlled taken]
  | settle => simp [controlled taken]
  | device input asks =>
      rw [Devices.step] at taken
      split at taken
      next => simp [quiet taken]
      next => simp [controlled taken]
  | interrupt m =>
      obtain ⟨w, -, taken⟩ := Option.bind_eq_some_iff.mp taken
      split at taken
      next => simp [quiet taken]
      next => simp [controlled taken]
  | handle =>
      obtain ⟨w, -, taken⟩ := Option.bind_eq_some_iff.mp taken
      obtain ⟨r, -, result⟩ := Option.bind_eq_some_iff.mp taken
      cases result
      exact Nat.zero_le _
  | statement junk =>
      rw [Devices.step] at taken
      split at taken
      next => simp [quiet taken]
      next =>
        obtain ⟨w, -, taken⟩ := Option.bind_eq_some_iff.mp taken
        obtain ⟨r, -, result⟩ := Option.bind_eq_some_iff.mp taken
        cases result
        exact Nat.zero_le _

theorem run_sent {events : List Event} {log : List Seen}
    (ran : Devices.run counterProcess labels s events = some (log, s')) :
    (log.filterMap Seen.sent).length ≤ events.countP Event.isScancode := by
  induction events generalizing s log with
  | nil =>
      cases ran
      exact le_rfl
  | cons e rest ih =>
      obtain ⟨⟨seen, middle⟩, first, ran⟩ := Option.bind_eq_some_iff.mp ran
      obtain ⟨⟨later, last⟩, after, result⟩ := Option.bind_eq_some_iff.mp ran
      cases result
      have now := step_sent first
      have then_ := ih after
      rw [filterMap_split, List.length_append, ← List.singleton_append (l := rest),
        List.countP_append]
      omega

theorem Progress.keys {events : List Event} {log : List Seen}
    (h : Progress counterProcess s w log s' w') (empty : w.unread = [])
    (ran : Devices.run counterProcess labels s events = some (log, s')) :
    (log.filterMap Seen.event).countP Session.Event.isKey ≤ events.countP Event.isScancode := by
  have sent := run_sent ran
  have codes := congrArg List.length h.codes
  have same : (log.filterMap Seen.read).length =
      (log.filterMap Seen.event).countP Session.Event.isKey := by
    rw [Session.countP_isKey, List.filterMap_filterMap]
    rfl
  rw [empty, List.nil_append, List.length_append, same] at codes
  omega

end Steps

theorem joined_started {init : Pmm} (counterProcess : U32) {session : Session.State}
    {i : Session.Interpreter} {p : Paper U8} (follows : Session.Follows init session i p)
    (pics : I8259.Pair) (data : U8) :
    Joined counterProcess init (i.table.lastPid + session.unhandled.length)
      (started pics (handlers counterProcess) (some ⟨session, data, false⟩))
      ⟨session, data, false⟩ := by
  constructor
  next => exact sound_started pics _ _
  next => rfl
  next => rfl
  next => exact ⟨i, p, follows, le_rfl⟩
  next =>
    rw [outstanding, started, picWrites_picInit]
    rfl
  next => exact fun inHand => absurd rfl inHand

section Shell

open Vga Session

/--
What the shell gets: a run of its own, in which it reads every scancode once and in order and counts
every tick that has not been merged with a waiting one. The screen shows what the interpreter
answers, as far as the answer to the last line is printed.
-/
structure Delivered (counterProcess : U32) (init : Pmm) (session : Session.State) (log : List Seen)
    (s : System) (w : World) (shown : List Session.Shown) : Prop where
  user : s.user = some w
  ran : Session.run counterProcess session (log.filterMap Seen.event) = some (shown, w.session)
  codes : log.filterMap Seen.sent =
    (log.filterMap Seen.event).filterMap Session.Event.code ++ w.unread
  ticks : (log.map Seen.note).count (.raised (.inl timerLine)) =
    (log.filterMap Seen.event).countP Session.Event.isTick + outstanding s timerLine
  time : w.session.tickCount = session.tickCount +
    BitVec.ofNat 32 ((log.filterMap Seen.event).countP Session.Event.isTick)
  inBounds : w.session.vga.inBounds = true
  screen : w.session.vga.shown = sheet ((fixed greeting ++
    (Interpreter.initial.runs init shown).1 ++ w.session.pc.printed).foldl emit
      (Paper.blank blankChar))
  printed : ∃ ticks, w.session.pc.printed <+:
      ((Interpreter.initial.runs init shown).2.enter init ticks).1 ∧
    (w.session.pc.inCommand = false → w.session.pc.printed = [])

theorem delivered_of_follows {init : Pmm} {session : Session.State}
    (follows : Session.Follows init session Interpreter.initial
      ((fixed greeting).foldl emit (Paper.blank blankChar))) (nothing : session.unhandled = [])
    (counterProcess : U32) (labels : Labels) (pics : I8259.Pair) (data : U8)
    (events : List Devices.Event) (few : events.countP Devices.Event.isScancode + 1 < 2 ^ 32)
    (spared : Transition.Meets (Devices.Step counterProcess labels) Devices.Spared
      (started pics (handlers counterProcess) (some ⟨session, data, false⟩)) events) :
    ∃ log s w shown, Devices.run counterProcess labels
        (started pics (handlers counterProcess) (some ⟨session, data, false⟩)) events =
          some (log, s) ∧ Delivered counterProcess init session log s w shown := by
  have first : Interpreter.initial.table.lastPid = 1 := rfl
  have joined := joined_started counterProcess follows pics data
  rw [nothing, List.length_nil, first] at joined
  obtain ⟨log, s, w, ran, joined, progress⟩ := joined.run labels events (by omega) spared
  obtain ⟨shown, told⟩ := progress.session
  obtain ⟨shown', last, again, final, -⟩ :=
    follows.run counterProcess (log.filterMap Seen.event) progress.spared (by
      have keys := progress.keys rfl ran
      rw [nothing, List.length_nil]
      omega)
  obtain ⟨rfl, rfl⟩ := Prod.mk.inj (Option.some.inj (told.symm.trans again))
  have quiet : outstanding (started pics (handlers counterProcess) (some ⟨session, data, false⟩))
      timerLine = 0 := by
    rw [outstanding, started, picWrites_picInit]
    rfl
  have ticks := progress.ticks
  have codes := progress.codes
  rw [quiet, Nat.zero_add] at ticks
  rw [Conserved] at codes
  refine ⟨log, s, w, shown, ran, ?_⟩
  constructor
  next => exact joined.user
  next => exact told
  next =>
    rw [List.filterMap_filterMap]
    exact codes
  next => exact ticks
  next => exact progress.time
  next => exact final.inBounds
  next =>
    rw [List.foldl_append, List.foldl_append]
    exact final.paper.shown
  next => exact final.printed

def interrupted : ByteMachine :=
  ⟨⟨fun _ => 0#32, fun _ => 0#16, 0#32, 0x200#32⟩, fun _ => 0#8⟩

def served (request : Devices.Event) : List Devices.Event :=
  [request, .interrupt interrupted, .handle]

def ticks (n : Nat) : List Devices.Event :=
  (List.replicate n (served .tick ++ [.statement zeroJunk])).flatten

-- The typist of the session, at the keyboard. The CPU takes each tick at once, but for the one
-- behind `create_process`, which waits until the new block is BLOCKED.
def keysAndTicks : List Devices.Event :=
  [0x31#8, 0x12#8, 0x11#8, 0x19#8, 0x13#8, 0x18#8, 0x2E#8, 0x12#8, 0x1F#8, 0x1F#8, 0x1C#8].flatMap
      (fun code => served (.scancode code)) ++
    List.replicate 55 (.statement zeroJunk) ++ ticks 43 ++ [.tick, .statement zeroJunk] ++ ticks 13

def noLabels : Labels := ⟨fun _ => 0#32, 0#32, 0#32, 0#32⟩

def atShell (k : Kernel Slot) : Devices.System :=
  started remapped (handlers 0x100200#32) (some ⟨typist k, 0#8, false⟩)

theorem keysAndTicks_spared :
    ∃ init k, Pmm.pmmInit Stacks.sixtyFourPagesRam Stacks.sixtyFourPagesInfo 0x110000#32 2 =
        some init ∧ (Kernel.bss init 0x110000#32 fun _ => 0#32).schedulerInit 0x100100#32 = some k ∧
      Transition.Meets (Devices.Step 0x100200#32 noLabels) Devices.Spared (atShell k) keysAndTicks ∧
      ∃ s w, keysAndTicks.foldlM (Devices.proceed 0x100200#32 noLabels) (atShell k) = some s ∧
        s.user = some w ∧ w.session.pc.inCommand = false ∧ w.session.tickCount = 356#32 ∧
        w.session.kernel.cmdPs = some [⟨1#32, .running, 0#8⟩, ⟨2#32, .blocked, 1#8⟩] := by
  have evaluated : ((Pmm.pmmInit Stacks.sixtyFourPagesRam Stacks.sixtyFourPagesInfo 0x110000#32
      2).bind fun init => ((Kernel.bss init 0x110000#32 fun _ => 0#32).schedulerInit
        0x100100#32).bind fun k => (keysAndTicks.foldlM (fun s e =>
          if Devices.Spared s e then Devices.proceed 0x100200#32 noLabels s e else none)
            (atShell k)).bind fun s => s.user.map fun w => decide (
              w.session.pc.inCommand = false ∧ w.session.tickCount = 356#32 ∧
              w.session.kernel.cmdPs =
                some [⟨1#32, .running, 0#8⟩, ⟨2#32, .blocked, 1#8⟩])) = some true := by
    decide +kernel
  obtain ⟨init, started, afterInit⟩ := Option.bind_eq_some_iff.mp evaluated
  obtain ⟨k, booted, afterBoot⟩ := Option.bind_eq_some_iff.mp afterInit
  obtain ⟨s, ran, afterRun⟩ := Option.bind_eq_some_iff.mp afterBoot
  obtain ⟨w, user, values⟩ := Option.map_eq_some_iff.mp afterRun
  exact ⟨init, k, started, booted, .of_run ran, s, w, Transition.run_of_guarded ran, user,
    of_decide_eq_true values⟩

end Shell

end Devices

end SoraOS
