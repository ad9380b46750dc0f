import Mathlib.Data.BitVec
import Mathlib.Data.Fin.Basic
import Mathlib.Logic.Function.Basic

set_option autoImplicit false

/-!
# A pair of 8259A interrupt controllers

Edge-triggered, with fixed priorities: line 0 is the first. One input of the master carries the
interrupt output of the slave. Rotations and the commands of OCW3 are left out.
-/

namespace I8259

-- What the next write to the data port is taken for.
inductive Stage where
  | icw2
  | icw3
  | icw4
  | ready
  deriving DecidableEq

structure Chip where
  stage : Stage
  -- bits 0 and 1 of ICW1
  icw4 : Bool
  single : Bool
  offset : BitVec 8
  cascade : BitVec 8
  mode : BitVec 8
  masked : BitVec 8
  requests : Fin 8 → Bool
  inService : Fin 8 → Bool

namespace Chip

def first (lines : Fin 8 → Bool) : Option (Fin 8) := (List.finRange 8).find? lines

/-- A write to the command port: ICW1, or an end of interrupt. -/
def command (c : Chip) (w : BitVec 8) : Chip :=
  if w.getLsbD 4 then
    { c with
      stage := .icw2
      icw4 := w.getLsbD 0
      single := w.getLsbD 1
      mode := 0#8
      masked := 0#8
      requests := fun _ => false
      inService := fun _ => false }
  else if w.getLsbD 3 || w.getLsbD 7 || !w.getLsbD 5 then c
  else if w.getLsbD 6 then
    { c with inService := Function.update c.inService (Fin.ofNat 8 w.toNat) false }
  else
    match first c.inService with
    | some line => { c with inService := Function.update c.inService line false }
    | none => c

def data (c : Chip) (w : BitVec 8) : Chip :=
  let last : Stage := if c.icw4 then .icw4 else .ready
  match c.stage with
  | .icw2 => { c with offset := w &&& 0xF8#8, stage := if c.single then last else .icw3 }
  | .icw3 => { c with cascade := w, stage := last }
  | .icw4 => { c with mode := w, stage := .ready }
  | .ready => { c with masked := w }

def deliverable (c : Chip) (line : Fin 8) : Bool :=
  c.requests line && !c.masked.getLsbD line &&
    (List.finRange 8).all fun before => before > line || !c.inService before

def next (c : Chip) : Option (Fin 8) := if c.stage = .ready then first c.deliverable else none

def accept (c : Chip) (line : Fin 8) : Chip :=
  { c with
    requests := Function.update c.requests line false
    -- bit 1 of ICW4: automatic end of interrupt
    inService := Function.update c.inService line (!c.mode.getLsbD 1) }

def raise (c : Chip) (line : Fin 8) : Chip :=
  { c with requests := Function.update c.requests line true }

def drop (c : Chip) (line : Fin 8) : Chip :=
  { c with requests := Function.update c.requests line false }

def vector (c : Chip) (line : Fin 8) : BitVec 8 := c.offset + BitVec.ofNat 8 line

end Chip

structure Pair where
  master : Chip
  slave : Chip

namespace Pair

-- The input of the master that is wired to the slave.
variable (wired : Fin 8)

-- The interrupt output of the slave has gone up: the master latches it like any other request.
def edge (before : Option (Fin 8)) (p : Pair) : Pair :=
  if before = none ∧ p.slave.next ≠ none then { p with master := p.master.raise wired } else p

inductive Port where
  | masterCommand
  | masterData
  | slaveCommand
  | slaveData
  deriving DecidableEq

def outb (p : Pair) (port : Port) (w : BitVec 8) : Pair :=
  edge wired p.slave.next <|
    match port with
    | .masterCommand => { p with master := p.master.command w }
    | .masterData => { p with master := p.master.data w }
    | .slaveCommand => { p with slave := p.slave.command w }
    | .slaveData => { p with slave := p.slave.data w }

def raise (p : Pair) : Fin 8 ⊕ Fin 8 → Pair
  | .inl line => { p with master := p.master.raise line }
  | .inr line => edge wired p.slave.next { p with slave := p.slave.raise line }

-- A device takes its request back; the master still holds the one that the slave made of it.
def drop (p : Pair) : Fin 8 ⊕ Fin 8 → Pair
  | .inl line => { p with master := p.master.drop line }
  | .inr line => { p with slave := p.slave.drop line }

def settle (p : Pair) : Pair :=
  if p.slave.next = none then { p with master := p.master.drop wired } else p

/--
The CPU acknowledges an interrupt. A request that is gone by then is answered with line 7 of the
chip that finds none, and this chip has nothing in service for it. The output of the slave goes
down while it answers.
-/
def acknowledge (p : Pair) : BitVec 8 × Pair :=
  match p.master.next with
  | none => (p.master.vector 7, p)
  | some line =>
      let p := { p with master := p.master.accept line }
      if p.master.cascade.getLsbD line && p.slave.cascade.toNat % 8 == line.val then
        match p.slave.next with
        | none => (p.slave.vector 7, p)
        | some line => (p.slave.vector line, edge wired none { p with slave := p.slave.accept line })
      else (p.master.vector line, p)

end Pair

theorem first_eq_none {lines : Fin 8 → Bool} :
    Chip.first lines = none ↔ ∀ line, lines line = false := by
  simp [Chip.first, List.find?_eq_none]

theorem first_eq_some {lines : Fin 8 → Bool} {line : Fin 8} (found : Chip.first lines = some line) :
    lines line = true ∧ ∀ before < line, lines before = false := by
  obtain ⟨hit, i, inside, here, earlier⟩ := List.find?_eq_some_iff_getElem.mp found
  refine ⟨hit, ?_⟩
  intro before less
  have position : i = line.val := by simpa [Fin.ext_iff] using here
  have missed := earlier before.val (by rw [position]; exact less)
  simpa using missed

def only (line : Option (Fin 8)) : Fin 8 → Bool := fun l => line = some l

theorem update_only (line : Fin 8) : Function.update (only none) line true = only (some line) := by
  funext l
  by_cases same : l = line
  next => simp [same, only]
  next => simp [same, Ne.symm same, only]

theorem update_only_some (line : Fin 8) :
    Function.update (only (some line)) line false = only none := by
  funext l
  by_cases same : l = line
  next => simp [same, only]
  next => simp [same, Ne.symm same, only]

namespace Chip

/-- Initialised, unmasked, and without the automatic end of interrupt. -/
structure Configured (offset cascade : BitVec 8) (c : Chip) : Prop where
  stage : c.stage = .ready
  offset : c.offset = offset
  cascade : c.cascade = cascade
  manual : c.mode.getLsbD 1 = false
  unmasked : c.masked = 0#8

variable {offset cascade : BitVec 8} {c : Chip}

theorem Configured.next (h : c.Configured offset cascade) (idle : c.inService = only none) :
    c.next = first c.requests := by
  have all : c.deliverable = c.requests := by
    funext line
    simp [deliverable, h.unmasked, idle, only]
  rw [Chip.next, if_pos h.stage, all]

theorem Configured.accept (h : c.Configured offset cascade) (line : Fin 8) :
    (c.accept line).Configured offset cascade :=
  ⟨h.stage, h.offset, h.cascade, h.manual, h.unmasked⟩

theorem Configured.accept_inService (h : c.Configured offset cascade)
    (idle : c.inService = only none) (line : Fin 8) :
    (c.accept line).inService = only (some line) := by
  rw [Chip.accept, h.manual, idle]
  exact update_only line

theorem Configured.eoi (h : c.Configured offset cascade) {line : Option (Fin 8)}
    (serving : c.inService = only line) :
    (c.command 0x20#8).Configured offset cascade ∧ (c.command 0x20#8).inService = only none ∧
      (c.command 0x20#8).requests = c.requests := by
  have plain : c.command 0x20#8 =
      match first c.inService with
      | some line => { c with inService := Function.update c.inService line false }
      | none => c := rfl
  rw [plain]
  cases line with
  | none =>
      have nothing : first c.inService = none := by
        rw [first_eq_none, serving]
        exact fun _ => rfl
      rw [nothing]
      exact ⟨h, serving, rfl⟩
  | some line =>
      have found : first c.inService = some line := by
        cases lowest : first c.inService with
        | none =>
            have missing := first_eq_none.mp lowest line
            rw [serving] at missing
            simp [only] at missing
        | some l =>
            have hit := (first_eq_some lowest).1
            rw [serving] at hit
            simpa [only, eq_comm] using hit
      rw [found]
      refine ⟨⟨h.stage, h.offset, h.cascade, h.manual, h.unmasked⟩, ?_, rfl⟩
      rw [serving]
      exact update_only_some line

-- Fewer requests, or more in service, do not bring anything forward.
theorem next_drop (c : Chip) (line : Fin 8) (some : (c.drop line).next ≠ none) : c.next ≠ none := by
  unfold Chip.next at some ⊢
  by_cases ready : c.stage = .ready
  next =>
    rw [if_pos ready]
    have ready' : (c.drop line).stage = .ready := ready
    rw [if_pos ready'] at some
    intro nothing
    apply some
    rw [first_eq_none] at nothing ⊢
    intro l
    have before := nothing l
    by_cases same : l = line
    next => simp [deliverable, drop, same]
    next => simpa [deliverable, drop, same] using before
  next =>
    have ready' : ¬(c.drop line).stage = .ready := ready
    rw [if_neg ready'] at some
    exact absurd rfl some

end Chip

/-- What the CPU has been answered last and not ended yet. -/
inductive Service where
  | nothing
  | master (line : Fin 8)
  | slave (line : Fin 8)
  -- the slave's request was gone
  | lost

namespace Service

variable (wired : Fin 8)

def inMaster : Service → Option (Fin 8)
  | .nothing => none
  | .master line => some line
  | .slave _ | .lost => some wired

def inSlave : Service → Option (Fin 8)
  | .slave line => some line
  | _ => none

def input : Service → Option (Fin 8 ⊕ Fin 8)
  | .master line => some (.inl line)
  | .slave line => some (.inr line)
  | _ => none

def vector (offset offset' : BitVec 8) : Service → BitVec 8
  | .nothing => offset + BitVec.ofNat 8 7
  | .master line => offset + BitVec.ofNat 8 line
  | .slave line => offset' + BitVec.ofNat 8 line
  | .lost => offset' + BitVec.ofNat 8 7

end Service

namespace Pair

variable {wired : Fin 8} {offset offset' : BitVec 8} {p : Pair}

def pending (p : Pair) : Fin 8 ⊕ Fin 8 → Bool
  | .inl line => p.master.requests line
  | .inr line => p.slave.requests line

-- The slave's lines stand between those of the master.
def rank (wired : Fin 8) : Fin 8 ⊕ Fin 8 → Nat
  | .inl line => if line < wired then line else line + 8
  | .inr line => wired + line

/-- Both chips are set up for the wire between them, and just this is in service. -/
structure Serves (wired : Fin 8) (offset offset' : BitVec 8) (p : Pair) (service : Service) :
    Prop where
  master : p.master.Configured offset (BitVec.twoPow 8 wired)
  slave : p.slave.Configured offset' (BitVec.ofNat 8 wired)
  inMaster : p.master.inService = only (service.inMaster wired)
  inSlave : p.slave.inService = only service.inSlave
  latched : p.slave.next ≠ none → p.master.requests wired = true

theorem outb_masterCommand (p : Pair) (w : BitVec 8) :
    p.outb wired .masterCommand w = { p with master := p.master.command w } := by
  simp only [outb, edge]
  rw [if_neg fun both => both.2 both.1]

theorem outb_masterData (p : Pair) (w : BitVec 8) :
    p.outb wired .masterData w = { p with master := p.master.data w } := by
  simp only [outb, edge]
  rw [if_neg fun both => both.2 both.1]

theorem outb_slaveCommand {p : Pair} {w : BitVec 8} (low : (p.slave.command w).next = none) :
    p.outb wired .slaveCommand w = { p with slave := p.slave.command w } := by
  simp only [outb, edge]
  rw [if_neg fun both => both.2 low]

theorem outb_slaveData {p : Pair} {w : BitVec 8} (low : (p.slave.data w).next = none) :
    p.outb wired .slaveData w = { p with slave := p.slave.data w } := by
  simp only [outb, edge]
  rw [if_neg fun both => both.2 low]

theorem edge_slave (before : Option (Fin 8)) (p : Pair) : (edge wired before p).slave = p.slave := by
  unfold edge
  split <;> rfl

theorem edge_inService (before : Option (Fin 8)) (p : Pair) :
    (edge wired before p).master.inService = p.master.inService := by
  unfold edge
  split <;> rfl

theorem edge_requests (before : Option (Fin 8)) (p : Pair) {line : Fin 8} (other : line ≠ wired) :
    (edge wired before p).master.requests line = p.master.requests line := by
  unfold edge
  split
  next => simp [Chip.raise, other]
  next => rfl

theorem edge_configured {before : Option (Fin 8)} {p : Pair} {cascade : BitVec 8}
    (h : p.master.Configured offset cascade) :
    (edge wired before p).master.Configured offset cascade := by
  unfold edge
  split
  next => exact ⟨h.stage, h.offset, h.cascade, h.manual, h.unmasked⟩
  next => exact h

-- A rise is latched, and what was up before has been latched then.
theorem edge_latched {before : Option (Fin 8)} {p : Pair}
    (held : before ≠ none → p.master.requests wired = true) :
    (edge wired before p).slave.next ≠ none →
      (edge wired before p).master.requests wired = true := by
  intro up
  rw [edge_slave] at up
  unfold edge
  by_cases low : before = none
  next =>
    rw [if_pos ⟨low, up⟩]
    simp [Chip.raise]
  next =>
    rw [if_neg fun both => low both.1]
    exact held low

theorem Serves.raise {service : Service} (h : p.Serves wired offset offset' service)
    (input : Fin 8 ⊕ Fin 8) : (p.raise wired input).Serves wired offset offset' service := by
  have master := h.master
  have slave := h.slave
  cases input with
  | inl line =>
      constructor
      next => exact ⟨master.stage, master.offset, master.cascade, master.manual, master.unmasked⟩
      next => exact slave
      next => exact h.inMaster
      next => exact h.inSlave
      next =>
        intro up
        by_cases same : wired = line
        next => simp [Pair.raise, Chip.raise, same]
        next => simpa [Pair.raise, Chip.raise, same] using h.latched up
  | inr line =>
      constructor
      next => exact edge_configured master
      next =>
        simp only [Pair.raise, edge_slave]
        exact ⟨slave.stage, slave.offset, slave.cascade, slave.manual, slave.unmasked⟩
      next => exact (edge_inService _ _).trans h.inMaster
      next =>
        simp only [Pair.raise, edge_slave]
        exact h.inSlave
      next => exact edge_latched h.latched

theorem Serves.drop {service : Service} (h : p.Serves wired offset offset' service)
    {input : Fin 8 ⊕ Fin 8} (device : input ≠ .inl wired) :
    (p.drop input).Serves wired offset offset' service := by
  have master := h.master
  have slave := h.slave
  cases input with
  | inl line =>
      have other : wired ≠ line := fun same => device (congrArg Sum.inl same.symm)
      constructor
      next => exact ⟨master.stage, master.offset, master.cascade, master.manual, master.unmasked⟩
      next => exact slave
      next => exact h.inMaster
      next => exact h.inSlave
      next =>
        intro up
        simpa [Pair.drop, Chip.drop, other] using h.latched up
  | inr line =>
      constructor
      next => exact master
      next => exact ⟨slave.stage, slave.offset, slave.cascade, slave.manual, slave.unmasked⟩
      next => exact h.inMaster
      next => exact h.inSlave
      next => exact fun up => h.latched (p.slave.next_drop line up)

theorem Serves.settle {service : Service} (h : p.Serves wired offset offset' service) :
    (p.settle wired).Serves wired offset offset' service := by
  have master := h.master
  unfold Pair.settle
  split
  next low =>
    constructor
    next => exact ⟨master.stage, master.offset, master.cascade, master.manual, master.unmasked⟩
    next => exact h.slave
    next => exact h.inMaster
    next => exact h.inSlave
    next => exact fun up => absurd low up
  next => exact h

structure Answers (wired : Fin 8) (p p' : Pair) (service : Service) : Prop where
  pending : ∀ input ≠ .inl wired,
    p'.pending input = (p.pending input && !decide (service.input = some input))
  asked : ∀ input, service.input = some input → input ≠ .inl wired ∧ p.pending input = true
  -- a request waits only for one before it, or where the slave was answered in vain
  foremost : ∀ input ≠ .inl wired, p.pending input = true →
    (∃ i, service.input = some i ∧ rank wired i ≤ rank wired input) ∨
      service = .lost ∧ rank wired (.inr 7) < rank wired input

theorem Serves.acknowledge_none (h : p.Serves wired offset offset' .nothing)
    (none : Chip.first p.master.requests = none) :
    p.acknowledge wired = (Service.vector offset offset' .nothing, p) ∧
      Answers wired p p .nothing := by
  have next := h.master.next h.inMaster
  have quiet := first_eq_none.mp none
  have low : p.slave.next = Option.none := by
    by_contra up
    have held := h.latched up
    rw [quiet] at held
    cases held
  have slaveQuiet : ∀ line, p.slave.requests line = false := by
    rw [h.slave.next h.inSlave] at low
    exact first_eq_none.mp low
  refine ⟨?_, ?_⟩
  · simp only [Pair.acknowledge, next, none, Chip.vector, h.master.offset]
    rfl
  · constructor
    next => simp [Service.input]
    next => simp [Service.input]
    next =>
      intro input _ waiting
      cases input with
      | inl line => simp [Pair.pending, quiet] at waiting
      | inr line => simp [Pair.pending, slaveQuiet] at waiting

theorem Serves.acknowledge_master (h : p.Serves wired offset offset' .nothing) {line : Fin 8}
    (lowest : Chip.first p.master.requests = some line) (device : line ≠ wired) :
    p.acknowledge wired = (Service.vector offset offset' (.master line),
        { p with master := p.master.accept line }) ∧
      ({ p with master := p.master.accept line } : Pair).Serves wired offset offset'
        (.master line) ∧
      Answers wired p { p with master := p.master.accept line } (.master line) := by
  have next := h.master.next h.inMaster
  obtain ⟨hit, before⟩ := first_eq_some lowest
  have cascade : (p.master.accept line).cascade.getLsbD line = false := by
    have same : (p.master.accept line).cascade = BitVec.twoPow 8 wired := h.master.cascade
    rw [same, BitVec.getLsbD_twoPow]
    simp [Fin.val_inj, Ne.symm device]
  refine ⟨?_, ?_, ?_⟩
  · simp only [Pair.acknowledge, next, lowest, cascade, Bool.false_and, Bool.false_eq_true, if_false,
      Chip.vector]
    rw [(h.master.accept line).offset]
    rfl
  · constructor
    next => exact h.master.accept line
    next => exact h.slave
    next => exact h.master.accept_inService h.inMaster line
    next => exact h.inSlave
    next =>
      intro up
      simpa [Chip.accept, Ne.symm device] using h.latched up
  · constructor
    next =>
      intro input _
      cases input with
      | inl l =>
          by_cases same : l = line
          next => simp [Pair.pending, Service.input, Chip.accept, same]
          next => simp [Pair.pending, Service.input, Chip.accept, same, Ne.symm same]
      | inr l => simp [Pair.pending, Service.input]
    next =>
      intro input same
      obtain rfl := Option.some.inj same
      exact ⟨fun wire => device (Sum.inl.inj wire), hit⟩
    next =>
      intro input device' waiting
      refine .inl ⟨.inl line, rfl, ?_⟩
      cases input with
      | inl l =>
          have later : line ≤ l := by
            by_contra less
            have missed := before l (not_le.mp less)
            simp [Pair.pending, missed] at waiting
          simp only [rank]
          split <;> split <;> omega
      | inr l =>
          have held : p.master.requests wired = true := by
            apply h.latched
            rw [h.slave.next h.inSlave]
            intro none
            have missed := first_eq_none.mp none l
            simp [Pair.pending, missed] at waiting
          have later : line ≤ wired := by
            by_contra less
            have missed := before wired (not_le.mp less)
            rw [missed] at held
            cases held
          have less : line < wired := lt_of_le_of_ne later device
          simp only [rank, if_pos less]
          omega

theorem Serves.acknowledge_wired (h : p.Serves wired offset offset' .nothing)
    (lowest : Chip.first p.master.requests = some wired) :
    ∃ service, service = (match Chip.first p.slave.requests with
        | some line => Service.slave line
        | none => Service.lost) ∧
      (p.acknowledge wired).1 = service.vector offset offset' ∧
      (p.acknowledge wired).2.Serves wired offset offset' service ∧
      Answers wired p (p.acknowledge wired).2 service := by
  have next := h.master.next h.inMaster
  have nextSlave := h.slave.next h.inSlave
  obtain ⟨-, before⟩ := first_eq_some lowest
  have cascade : (p.master.accept wired).cascade.getLsbD wired = true := by
    have same : (p.master.accept wired).cascade = BitVec.twoPow 8 wired := h.master.cascade
    rw [same, BitVec.getLsbD_twoPow]
    simp
  have identity : (p.slave.cascade.toNat % 8 == wired.val) = true := by
    rw [h.slave.cascade, BitVec.toNat_ofNat, beq_iff_eq]
    omega
  have accepted := h.master.accept wired
  have serving := h.master.accept_inService h.inMaster wired
  -- the lines of the master that wait stand after the wire
  have behind {l : Fin 8} (device : l ≠ wired) (waiting : p.master.requests l = true) :
      wired < l := by
    by_contra notLess
    have missed := before l (lt_of_le_of_ne (not_lt.mp notLess) device)
    rw [missed] at waiting
    cases waiting
  refine ⟨_, rfl, ?_⟩
  cases found : Chip.first p.slave.requests with
  | none =>
      have quiet := first_eq_none.mp found
      have answer : p.acknowledge wired = (p.slave.vector 7,
          { p with master := p.master.accept wired }) := by
        simp only [Pair.acknowledge, next, lowest, cascade, identity, Bool.and_self, if_true,
          nextSlave, found]
      rw [answer]
      refine ⟨?_, ?_, ?_⟩
      · simp only [Chip.vector, h.slave.offset]
        rfl
      · constructor
        next => exact accepted
        next => exact h.slave
        next => exact serving
        next => exact h.inSlave
        next =>
          intro up
          simp [nextSlave, found] at up
      · constructor
        next =>
          intro input device
          cases input with
          | inl l =>
              have other : l ≠ wired := fun same => device (congrArg Sum.inl same)
              simp [Pair.pending, Service.input, Chip.accept, other]
          | inr l => simp [Pair.pending, Service.input]
        next => simp [Service.input]
        next =>
          intro input device waiting
          cases input with
          | inl l =>
              have less := behind (fun same => device (congrArg Sum.inl same)) waiting
              refine .inr ⟨rfl, ?_⟩
              simp only [rank, if_neg (not_lt.mpr less.le)]
              omega
          | inr l => simp [Pair.pending, quiet] at waiting
  | some line =>
      obtain ⟨hit, earlier⟩ := first_eq_some found
      have answer : p.acknowledge wired = (p.slave.vector line,
          edge wired none
            { p with master := p.master.accept wired, slave := p.slave.accept line }) := by
        simp only [Pair.acknowledge, next, lowest, cascade, identity, Bool.and_self, if_true,
          nextSlave, found]
      rw [answer]
      refine ⟨?_, ?_, ?_⟩
      · simp only [Chip.vector, h.slave.offset]
        rfl
      · constructor
        next => exact edge_configured accepted
        next =>
          rw [edge_slave]
          exact h.slave.accept line
        next => exact (edge_inService _ _).trans serving
        next =>
          rw [edge_slave]
          exact h.slave.accept_inService h.inSlave line
        next => exact edge_latched fun up => absurd rfl up
      · constructor
        next =>
          intro input device
          cases input with
          | inl l =>
              have other : l ≠ wired := fun same => device (congrArg Sum.inl same)
              simp only [Pair.pending]
              rw [edge_requests none _ other]
              simp [Service.input, Chip.accept, other]
          | inr l =>
              simp only [Pair.pending, edge_slave]
              by_cases same : l = line
              next => simp [Service.input, Chip.accept, same]
              next => simp [Service.input, Chip.accept, same, Ne.symm same]
        next =>
          intro input same
          obtain rfl := Option.some.inj same
          exact ⟨by simp, hit⟩
        next =>
          intro input device waiting
          refine .inl ⟨.inr line, rfl, ?_⟩
          cases input with
          | inl l =>
              have less := behind (fun same => device (congrArg Sum.inl same)) waiting
              simp only [rank, if_neg (not_lt.mpr less.le)]
              omega
          | inr l =>
              have later : line ≤ l := by
                by_contra less
                have missed := earlier l (not_le.mp less)
                simp [Pair.pending, missed] at waiting
              simp only [rank]
              omega

theorem Serves.acknowledge (h : p.Serves wired offset offset' .nothing) :
    ∃ service : Service, (p.acknowledge wired).1 = service.vector offset offset' ∧
      (p.acknowledge wired).2.Serves wired offset offset' service ∧
      Answers wired p (p.acknowledge wired).2 service := by
  cases lowest : Chip.first p.master.requests with
  | none =>
      obtain ⟨answer, answers⟩ := h.acknowledge_none lowest
      rw [answer]
      exact ⟨.nothing, rfl, h, answers⟩
  | some line =>
      by_cases device : line = wired
      next =>
        obtain ⟨service, -, answer⟩ := h.acknowledge_wired (device ▸ lowest)
        exact ⟨service, answer⟩
      next =>
        obtain ⟨answer, serves, answers⟩ := h.acknowledge_master lowest device
        rw [answer]
        exact ⟨.master line, rfl, serves, answers⟩

theorem Serves.eoi_master {service : Service} (h : p.Serves wired offset offset' service)
    (ended : service.inSlave = none) :
    (p.outb wired .masterCommand 0x20#8).Serves wired offset offset' .nothing ∧
      (p.outb wired .masterCommand 0x20#8).pending = p.pending := by
  obtain ⟨master, inMaster, requests⟩ := h.master.eoi h.inMaster
  rw [outb_masterCommand]
  constructor
  next =>
    constructor
    next => exact master
    next => exact h.slave
    next => exact inMaster
    next => exact h.inSlave.trans (congrArg only ended)
    next =>
      rw [requests]
      exact h.latched
  next =>
    funext input
    cases input with
    | inl line => simp only [Pair.pending, requests]
    | inr line => rfl

theorem Serves.eoi_slave {service : Service} (h : p.Serves wired offset offset' service)
    (through : service.inMaster wired = some wired) :
    ((p.outb wired .slaveCommand 0x20#8).outb wired .masterCommand 0x20#8).Serves wired offset
        offset' .nothing ∧
      ∀ input ≠ .inl wired, ((p.outb wired .slaveCommand 0x20#8).outb wired .masterCommand
        0x20#8).pending input = p.pending input := by
  obtain ⟨slave, inSlave, requests⟩ := h.slave.eoi h.inSlave
  have first : (p.outb wired .slaveCommand 0x20#8).Serves wired offset offset' .lost := by
    constructor
    next => exact edge_configured h.master
    next =>
      rw [outb, edge_slave]
      exact slave
    next => exact (edge_inService _ _).trans (h.inMaster.trans (congrArg only through))
    next =>
      rw [outb, edge_slave]
      exact inSlave
    next => exact edge_latched h.latched
  obtain ⟨serves, kept⟩ := first.eoi_master rfl
  refine ⟨serves, ?_⟩
  intro input device
  rw [kept]
  cases input with
  | inl line => exact edge_requests _ _ fun same => device (congrArg Sum.inl same)
  | inr line =>
      simp only [Pair.pending, outb, edge_slave, requests]

end Pair

end I8259
