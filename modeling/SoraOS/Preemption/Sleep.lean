import Mathlib.Data.List.Infix
import SoraOS.Memory.Pmm

set_option autoImplicit false

/-! `sleep_ticks` against timer interrupts that come at any time, over any wrap of `tick_count`. -/

namespace SoraOS

namespace Pit

structure Sleep where
  tickCount : U32
  start : U32
  ticks : U32
  returned : Bool

inductive Event where
  | irq
  | observe
  deriving DecidableEq

-- Up to the loop.
def sleepTicks (tickCount ticks : U32) : Sleep :=
  { tickCount := tickCount, start := tickCount, ticks := ticks, returned := false }

def timerHandler (s : Sleep) : Sleep := { s with tickCount := s.tickCount + 1#32 }

-- `while ((tick_count - start) < ticks)`: stay in the loop, or leave it and return.
def observe (s : Sleep) : Sleep :=
  if s.tickCount - s.start < s.ticks then s else { s with returned := true }

def step (s : Sleep) : Event → Sleep
  | .irq => timerHandler s
  | .observe => observe s

def run (tickCount ticks : U32) (events : List Event) : Sleep :=
  events.foldl step (sleepTicks tickCount ticks)

def ReturnsAfter (tickCount ticks : U32) (events : List Event) : Prop :=
  (run tickCount ticks events).returned = false ∧
    (run tickCount ticks (events ++ [.observe])).returned = true

/-- No observation follows more than `g` interrupts in a row. -/
def Close (g : Nat) (events : List Event) : Prop :=
  ∀ front n, front ++ List.replicate n .irq ++ [.observe] <+: events → n ≤ g

section Runs

variable (tickCount ticks : U32)

theorem run_concat (events : List Event) (e : Event) :
    run tickCount ticks (events ++ [e]) = step (run tickCount ticks events) e :=
  List.foldl_concat ..

theorem step_locals (s : Sleep) (e : Event) :
    (step s e).start = s.start ∧ (step s e).ticks = s.ticks := by
  cases e with
  | irq => exact ⟨rfl, rfl⟩
  | observe =>
      rw [step, observe]
      split
      next => exact ⟨rfl, rfl⟩
      next => exact ⟨rfl, rfl⟩

theorem run_locals (events : List Event) :
    (run tickCount ticks events).start = tickCount ∧ (run tickCount ticks events).ticks = ticks := by
  induction events using List.reverseRecOn with
  | nil => exact ⟨rfl, rfl⟩
  | append_singleton events e ih =>
      obtain ⟨start, argument⟩ := step_locals (run tickCount ticks events) e
      rw [run_concat, start, argument]
      exact ih

theorem run_tickCount (events : List Event) :
    (run tickCount ticks events).tickCount = tickCount + BitVec.ofNat 32 (events.count .irq) := by
  induction events using List.reverseRecOn with
  | nil => exact (BitVec.add_zero _).symm
  | append_singleton events e ih =>
      rw [run_concat, List.count_append]
      cases e with
      | irq =>
          rw [step, timerHandler, ih, BitVec.add_assoc, ← BitVec.ofNat_add]
          rfl
      | observe =>
          have same : (step (run tickCount ticks events) .observe).tickCount =
              (run tickCount ticks events).tickCount := by
            rw [step, observe]
            split
            next => rfl
            next => rfl
          rw [same, ih]
          rfl

theorem stays_iff (events : List Event) :
    (run tickCount ticks events).tickCount - (run tickCount ticks events).start <
        (run tickCount ticks events).ticks ↔ events.count .irq % 2 ^ 32 < ticks.toNat := by
  obtain ⟨start, argument⟩ := run_locals tickCount ticks events
  have elapsed : tickCount + BitVec.ofNat 32 (events.count .irq) - tickCount =
      BitVec.ofNat 32 (events.count .irq) := by
    rw [BitVec.add_comm, BitVec.add_sub_cancel]
  rw [run_tickCount, start, argument, elapsed, BitVec.lt_def, BitVec.toNat_ofNat]

theorem returned_observe (events : List Event) :
    (run tickCount ticks (events ++ [.observe])).returned = false ↔
      (run tickCount ticks events).returned = false ∧
        events.count .irq % 2 ^ 32 < ticks.toNat := by
  rw [run_concat, step, observe]
  split
  next stays =>
    rw [stays_iff] at stays
    exact ⟨fun waiting => ⟨waiting, stays⟩, And.left⟩
  next leaves =>
    rw [stays_iff] at leaves
    exact ⟨(nomatch ·), fun both => absurd both.2 leaves⟩

theorem observed_concat {events front : List Event} {e : Event} :
    front ++ [.observe] <+: events ++ [e] ↔
      (front = events ∧ e = .observe) ∨ front ++ [.observe] <+: events := by
  rw [List.prefix_concat_iff]
  simp [eq_comm]

theorem returned_eq_false (events : List Event) :
    (run tickCount ticks events).returned = false ↔
      ∀ front, front ++ [.observe] <+: events → front.count .irq % 2 ^ 32 < ticks.toNat := by
  induction events using List.reverseRecOn with
  | nil =>
      constructor
      next =>
        intro _ front none
        simp at none
      next => exact fun _ => rfl
  | append_singleton events e ih =>
      cases e with
      | irq =>
          rw [run_concat, step, timerHandler, ih]
          constructor
          next =>
            intro few front inside
            rcases observed_concat.mp inside with same | earlier
            · cases same.2
            · exact few front earlier
          next => exact fun few front earlier => few front (observed_concat.mpr (Or.inr earlier))
      | observe =>
          rw [returned_observe, ih]
          constructor
          next =>
            rintro ⟨few, now⟩ front inside
            rcases observed_concat.mp inside with ⟨rfl, -⟩ | earlier
            · exact now
            · exact few front earlier
          next =>
            intro few
            exact ⟨fun front earlier => few front (observed_concat.mpr (Or.inr earlier)),
              few events (observed_concat.mpr (Or.inl ⟨rfl, rfl⟩))⟩

theorem enough_of_returned {events : List Event}
    (returned : (run tickCount ticks events).returned = true) :
    ticks.toNat ≤ events.count .irq := by
  by_contra early
  have waiting : (run tickCount ticks events).returned = false := by
    rw [returned_eq_false]
    intro front inside
    have fewer := (List.IsPrefix.trans (List.prefix_append _ _) inside).sublist.count_le Event.irq
    have mod := Nat.mod_le (front.count .irq) (2 ^ 32)
    omega
  rw [returned] at waiting
  cases waiting

theorem returnsAfter_iff (events : List Event) :
    ReturnsAfter tickCount ticks events ↔ (run tickCount ticks events).returned = false ∧
      ¬events.count .irq % 2 ^ 32 < ticks.toNat := by
  rw [ReturnsAfter, ← Bool.not_eq_false, returned_observe]
  constructor
  next =>
    rintro ⟨waiting, leaves⟩
    exact ⟨waiting, fun few => leaves ⟨waiting, few⟩⟩
  next =>
    rintro ⟨waiting, enough⟩
    exact ⟨waiting, fun both => enough both.2⟩

end Runs

-- Before an observation stand interrupts in a row, after the start or another observation.
theorem last_observation (events : List Event) :
    ∃ front n, events = front ++ List.replicate n .irq ∧
      (front = [] ∨ ∃ earlier, front = earlier ++ [.observe]) := by
  induction events using List.reverseRecOn with
  | nil => exact ⟨[], 0, rfl, Or.inl rfl⟩
  | append_singleton events e ih =>
      cases e with
      | irq =>
          obtain ⟨front, n, split, start⟩ := ih
          refine ⟨front, n + 1, ?_, start⟩
          rw [split, List.append_assoc, List.replicate_succ']
      | observe => exact ⟨events ++ [.observe], 0, by simp, Or.inr ⟨events, rfl⟩⟩

-- With close observations the counter has not wrapped as long as all saw too few ticks.
theorem few_of_close {g : Nat} {ticks : U32} {events : List Event} (close : Close g events)
    (room : ticks.toNat + g ≤ 2 ^ 32)
    (few : ∀ front, front ++ [.observe] <+: events → front.count .irq % 2 ^ 32 < ticks.toNat)
    (front : List Event) (inside : front ++ [.observe] <+: events) :
    front.count .irq < ticks.toNat := by
  -- by induction on the observations before this one
  induction length : front.length using Nat.strong_induction_on generalizing front with
  | _ length ih =>
      obtain ⟨before, n, split, start⟩ := last_observation front
      have gap : n ≤ g := close before n (split ▸ inside)
      have counts : front.count .irq = before.count .irq + n := by
        rw [split, List.count_append, List.count_replicate_self]
      have now := few front inside
      have small : front.count .irq < 2 ^ 32 := by
        rcases start with rfl | ⟨earlier, rfl⟩
        · rw [List.count_nil] at counts
          omega
        · have reached : earlier ++ [.observe] <+: events := by
            apply List.IsPrefix.trans _ inside
            rw [split, List.append_assoc]
            exact List.prefix_append _ _
          have less := ih earlier.length (by rw [← length, split]; simp) earlier reached rfl
          have same : (earlier ++ [Event.observe]).count .irq = earlier.count .irq := by simp
          omega
      rwa [Nat.mod_eq_of_lt small] at now

/--
`sleep_ticks` never returns early, whatever the counter starts from; and when no two observations
are more than `g` interrupts apart, with `ticks + g` at most 2^32, it returns at the first one that
at least `ticks` interrupts precede.
-/
theorem sleepTicks_exact (tickCount ticks : U32) :
    (∀ events, (run tickCount ticks events).returned = true → ticks.toNat ≤ events.count .irq) ∧
    (∀ g, ticks.toNat + g ≤ 2 ^ 32 → ∀ events, Close g (events ++ [.observe]) →
      (ReturnsAfter tickCount ticks events ↔
        ticks.toNat ≤ events.count .irq ∧
          ∀ front, front ++ [.observe] <+: events → front.count .irq < ticks.toNat)) := by
  refine ⟨fun events => enough_of_returned tickCount ticks, ?_⟩
  intro g room events close
  have closeBefore : Close g events := fun front n inside =>
    close front n (inside.trans (List.prefix_append _ _))
  rw [returnsAfter_iff, returned_eq_false]
  constructor
  next =>
    rintro ⟨waiting, enough⟩
    have mod := Nat.mod_le (events.count .irq) (2 ^ 32)
    exact ⟨by omega, few_of_close closeBefore room waiting⟩
  next =>
    rintro ⟨enough, few⟩
    have waiting : ∀ front, front ++ [.observe] <+: events →
        front.count .irq % 2 ^ 32 < ticks.toNat := fun front inside =>
      Nat.lt_of_le_of_lt (Nat.mod_le _ _) (few front inside)
    refine ⟨waiting, ?_⟩
    intro wrapped
    -- if the condition still held here, `few_of_close` would bound this count as well
    have all : ∀ front, front ++ [.observe] <+: events ++ [.observe] →
        front.count .irq % 2 ^ 32 < ticks.toNat := by
      intro front inside
      rcases observed_concat.mp inside with ⟨rfl, -⟩ | earlier
      · exact wrapped
      · exact waiting front earlier
    have less := few_of_close close room all events List.prefix_rfl
    omega

-- Three ticks from just below the wrap, observed after two and after four interrupts.
theorem sleepTicks_exact_wrap :
    ReturnsAfter 0xFFFFFFFE#32 3#32 [.irq, .irq, .observe, .irq, .irq] := by
  have close : Close 6 ([Event.irq, .irq, .observe, .irq, .irq] ++ [.observe]) := by
    intro front n inside
    have short := inside.length_le
    simp at short
    omega
  rw [(sleepTicks_exact 0xFFFFFFFE#32 3#32).2 6 (by decide) _ close]
  refine ⟨by decide, ?_⟩
  intro front inside
  have each : ∀ seen ∈ [Event.irq, .irq, .observe, .irq, .irq].inits,
      seen.getLast? = some .observe → seen.count .irq < 3 := by decide
  have few := each (front ++ [.observe]) ((List.mem_inits _ _).mpr inside) (by simp)
  simpa using few

end Pit

end SoraOS
