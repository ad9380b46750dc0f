import Mathlib.Logic.Relation
import SoraOS.Scheduler.Schedule

set_option autoImplicit false

/-! `schedule()` statement by statement, for a caller that can be interrupted in it. -/

namespace SoraOS

/--
The next statement of `schedule()`, with the locals that are live there. What a statement does to
locals only is merged with the one before it.
-/
inductive SchedulePc (B : Type) where
  | testCurrent
  | loadNext
  | loadHead
  | testReady (start next : Option B)
  | advance (start : Option B) (next : B)
  | wrap (start : Option B)
  | testFound (next : Option B)
  | testIdle
  | loadIdle
  | testSame (next : B)
  | loadOld (next : B)
  | testRunning (old next : B)
  | setReady (old next : B)
  | setRunning (old next : B)
  | setCurrent (old next : B)
  | contextSwitch (old next : B)
  deriving DecidableEq

namespace Kernel

variable {B : Type} [DecidableEq B]

-- `if (next == start) { next = NULL; break; }`
def roundLoop (start next : Option B) : SchedulePc B :=
  if next = start then .testFound none else .testReady start next

/--
One statement; no next one after a return, and after `context_switch`, which returns when the
caller is resumed. `none` where `NULL` is dereferenced.
-/
def scheduleStatement (k : Kernel B) : SchedulePc B → Option (Kernel B × Option (SchedulePc B))
  | .testCurrent => some (k, k.currentPcb.map fun _ => .loadNext)
  | .loadNext => k.currentPcb.map fun current =>
      (k, some (match k.links current with
        | some next => .testReady (some next) (some next)
        | none => .loadHead))
  | .loadHead => some (k, some (.testReady k.runQueue k.runQueue))
  | .testReady _ none => some (k, some (.testFound none))
  | .testReady start (some next) =>
      some (k, some (if k.state next = .ready then .testFound (some next) else .advance start next))
  | .advance start next =>
      some (k, some (match k.links next with
        | some following => roundLoop start (some following)
        | none => .wrap start))
  | .wrap start => some (k, some (roundLoop start k.runQueue))
  | .testFound none => some (k, some .testIdle)
  | .testFound (some next) =>
      some (k, some (if k.state next = .ready then .testSame next else .testIdle))
  | .testIdle => some (k, if k.currentPcb = k.idlePcb then none else some .loadIdle)
  | .loadIdle => k.idlePcb.map fun idle => (k, some (.testSame idle))
  | .testSame next => some (k, if k.currentPcb = some next then none else some (.loadOld next))
  | .loadOld next => k.currentPcb.map fun old => (k, some (.testRunning old next))
  | .testRunning old next =>
      some (k, some (if k.state old = .running then .setReady old next else .setRunning old next))
  | .setReady old next => some (k.setState old .ready, some (.setRunning old next))
  | .setRunning old next => some (k.setState next .running, some (.setCurrent old next))
  | .setCurrent old next => some ({ k with currentPcb := some next }, some (.contextSwitch old next))
  | .contextSwitch old next => some (k.contextSwitch old next, none)

theorem scheduleStatement_state {k k' : Kernel B} {pc : SchedulePc B} {next : Option (SchedulePc B)}
    (ran : k.scheduleStatement pc = some (k', next)) (b : B) :
    k'.state b = k.state b ∨ k'.state b = .ready ∨ k'.state b = .running := by
  have marked (c : B) (s : ProcessState) :
      (k.setState c s).state b = k.state b ∨ (k.setState c s).state b = s := by
    rw [setState_state, Function.update_apply]
    split
    next => exact Or.inr rfl
    next => exact Or.inl rfl
  cases pc with
  | setReady old picked =>
      obtain rfl : k.setState old .ready = k' := (Prod.mk.inj (Option.some.inj ran)).1
      exact (marked old .ready).imp_right Or.inl
  | setRunning old picked =>
      obtain rfl : k.setState picked .running = k' := (Prod.mk.inj (Option.some.inj ran)).1
      exact (marked picked .running).imp_right Or.inr
  | setCurrent old picked =>
      obtain rfl : { k with currentPcb := some picked } = k' := (Prod.mk.inj (Option.some.inj ran)).1
      exact Or.inl rfl
  | contextSwitch old picked =>
      obtain rfl : k.contextSwitch old picked = k' := (Prod.mk.inj (Option.some.inj ran)).1
      exact Or.inl (by simp)
  | loadNext | loadIdle | loadOld picked =>
      obtain ⟨_, -, taken⟩ := Option.map_eq_some_iff.mp ran
      exact Or.inl ((Prod.mk.inj taken).1 ▸ rfl)
  | testReady start found | testFound found =>
      cases found with
      | none => exact Or.inl ((Prod.mk.inj (Option.some.inj ran)).1 ▸ rfl)
      | some found => exact Or.inl ((Prod.mk.inj (Option.some.inj ran)).1 ▸ rfl)
  | _ => exact Or.inl ((Prod.mk.inj (Option.some.inj ran)).1 ▸ rfl)

def ScheduleRun : Kernel B × Option (SchedulePc B) → Kernel B × Option (SchedulePc B) → Prop :=
  Relation.ReflTransGen fun s t => ∃ pc, s.2 = some pc ∧ s.1.scheduleStatement pc = some t

theorem ScheduleRun.next {k : Kernel B} {pc : SchedulePc B} {s t : Kernel B × Option (SchedulePc B)}
    (first : k.scheduleStatement pc = some s) (rest : ScheduleRun s t) :
    ScheduleRun (k, some pc) t := .head ⟨pc, rfl, first⟩ rest

theorem switchTo_run (k : Kernel B) {old : B} (current : k.currentPcb = some old) (next : B) :
    ScheduleRun (k, some (.loadOld next)) (k.switchTo old next, none) := by
  refine .next (s := (k, some (.testRunning old next))) (by simp [scheduleStatement, current]) ?_
  rw [switchTo]
  by_cases running : k.state old = .running
  next =>
    rw [if_pos running]
    refine .next (s := (k, some (.setReady old next))) (by simp [scheduleStatement, running]) ?_
    exact .next rfl (.next rfl (.next rfl (.next rfl .refl)))
  next =>
    rw [if_neg running]
    refine .next (s := (k, some (.setRunning old next))) (by simp [scheduleStatement, running]) ?_
    exact .next rfl (.next rfl (.next rfl .refl))

-- Whatever the loop finds is tested once more after it.
theorem walk_run (k : Kernel B) (start : Option B) {fuel : Nat} {next result : Option B}
    (walked : PointerList.walkRing k.links k.runQueue (fun p => k.state p = .ready) start fuel next =
      some result) :
    ScheduleRun (k, some (.testReady start next)) (k, some (.testFound result)) := by
  induction fuel generalizing next with
  | zero => cases walked
  | succ fuel ih =>
      cases next with
      | none =>
          obtain rfl : none = result := Option.some.inj walked
          exact .next rfl .refl
      | some p =>
          rw [PointerList.walkRing] at walked
          by_cases ready : k.state p = .ready
          next =>
            rw [if_pos (by simpa using ready)] at walked
            obtain rfl : some p = result := Option.some.inj walked
            exact .next (s := (k, some (.testFound (some p)))) (by simp [scheduleStatement, ready])
              .refl
          next =>
            rw [if_neg (by simpa using ready)] at walked
            refine .next (s := (k, some (.advance start p))) (by simp [scheduleStatement, ready]) ?_
            have round : ScheduleRun (k, some (roundLoop start ((k.links p).or k.runQueue)))
                (k, some (.testFound result)) := by
              rw [roundLoop]
              by_cases again : (k.links p).or k.runQueue = start
              next =>
                rw [if_pos again] at walked ⊢
                obtain rfl : none = result := Option.some.inj walked
                exact .refl
              next =>
                rw [if_neg again] at walked ⊢
                exact ih walked
            cases link : k.links p with
            | some following =>
                rw [link] at round
                exact .next (s := (k, some (roundLoop start (some following))))
                  (by simp [scheduleStatement, link]) round
            | none =>
                rw [link] at round
                refine .next (s := (k, some (.wrap start))) (by simp [scheduleStatement, link]) ?_
                exact .next rfl round

variable [Fintype B]

theorem schedule_run {k k' : Kernel B} (returned : k.schedule = some k') :
    ScheduleRun (k, some .testCurrent) (k', none) := by
  cases running : k.currentPcb with
  | none =>
      obtain rfl : k = k' := by simpa [schedule, running] using returned
      exact .next (s := (k, none)) (by simp [scheduleStatement, running]) .refl
  | some current =>
      simp only [schedule, running, Option.bind_eq_bind, Option.bind_eq_some_iff] at returned
      obtain ⟨result, found, rest⟩ := returned
      have searched : ScheduleRun (k, some .testCurrent) (k, some (.testFound result)) := by
        refine .next (s := (k, some .loadNext)) (by simp [scheduleStatement, running]) ?_
        rw [findReady] at found
        cases link : k.links current with
        | some next =>
            rw [link] at found
            exact .next (s := (k, some (.testReady (some next) (some next))))
              (by simp [scheduleStatement, running, link]) (walk_run k _ found)
        | none =>
            rw [link] at found
            refine .next (s := (k, some .loadHead)) (by simp [scheduleStatement, running, link]) ?_
            exact .next rfl (walk_run k _ found)
      suffices last : ScheduleRun (k, some (.testFound result)) (k', none) from searched.trans last
      cases result with
      | some next =>
          have ready : k.state next = .ready := by
            simpa using PointerList.walkRing_some found
          refine .next (s := (k, some (.testSame next))) (by simp [scheduleStatement, ready]) ?_
          simp only at rest
          by_cases same : next = current
          next =>
            rw [if_pos same] at rest
            obtain rfl : k = k' := Option.some.inj rest
            exact .next (s := (k, none)) (by simp [scheduleStatement, running, same]) .refl
          next =>
            rw [if_neg same] at rest
            obtain rfl : k.switchTo current next = k' := Option.some.inj rest
            exact .next (s := (k, some (.loadOld next)))
              (by simp [scheduleStatement, running, Ne.symm same]) (switchTo_run k running next)
      | none =>
          refine .next rfl ?_
          simp only at rest
          by_cases idles : k.idlePcb = some current
          next =>
            rw [if_pos idles] at rest
            obtain rfl : k = k' := Option.some.inj rest
            exact .next (s := (k, none)) (by simp [scheduleStatement, running, idles]) .refl
          next =>
            rw [if_neg idles] at rest
            obtain ⟨idle, idling, switched⟩ := Option.bind_eq_some_iff.mp rest
            obtain rfl : k.switchTo current idle = k' := Option.some.inj switched
            have different : current ≠ idle := fun same => idles (same ▸ idling)
            refine .next (s := (k, some .loadIdle))
              (by simp [scheduleStatement, running, idling, different]) ?_
            refine .next (s := (k, some (.testSame idle))) (by simp [scheduleStatement, idling]) ?_
            exact .next (s := (k, some (.loadOld idle)))
              (by simp [scheduleStatement, running, different]) (switchTo_run k running idle)

end Kernel

end SoraOS
