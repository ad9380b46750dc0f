import Mathlib.Logic.Relation
import SoraOS.Mutex.Statements
import SoraOS.Scheduler.Calls
import SoraOS.Shared.Transition

set_option autoImplicit false

namespace SoraOS.Exclusion

variable {B : Type}

/-- Between the return of `mutex_lock` and the `lock = 0` store of `mutex_unlock`. -/
def InCritical : MutexPc B → Prop
  | .holding | .storeLock => True
  | _ => False

/-- Between a successful XCHG and that store. -/
def Owns : MutexPc B → Prop
  | .returning => True
  | pc => InCritical pc

theorem InCritical.owns {pc : MutexPc B} (h : InCritical pc) : Owns pc := by
  cases pc <;> first | exact h | exact h.elim

variable [DecidableEq B]

/--
Any context runs a statement at any time, and the rest of the kernel does what it likes:
schedule, wake waiters spuriously or repeatedly, rewrite the wait list.
-/
inductive Step : MutexMachine B → MutexMachine B → Prop
  | statement {m m' : MutexMachine B} (t : B) (ran : m.statement t = some m') : Step m m'
  | environment (m : MutexMachine B) (k : Kernel B) (waiters : Option B) :
      Step m { m with kernel := k, mutex := { m.mutex with waiters := waiters } }

inductive LockEffect (lock : U32) (pc : MutexPc B) (lock' : U32) (pc' : MutexPc B) : Prop
  | unrelated (same : lock' = lock) (owns : Owns pc' ↔ Owns pc)
  | acquired (free : lock = 0#32) (taken : lock' = 1#32) (waited : ¬ Owns pc) (owns : Owns pc')
  | refused (held : lock ≠ 0#32) (taken : lock' = 1#32) (waited : ¬ Owns pc) (waits : ¬ Owns pc')
  | released (owned : Owns pc) (free : lock' = 0#32) (left : ¬ Owns pc')

theorem statement_lockEffect {m m' : MutexMachine B} {t : B} (ran : m.statement t = some m') :
    ∃ pc', m'.pc = Function.update m.pc t pc' ∧
      LockEffect m.mutex.lock (m.pc t) m'.mutex.lock pc' := by
  unfold MutexMachine.statement at ran
  cases at_ : m.pc t <;> simp only [at_] at ran
  case testAndSet =>
    obtain rfl := Option.some.inj ran
    refine ⟨_, rfl, ?_⟩
    by_cases free : m.mutex.lock = 0#32
    · exact .acquired free rfl id (by simp [Mutex.testAndSet, free, Owns])
    · exact .refused free rfl id (by simp [Mutex.testAndSet, free, Owns, InCritical])
  case getCurrent =>
    split at ran <;>
      (obtain rfl := Option.some.inj ran; exact ⟨_, rfl, .unrelated rfl Iff.rfl⟩)
  case schedule =>
    obtain ⟨⟨k, next⟩, _, rfl⟩ := Option.map_eq_some_iff.mp ran
    refine ⟨_, rfl, .unrelated rfl ?_⟩
    cases next <;> exact Iff.rfl
  case storeLock =>
    obtain rfl := Option.some.inj ran
    exact ⟨_, rfl, .released trivial rfl id⟩
  case testWaiters =>
    obtain rfl := Option.some.inj ran
    refine ⟨_, rfl, .unrelated rfl ?_⟩
    split <;> exact Iff.rfl
  all_goals
    obtain rfl := Option.some.inj ran
    exact ⟨_, rfl, .unrelated rfl Iff.rfl⟩

def Exclusive (m : MutexMachine B) : Prop :=
  (m.mutex.lock = 0#32 ∧ ∀ t, ¬ Owns (m.pc t)) ∨
  (m.mutex.lock = 1#32 ∧ ∃ owner, ∀ t, Owns (m.pc t) ↔ t = owner)

theorem owns_update (pc : B → MutexPc B) (t u : B) (pc' : MutexPc B) :
    Owns (Function.update pc t pc' u) ↔ if u = t then Owns pc' else Owns (pc u) := by
  by_cases same : u = t <;> simp [same]

theorem Exclusive.step {m m' : MutexMachine B} (h : Exclusive m) (taken : Step m m') :
    Exclusive m' := by
  cases taken with
  | environment k waiters => exact h
  | statement t ran =>
      obtain ⟨pc', moved, effect⟩ := statement_lockEffect ran
      simp only [Exclusive, moved, owns_update]
      cases effect with
      | unrelated same owns =>
          have kept (u : B) : (if u = t then Owns pc' else Owns (m.pc u)) ↔ Owns (m.pc u) := by
            by_cases mover : u = t <;> simp [mover, owns]
          simp only [same, kept]
          exact h
      | acquired free taken waited owns =>
          -- Nobody owned the mutex, so the new owner is the only one.
          have nobody : ∀ u, ¬ Owns (m.pc u) := by
            rcases h with ⟨_, nobody⟩ | ⟨one, _⟩
            · exact nobody
            · simp [free] at one
          refine Or.inr ⟨taken, t, fun u => ?_⟩
          by_cases mover : u = t <;> simp [mover, owns, nobody]
      | refused held taken waited waits =>
          obtain ⟨_, owner, owned⟩ := h.resolve_left fun free => held free.1
          refine Or.inr ⟨taken, owner, fun u => ?_⟩
          rw [← owned u]
          by_cases mover : u = t <;> simp [mover, waited, waits]
      | released owned free left =>
          refine Or.inl ⟨free, fun u => ?_⟩
          by_cases mover : u = t
          · simp [mover, left]
          · rcases h with ⟨_, nobody⟩ | ⟨_, owner, only⟩
            · exact absurd owned (nobody t)
            · have mine : t = owner := (only t).mp owned
              simp [mover, only, ← mine]

theorem exclusive_of_reachable {k : Kernel B} {m : MutexMachine B}
    (reachable : Relation.ReflTransGen Step (MutexMachine.start k) m) : Exclusive m :=
  Transition.reachable_invariant (fun _ _ h taken => h.step taken) (Or.inl ⟨rfl, fun _ => id⟩)
    reachable

theorem reachable_statements {m m' : MutexMachine B} {t : B} {n : Nat}
    (ran : m.statements t n = some m') : Relation.ReflTransGen Step m m' := by
  induction n generalizing m with
  | zero =>
      obtain rfl := Option.some.inj ran
      exact .refl
  | succ n ih =>
      obtain ⟨next, first, rest⟩ := Option.bind_eq_some_iff.mp ran
      exact .head (.statement t first) (ih rest)

/--
From an initialized mutex that no context is using, at most one context is ever in the
critical section, and `lock` is 1 exactly while exactly one context owns the mutex.
-/
theorem mutual_exclusion (k : Kernel B) (m : MutexMachine B)
    (reachable : Relation.ReflTransGen Step (MutexMachine.start k) m) :
    (∀ t u, InCritical (m.pc t) → InCritical (m.pc u) → t = u) ∧
      (m.mutex.lock = 1#32 ↔ ∃! t, Owns (m.pc t)) := by
  rcases exclusive_of_reachable reachable with ⟨free, nobody⟩ | ⟨held, owner, only⟩
  · refine ⟨fun t _ inside => absurd inside.owns (nobody t), ?_⟩
    constructor
    · intro one
      simp [free] at one
    · rintro ⟨t, owned, _⟩
      exact absurd owned (nobody t)
  · refine ⟨fun t u first second => ?_, ?_⟩
    · exact ((only t).mp first.owns).trans ((only u).mp second.owns).symm
    · exact ⟨fun _ => ⟨owner, (only owner).mpr rfl, fun t owned => (only t).mp owned⟩,
        fun _ => held⟩

theorem mutual_exclusion_smallBoot :
    ∃ k m, smallBoot = some k ∧ (MutexMachine.start k).statements (.tcb 0) 3 = some m ∧
      InCritical (m.pc (.tcb 0)) ∧ (∀ t u, InCritical (m.pc t) → InCritical (m.pc u) → t = u) ∧
      (m.mutex.lock = 1#32 ↔ ∃! t, Owns (m.pc t)) := by
  obtain ⟨k, booted⟩ := Option.isSome_iff_exists.mp smallBoot_isSome
  have ran : (MutexMachine.start k).statements (.tcb 0) 3 =
      some { kernel := k, mutex := { lock := 1#32, waiters := none },
             pc := Function.update (fun _ => .outside) (.tcb 0) .holding } := by
    simp [MutexMachine.statements, MutexMachine.statement, MutexMachine.start, MutexMachine.goto,
      Mutex.testAndSet, mutexInit]
  exact ⟨k, _, booted, ran, by simp [InCritical], mutual_exclusion k _ (reachable_statements ran)⟩

end SoraOS.Exclusion
