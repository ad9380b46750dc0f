import SoraOS.Scheduler.ContextSwitch

set_option autoImplicit false

namespace SoraOS.Registers

/-- What a cdecl function leaves as it was, besides ESP. -/
def calleeSaved : List X86.Reg := [.ebx, .esi, .edi, .ebp]

theorem run_contextSwitchText_reg (cpu : X86.Cpu) {r : X86.Reg} (notEax : r ≠ .eax)
    (notEsp : r ≠ .esp) : (cpu.run contextSwitchText).reg r = cpu.reg r := by
  simp [contextSwitchText, X86.Cpu.exec, X86.Cpu.set, notEax, notEsp]

section Run

variable {B : Type} [DecidableEq B]

/-- The CPU, shared by processes in the blocks `B`. -/
structure System (B : Type) where
  cpu : X86.Cpu
  running : B
  -- The CPU when the process called `context_switch`, until that call returns.
  pending : B → Option X86.Cpu
  returned : List (X86.Cpu × X86.Cpu)

def System.start (cpu : X86.Cpu) (running : B) : System B where
  cpu := cpu
  running := running
  pending := fun _ => none
  returned := []

inductive Event (B : Type) where
  -- The running process executes anything up to its next call.
  | compute (cpu : X86.Cpu)
  | create (b : B)
  | contextSwitch (next : B)

/-- Control is behind the call, and its return address has been popped. -/
def Back (call cpu : X86.Cpu) : Prop :=
  cpu.eip = call.memory (call.reg .esp) ∧ cpu.reg .esp = call.reg .esp + 4#32

instance (call cpu : X86.Cpu) : Decidable (Back call cpu) := inferInstanceAs (Decidable (_ ∧ _))

def resume (s : System B) (next : B) : System B :=
  let cpu := s.cpu.run contextSwitchText
  let pending := Function.update s.pending s.running (some s.cpu)
  match pending next with
  | some call =>
      if Back call cpu then
        { cpu := cpu
          running := next
          pending := Function.update pending next none
          returned := (call, cpu) :: s.returned }
      else { s with cpu := cpu, running := next, pending := pending }
  | none => { s with cpu := cpu, running := next, pending := pending }

/-- `context_switch(old, new)` gets its two arguments on the stack. -/
def step (address : B → U32) (s : System B) : Event B → Option (System B)
  | .compute cpu => some { s with cpu := cpu }
  | .create b => some { s with pending := Function.update s.pending b none }
  | .contextSwitch next =>
      if s.cpu.memory (s.cpu.reg .esp + 4#32) = address s.running ∧
          s.cpu.memory (s.cpu.reg .esp + 8#32) = address next then
        some (resume s next)
      else none

def Preserved (s : System B) : Prop :=
  ∀ call back, (call, back) ∈ s.returned → ∀ r ∈ calleeSaved, back.reg r = call.reg r

/-- A call now loads the ESP of the suspended call, and finds its return address there. -/
def Returns (cpu call : X86.Cpu) : Prop :=
  let saved := Function.update cpu.memory (cpu.memory (cpu.reg .esp + 4#32) + espOffset)
    (cpu.reg .esp)
  saved (saved (cpu.reg .esp + 8#32) + espOffset) = call.reg .esp ∧
    saved (call.reg .esp) = call.memory (call.reg .esp)

theorem returns_iff (cpu call : X86.Cpu) :
    Returns cpu call ↔ Back call (cpu.run contextSwitchText) := by
  obtain ⟨_, esp, eip⟩ := run_contextSwitchText cpu
  rw [Back, esp, eip, Returns]
  constructor
  next =>
    intro ⟨top, word⟩
    exact ⟨by rw [top, word], by rw [top]⟩
  next =>
    intro ⟨word, top⟩
    have same := (BitVec.add_left_inj 4#32).mp top
    exact ⟨same, by rw [← same, word, same]⟩

def SameRegisters (s : System B) (e : Event B) : Prop :=
  ∀ next call, e = .contextSwitch next →
    Function.update s.pending s.running (some s.cpu) next = some call → Returns s.cpu call →
    ∀ r ∈ calleeSaved, s.cpu.reg r = call.reg r

theorem run_contextSwitchText_calleeSaved (cpu : X86.Cpu) {r : X86.Reg} (saved : r ∈ calleeSaved) :
    (cpu.run contextSwitchText).reg r = cpu.reg r := by
  apply run_contextSwitchText_reg
  · rintro rfl
    simp [calleeSaved] at saved
  · rintro rfl
    simp [calleeSaved] at saved

theorem resume_cases (s : System B) (next : B) :
    (∃ call, Function.update s.pending s.running (some s.cpu) next = some call ∧
        Returns s.cpu call ∧
        (resume s next).returned = (call, s.cpu.run contextSwitchText) :: s.returned) ∨
      (∀ call, Function.update s.pending s.running (some s.cpu) next = some call →
        ¬ Returns s.cpu call) ∧ (resume s next).returned = s.returned := by
  -- A switch returns from the suspended call of `next`, or it adds no return.
  unfold resume
  cases found : Function.update s.pending s.running (some s.cpu) next with
  | none =>
      refine .inr ⟨?_, by simp [found]⟩
      rintro call ⟨⟩
  | some call =>
      by_cases back : Back call (s.cpu.run contextSwitchText)
      next =>
        exact .inl ⟨call, rfl, (returns_iff s.cpu call).mpr back, by simp [found, back]⟩
      next =>
        refine .inr ⟨?_, by simp [found, back]⟩
        rintro _ ⟨⟩ returns
        exact back ((returns_iff s.cpu call).mp returns)

theorem Preserved.step {address : B → U32} {s t : System B} {e : Event B} (h : Preserved s)
    (same : SameRegisters s e) (taken : step address s e = some t) : Preserved t := by
  cases e with
  | compute cpu =>
      obtain rfl := Option.some.inj taken
      exact h
  | create b =>
      obtain rfl := Option.some.inj taken
      exact h
  | contextSwitch next =>
      simp only [Registers.step] at taken
      split at taken
      next =>
        obtain rfl := Option.some.inj taken
        obtain ⟨call, pending, returns, added⟩ | ⟨_, kept⟩ := resume_cases s next
        · intro call' back member r saved
          rw [added] at member
          rcases List.mem_cons.mp member with new | older
          next =>
            obtain ⟨rfl, rfl⟩ := Prod.mk.inj new
            rw [run_contextSwitchText_calleeSaved s.cpu saved]
            exact same next call' rfl pending returns r saved
          next => exact h call' back older r saved
        · intro call back member
          rw [kept] at member
          exact h call back member
      next => cases taken

theorem not_preserved_of_changed {address : B → U32} {s t : System B} {e : Event B}
    (changed : ¬ SameRegisters s e) (taken : step address s e = some t) : ¬ Preserved t := by
  simp only [SameRegisters, not_forall] at changed
  obtain ⟨next, call, rfl, pending, returns, r, saved, different⟩ := changed
  simp only [step] at taken
  split at taken
  next =>
    obtain rfl := Option.some.inj taken
    obtain ⟨call', pending', _, added⟩ | ⟨notBack, _⟩ := resume_cases s next
    · obtain rfl := Option.some.inj (pending.symm.trans pending')
      intro preserved
      have kept := preserved call _ (by rw [added]; exact List.mem_cons_self) r saved
      exact different ((run_contextSwitchText_calleeSaved s.cpu saved).symm.trans kept)
    · exact absurd returns (notBack call pending)
  next => cases taken

/--
In every run of computations, creations and switches among any processes, every call that returns
preserves the registers exactly when, at each switch back to a suspended call, the registers are
those of that call already.
-/
theorem always_preserved_iff (address : B → U32) (cpu : X86.Cpu) (running : B)
    (events : List (Event B)) :
    Transition.Always (fun s e t => step address s e = some t) Preserved (.start cpu running) events ↔
      Transition.Meets (fun s e t => step address s e = some t) SameRegisters (.start cpu running)
        events := by
  have start : Preserved (System.start cpu running) := fun _ _ member => by cases member
  exact Transition.always_iff_meets (fun (s : System B) (h : Preserved s) => h)
    (fun _ _ _ h same taken => h.step same taken)
    (fun _ _ _ _ changed taken => not_preserved_of_changed changed taken) start events

end Run

def twoBlocks (b : Bool) : U32 := if b then 0x2000#32 else 0x1000#32

/-- The first process calls `context_switch`, from an address before 0x100100. -/
def firstCall : X86.Cpu where
  reg := fun r => if r = .esp then 0x4FF4#32 else 0#32
  eip := 0#32
  memory := fun a =>
    if a = 0x4FF4#32 then 0x100100#32
    else if a = 0x4FF8#32 then 0x1000#32
    else if a = 0x4FFC#32 then 0x2000#32
    else if a = 0x200C#32 then 0x5FFC#32
    else if a = 0x5FFC#32 then 0x100200#32
    else 0#32

/-- The second one, entered at 0x100200, has set EBX to 7 and switches back. -/
def secondCall : X86.Cpu where
  reg := fun r => if r = .esp then 0x5FF4#32 else if r = .ebx then 7#32 else 0#32
  eip := 0#32
  memory := fun a =>
    if a = 0x100C#32 then 0x4FF4#32
    else if a = 0x4FF4#32 then 0x100100#32
    else if a = 0x5FF4#32 then 0x100204#32
    else if a = 0x5FF8#32 then 0x2000#32
    else if a = 0x5FFC#32 then 0x1000#32
    else 0#32

/-- The first process gets back a 7 in EBX, where it had 0. -/
theorem not_always_preserved_twoBlocks :
    ¬ Transition.Always (fun s e t => step twoBlocks s e = some t) Preserved (.start firstCall false)
      [.contextSwitch true, .compute secondCall, .contextSwitch false] := by
  have evaluated : ([.contextSwitch true, .compute secondCall, .contextSwitch false].foldlM
      (step twoBlocks) (.start firstCall false)).map
        (fun s => s.returned.map fun p => (p.1.reg .ebx, p.2.reg .ebx)) = some [(0#32, 7#32)] := by
    decide +kernel
  obtain ⟨s, ran, values⟩ := Option.map_eq_some_iff.mp evaluated
  intro always
  have preserved := always.of_run ran
  obtain ⟨⟨call, back⟩, member, values⟩ := List.mem_map.mp (values ▸ List.mem_cons_self)
  have kept := preserved call back member .ebx (by simp [calleeSaved])
  obtain ⟨before, after⟩ := Prod.mk.inj values
  rw [before, after] at kept
  exact absurd kept (by decide)

end SoraOS.Registers
