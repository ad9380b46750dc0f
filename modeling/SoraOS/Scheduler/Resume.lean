import SoraOS.Scheduler.ContextSwitch

set_option autoImplicit false

namespace SoraOS.Machine

variable {boot : U32 → Prop}

/-- The words of the stack that `b` runs on; idle runs on the boot stack and not on its page. -/
def Own (boot : U32 → Prop) (k : Kernel Slot) (b : Slot) (a : U32) : Prop :=
  if k.idlePcb = some b then boot a else a - k.stackBase b < 4096#32

theorem own_congr {k k' : Kernel Slot} (idle : k'.idlePcb = k.idlePcb) {b : Slot}
    (base : k'.stackBase b = k.stackBase b) : Own boot k' b = Own boot k b := by
  funext a
  rw [Own, Own, idle, base]

/-- The page that `create_process` would get, if any, is no part of a stack in use. -/
def Apart (boot : U32 → Prop) (k : Kernel Slot) : Prop :=
  k.pmm.pmmAllocPage.1 ≠ 0#32 →
    ∀ b a, k.Listed b → a - k.pmm.pmmAllocPage.1 < 4096#32 → ¬ Own boot k b a

/-- A step of the system; where ESP lies matters only at the push of the return address. -/
inductive Step (boot : U32 → Prop) (m : Machine) : Machine → Prop
  | run (current : Slot) (running : m.kernel.currentPcb = some current) (eip esp : U32)
      (memory : U32 → U32)
      (confined : ∀ a, ¬ Own boot m.kernel current a → memory a = m.kernel.memory a) :
      Step boot m { m with eip := eip, kernel := { m.kernel with esp := esp, memory := memory } }
  -- It blocks itself, or wakes or blocks another.
  | mark (b : Slot) (state : ProcessState) (alive : state ≠ .dead) :
      Step boot m { m with kernel := m.kernel.setState b state }
  | createProcess (entryFn : U32) (priority : U8) (apart : Apart boot m.kernel) (m' : Machine)
      (ran : m.createProcess entryFn priority = some m') : Step boot m m'
  | schedule (current : Slot) (running : m.kernel.currentPcb = some current) (returnAddress : U32)
      (onStack : Own boot m.kernel current (m.kernel.esp - 4#32)) (m' : Machine)
      (ran : m.schedule returnAddress = some m') : Step boot m m'

/-- The saved stack pointer of `b` points to a return address on its stack, that of `resumption`. -/
structure Frame (boot : U32 → Prop) (m : Machine) (b : Slot) : Prop where
  own : Own boot m.kernel b (m.kernel.block b).esp
  eip : m.kernel.memory (m.kernel.block b).esp = (m.resumption b).1
  esp : (m.kernel.block b).esp + 4#32 = (m.resumption b).2

def Visited (m : Machine) (b : Slot) : Prop := ∃ c ∈ m.calls, c.next = b

structure History (m : Machine) (l : List Slot) : Prop where
  listed : ∀ c ∈ m.calls, c.old ∈ l ∧ c.next ∈ l
  arrived : ∀ b, m.kernel.currentPcb = some b → m.kernel.idlePcb = some b ∨ m.Visited b
  left : ∀ b, m.kernel.currentPcb ≠ some b →
    ((m.latestCall b).isSome ↔ m.kernel.idlePcb = some b ∨ m.Visited b)

structure Resumable (boot : U32 → Prop) (m : Machine) (l : List Slot) : Prop where
  consistent : m.kernel.Consistent l
  idle : ∀ b, m.kernel.idlePcb = some b → b ∈ l
  current : ∀ b, m.kernel.currentPcb = some b → b ∈ l
  apart : ∀ b ∈ l, ∀ c ∈ l, b ≠ c → ∀ a, Own boot m.kernel b a → ¬ Own boot m.kernel c a
  frames : ∀ b ∈ l, m.kernel.currentPcb ≠ some b → Frame boot m b
  history : History m l

structure Lands (boot : U32 → Prop) (m m' : Machine) (p : Slot) : Prop where
  first : m.kernel.idlePcb ≠ some p → (∀ c ∈ m.calls, c.next ≠ p) →
    m'.eip = m.entryFn p ∧ m'.kernel.esp = m.kernel.stackBase p + 4096#32
  again : (m.kernel.idlePcb = some p ∨ ∃ c ∈ m.calls, c.next = p) →
    ∃ c, m.latestCall p = some c ∧ m'.eip = c.returnAddress ∧ m'.kernel.esp = c.esp
  idle : m.kernel.idlePcb = some p → boot (m'.kernel.esp - 4#32)

def switched (m : Machine) (old next : Slot) (returnAddress : U32) : Machine :=
  let k := (m.kernel.push returnAddress).switchTo old next
  { m with
    kernel := k.popped
    eip := k.top
    calls := ⟨old, next, returnAddress, m.kernel.esp⟩ :: m.calls }

theorem schedule_cases {m : Machine} {l : List Slot} (consistent : m.kernel.Consistent l)
    {current : Slot} (running : m.kernel.currentPcb = some current) (returnAddress : U32) :
    m.schedule returnAddress = some m ∨
      ∃ next, next ≠ current ∧ (next ∈ l ∨ m.kernel.idlePcb = some next) ∧
        m.schedule returnAddress = some (m.switched current next returnAddress) := by
  obtain ⟨idle, idling⟩ := consistent.idle
  have pushed : (m.kernel.push returnAddress).Consistent l :=
    ⟨⟨consistent.queue, consistent.unlinked, consistent.live⟩, consistent.poolReady,
      consistent.current, consistent.idle⟩
  have running' : (m.kernel.push returnAddress).currentPcb = some current := running
  obtain ⟨k, result, _, scheduled⟩ := pushed.schedule running' idling
  have switch (next : Slot) (different : next ≠ current)
      (shape : k = (m.kernel.push returnAddress).switchTo current next) :
      m.schedule returnAddress = some (m.switched current next returnAddress) := by
    subst shape
    simp [schedule, result, running, different, switched]
  cases scheduled with
  | idles => exact .inl (by simp [schedule, result, running, running'])
  | itself => exact .inl (by simp [schedule, result, running, running'])
  | ready next different listed => exact .inr ⟨next, different, .inl listed, switch next different rfl⟩
  | fallback different => exact .inr ⟨idle, different, .inr idling, switch idle different rfl⟩

section Switched

variable (m : Machine) {old next : Slot} (returnAddress : U32)

theorem switched_idlePcb :
    (m.switched old next returnAddress).kernel.idlePcb = m.kernel.idlePcb :=
  Kernel.switchTo_idlePcb (m.kernel.push returnAddress) old next

theorem switched_stackBase :
    (m.switched old next returnAddress).kernel.stackBase = m.kernel.stackBase :=
  Kernel.switchTo_stackBase (m.kernel.push returnAddress) old next

theorem switched_block_esp (b : Slot) :
    ((m.switched old next returnAddress).kernel.block b).esp =
      if b = old then m.kernel.esp - 4#32 else (m.kernel.block b).esp :=
  Kernel.switchTo_block_esp (m.kernel.push returnAddress) old next b

theorem switched_memory :
    (m.switched old next returnAddress).kernel.memory =
      Function.update m.kernel.memory (m.kernel.esp - 4#32) returnAddress :=
  Kernel.switchTo_memory (m.kernel.push returnAddress) old next

theorem switched_esp (different : next ≠ old) :
    (m.switched old next returnAddress).kernel.esp = (m.kernel.block next).esp + 4#32 :=
  congrArg (· + 4#32) (Kernel.switchTo_esp (m.kernel.push returnAddress) different)

theorem switched_eip (different : next ≠ old) :
    (m.switched old next returnAddress).eip =
      (m.switched old next returnAddress).kernel.memory (m.kernel.block next).esp :=
  congrArg ((m.kernel.push returnAddress).switchTo old next).memory
    (Kernel.switchTo_esp (m.kernel.push returnAddress) different)

theorem own_switched (b : Slot) :
    Own boot (m.switched old next returnAddress).kernel b = Own boot m.kernel b :=
  own_congr (m.switched_idlePcb returnAddress) (congrFun (m.switched_stackBase returnAddress) b)

theorem switched_latestCall (b : Slot) :
    (m.switched old next returnAddress).latestCall b =
      if old = b then some ⟨old, next, returnAddress, m.kernel.esp⟩ else m.latestCall b := by
  rw [latestCall, switched, List.find?_cons]
  by_cases same : old = b
  next => simp [same]
  next => simp [same, latestCall]

end Switched

theorem resumption_congr {m m' : Machine} {b : Slot} (calls : m'.latestCall b = m.latestCall b)
    (entryFn : m'.entryFn b = m.entryFn b)
    (base : m'.kernel.stackBase b = m.kernel.stackBase b) : m'.resumption b = m.resumption b := by
  rw [resumption, resumption, calls, entryFn, base]

theorem resumption_of_uncalled {m : Machine} {b : Slot} (uncalled : m.latestCall b = none) :
    m.resumption b = (m.entryFn b, m.kernel.stackBase b + 4096#32) := by
  rw [resumption, uncalled]

theorem Frame.congr {m m' : Machine} {b : Slot} (h : Frame boot m b)
    (own : Own boot m'.kernel b = Own boot m.kernel b)
    (saved : (m'.kernel.block b).esp = (m.kernel.block b).esp)
    (word : m'.kernel.memory (m.kernel.block b).esp = m.kernel.memory (m.kernel.block b).esp)
    (resumption : m'.resumption b = m.resumption b) : Frame boot m' b := by
  -- A frame outlives every step that spares the saved pointer and the word it points to.
  constructor
  next =>
    rw [own, saved]
    exact h.own
  next =>
    rw [saved, word, resumption]
    exact h.eip
  next =>
    rw [saved, resumption]
    exact h.esp

theorem Resumable.run {m : Machine} {l : List Slot} (h : Resumable boot m l) {current : Slot}
    (running : m.kernel.currentPcb = some current) (eip esp : U32) {memory : U32 → U32}
    (confined : ∀ a, ¬ Own boot m.kernel current a → memory a = m.kernel.memory a) :
    Resumable boot { m with eip := eip, kernel := { m.kernel with esp := esp, memory := memory } }
      l := by
  have consistent := h.consistent
  refine ⟨⟨⟨consistent.queue, consistent.unlinked, consistent.live⟩, consistent.poolReady,
    consistent.current, consistent.idle⟩, h.idle, h.current, h.apart, ?_, ?_⟩
  · intro b listed suspended
    have frame := h.frames b listed suspended
    have different : b ≠ current := by
      intro same
      rw [same] at suspended
      exact suspended running
    have foreign := h.apart b listed current (h.current current running) different _ frame.own
    exact frame.congr rfl rfl (confined _ foreign) rfl
  · exact ⟨h.history.listed, h.history.arrived, h.history.left⟩

theorem Resumable.mark {m : Machine} {l : List Slot} (h : Resumable boot m l) (b : Slot)
    {state : ProcessState} (alive : state ≠ .dead) :
    Resumable boot { m with kernel := m.kernel.setState b state } l := by
  have base := Kernel.setState_stackBase m.kernel b state
  have own (c : Slot) : Own boot (m.kernel.setState b state) c = Own boot m.kernel c := by
    apply own_congr
    · rfl
    · exact congrFun base c
  refine ⟨⟨h.consistent.toLinked.setState b alive, h.consistent.poolReady, h.consistent.current,
    h.consistent.idle⟩, h.idle, h.current, ?_, ?_, ?_⟩
  · intro c listed d listed' different a
    rw [own, own]
    exact h.apart c listed d listed' different a
  · intro c listed suspended
    have frame := h.frames c listed suspended
    exact frame.congr (own c) (m.kernel.setState_esp b c state) rfl
      (resumption_congr rfl rfl (congrFun base c))
  · exact ⟨h.history.listed, h.history.arrived, h.history.left⟩

theorem switched_consistent {m : Machine} {l : List Slot} (h : m.kernel.Consistent l)
    (old next : Slot) (returnAddress : U32) :
    (m.switched old next returnAddress).kernel.Consistent l := by
  have pushed : (m.kernel.push returnAddress).Linked l := ⟨h.queue, h.unlinked, h.live⟩
  have linked := pushed.switchTo old next
  have pool := Kernel.switchTo_tcbPoolInitialized (m.kernel.push returnAddress) old next
  refine ⟨⟨linked.queue, linked.unlinked, linked.live⟩, ?_, ⟨next, rfl⟩, ?_⟩
  · exact fun fresh => h.poolReady (pool.symm.trans fresh)
  · rw [switched_idlePcb]
    exact h.idle

theorem Resumable.spared {m : Machine} {l : List Slot} (h : Resumable boot m l) {current b : Slot}
    (running : m.kernel.currentPcb = some current) (listed : b ∈ l) (different : b ≠ current)
    (onStack : Own boot m.kernel current (m.kernel.esp - 4#32)) :
    Frame boot m b ∧ (m.kernel.block b).esp ≠ m.kernel.esp - 4#32 := by
  -- The word that the call pushes is nobody else's return address.
  have frame := h.frames b listed fun isCurrent =>
    different (Option.some.inj (isCurrent.symm.trans running))
  refine ⟨frame, ?_⟩
  intro same
  apply h.apart b listed current (h.current current running) different _ frame.own
  rw [same]
  exact onStack

theorem frame_caller {m : Machine} {old : Slot} (next : Slot) (returnAddress : U32)
    (onStack : Own boot m.kernel old (m.kernel.esp - 4#32)) :
    Frame boot (m.switched old next returnAddress) old := by
  -- The push and the store into `old` make the caller's frame.
  have saved : ((m.switched old next returnAddress).kernel.block old).esp = m.kernel.esp - 4#32 :=
    (m.switched_block_esp returnAddress old).trans (if_pos rfl)
  have resumption : (m.switched old next returnAddress).resumption old =
      (returnAddress, m.kernel.esp) := by
    rw [resumption, switched_latestCall, if_pos rfl]
  constructor
  next =>
    rw [own_switched, saved]
    exact onStack
  next => rw [saved, switched_memory, Function.update_self, resumption]
  next => rw [saved, resumption, BitVec.sub_add_cancel]

theorem Frame.switched {m : Machine} {b : Slot} (h : Frame boot m b) {old : Slot} (next : Slot)
    (returnAddress : U32) (different : b ≠ old)
    (spared : (m.kernel.block b).esp ≠ m.kernel.esp - 4#32) :
    Frame boot (m.switched old next returnAddress) b := by
  apply h.congr (own_switched m returnAddress b)
  · rw [switched_block_esp, if_neg different]
  · rw [switched_memory, Function.update_of_ne spared]
  · apply resumption_congr
    · rw [switched_latestCall, if_neg (Ne.symm different)]
    · rfl
    · rw [switched_stackBase]

theorem History.switched {m : Machine} {l : List Slot} (h : History m l) {current next : Slot}
    (running : m.kernel.currentPcb = some current) (currentListed : current ∈ l)
    (nextListed : next ∈ l) (returnAddress : U32) :
    History (m.switched current next returnAddress) l := by
  have now : (m.switched current next returnAddress).kernel.currentPcb = some next := rfl
  refine ⟨?_, ?_, ?_⟩
  · intro c member
    rcases List.mem_cons.mp member with rfl | earlier
    · exact ⟨currentListed, nextListed⟩
    · exact h.listed c earlier
  · intro b isCurrent
    obtain rfl := Option.some.inj (now.symm.trans isCurrent)
    exact .inr ⟨_, List.mem_cons_self, rfl⟩
  · intro b suspended
    have notNext : next ≠ b := fun same => suspended (same ▸ now)
    have visited : (m.switched current next returnAddress).Visited b ↔ m.Visited b := by
      simp [Visited, Machine.switched, notNext]
    rw [switched_latestCall, switched_idlePcb, visited]
    by_cases isCaller : current = b
    -- Whoever makes a call has been switched to before, or is idle.
    next =>
      subst isCaller
      simp [h.arrived current running]
    next =>
      rw [if_neg isCaller]
      apply h.left
      intro isCurrent
      exact isCaller (Option.some.inj (running.symm.trans isCurrent))

theorem Resumable.switched {m : Machine} {l : List Slot} (h : Resumable boot m l)
    {current next : Slot} (running : m.kernel.currentPcb = some current) (listed : next ∈ l)
    (returnAddress : U32) (onStack : Own boot m.kernel current (m.kernel.esp - 4#32)) :
    Resumable boot (m.switched current next returnAddress) l := by
  have currentListed := h.current current running
  refine ⟨switched_consistent h.consistent current next returnAddress, ?_, ?_, ?_, ?_,
    h.history.switched running currentListed listed returnAddress⟩
  · rw [switched_idlePcb]
    exact h.idle
  · intro b isCurrent
    obtain rfl : next = b := Option.some.inj isCurrent
    exact listed
  · intro b bListed c cListed apart a
    rw [own_switched, own_switched]
    exact h.apart b bListed c cListed apart a
  · intro b bListed _
    by_cases isCaller : b = current
    next =>
      subst isCaller
      exact frame_caller next returnAddress onStack
    next =>
      obtain ⟨frame, spared⟩ := h.spared running bListed isCaller onStack
      exact frame.switched next returnAddress isCaller spared

section Created

variable (k : Kernel Slot) (pcb : Slot) (entryFn : U32) (priority : U8)
  (next : Slot → Option Slot) (head : Option Slot)

theorem withProcess_esp (b : Slot) :
    ((k.withProcess pcb entryFn priority next head).block b).esp =
      if b = pcb then k.pmm.pmmAllocPage.1 + 4096#32 - 4#32 else (k.block b).esp := by
  rw [Kernel.withProcess_block]
  by_cases same : b = pcb <;> simp [same, Kernel.pcbFields]

theorem withProcess_memory :
    (k.withProcess pcb entryFn priority next head).memory =
      Function.update k.memory (k.pmm.pmmAllocPage.1 + 4096#32 - 4#32) entryFn := rfl

end Created

theorem top_inside (base : U32) : base + 4096#32 - 4#32 - base < 4096#32 := by
  have offset : base + 4096#32 - 4#32 - base = 4092#32 := by bv_omega
  rw [offset]
  decide

def created (m : Machine) (pcb : Slot) (entryFn : U32) (priority : U8)
    (next : Slot → Option Slot) (head : Option Slot) : Machine :=
  { m with
    kernel := m.kernel.withProcess pcb entryFn priority next head
    entryFn := Function.update m.entryFn pcb entryFn }

section Create

variable {m : Machine} {l : List Slot} {pcb b : Slot} (entryFn : U32) (priority : U8)
  (next : Slot → Option Slot) (head : Option Slot)

theorem own_created_other (different : b ≠ pcb) :
    Own boot (m.created pcb entryFn priority next head).kernel b = Own boot m.kernel b := by
  apply own_congr
  · rfl
  · rw [created, Kernel.withProcess_stackBase, if_neg different]

theorem own_created_self (notIdle : m.kernel.idlePcb ≠ some pcb) :
    Own boot (m.created pcb entryFn priority next head).kernel pcb =
      fun a => a - m.kernel.pmm.pmmAllocPage.1 < 4096#32 := by
  funext a
  rw [Own, created, Kernel.withProcess_stackBase, if_pos rfl]
  exact if_neg notIdle

theorem frame_created (notIdle : m.kernel.idlePcb ≠ some pcb) (uncalled : m.latestCall pcb = none) :
    Frame boot (m.created pcb entryFn priority next head) pcb := by
  -- The hand-built frame: the function's address in the top word of the page.
  have saved := withProcess_esp m.kernel pcb entryFn priority next head pcb
  have base := m.kernel.withProcess_stackBase pcb entryFn priority next head pcb
  rw [if_pos rfl] at saved base
  have resumption : (m.created pcb entryFn priority next head).resumption pcb =
      (entryFn, m.kernel.pmm.pmmAllocPage.1 + 4096#32) := by
    have untouched : (m.created pcb entryFn priority next head).latestCall pcb = none := uncalled
    rw [resumption_of_uncalled untouched]
    simp only [created, Function.update_self, base]
  constructor
  next =>
    rw [own_created_self _ _ _ _ notIdle, created, saved]
    exact top_inside _
  next =>
    rw [resumption, created, saved, withProcess_memory]
    exact Function.update_self _ _ _
  next => rw [resumption, created, saved, BitVec.sub_add_cancel]

theorem Frame.created (h : Frame boot m b) (different : b ≠ pcb)
    (spared : (m.kernel.block b).esp ≠ m.kernel.pmm.pmmAllocPage.1 + 4096#32 - 4#32) :
    Frame boot (m.created pcb entryFn priority next head) b := by
  have base := m.kernel.withProcess_stackBase pcb entryFn priority next head b
  apply h.congr (own_created_other _ _ _ _ different)
  · rw [Machine.created, withProcess_esp, if_neg different]
  · rw [Machine.created, withProcess_memory, Function.update_of_ne spared]
  · apply resumption_congr
    · rfl
    · exact Function.update_of_ne different _ _
    · rw [if_neg different] at base
      exact base

theorem Resumable.created (h : Resumable boot m l) (fresh : pcb ∉ l) (apart : Apart boot m.kernel)
    (stack : m.kernel.pmm.pmmAllocPage.1 ≠ 0#32)
    (consistent : (m.kernel.withProcess pcb entryFn priority next head).Consistent (l ++ [pcb])) :
    Resumable boot (m.created pcb entryFn priority next head) (l ++ [pcb]) := by
  have notIdle : m.kernel.idlePcb ≠ some pcb := fun isIdle => fresh (h.idle pcb isIdle)
  have older {b : Slot} (listed : b ∈ l) : b ≠ pcb := fun same => fresh (same ▸ listed)
  have newPage {b : Slot} (listed : b ∈ l) (a : U32)
      (inside : a - m.kernel.pmm.pmmAllocPage.1 < 4096#32) : ¬ Own boot m.kernel b a :=
    apart stack b a ((h.consistent.queue.listed b).mpr listed) inside
  refine ⟨consistent, ?_, ?_, ?_, ?_, ?_⟩
  · intro b isIdle
    exact List.mem_append_left _ (h.idle b isIdle)
  · intro b isCurrent
    exact List.mem_append_left _ (h.current b isCurrent)
  -- The new page is apart from every older stack, whichever of the two comes first.
  · intro b bListed c cListed different a
    simp only [List.mem_append, List.mem_singleton] at bListed cListed
    rcases bListed with bOld | rfl
    · rw [own_created_other _ _ _ _ (older bOld)]
      rcases cListed with cOld | rfl
      · rw [own_created_other _ _ _ _ (older cOld)]
        exact h.apart b bOld c cOld different a
      · rw [own_created_self _ _ _ _ notIdle]
        exact fun owned inside => newPage bOld a inside owned
    · rw [own_created_self _ _ _ _ notIdle]
      rcases cListed with cOld | rfl
      · rw [own_created_other _ _ _ _ (older cOld)]
        exact fun inside => newPage cOld a inside
      · exact absurd rfl different
  · intro b listed suspended
    rcases List.mem_append.mp listed with old | new
    · have frame := h.frames b old suspended
      apply frame.created _ _ _ _ (older old)
      intro same
      apply newPage old _ (top_inside _)
      rw [← same]
      exact frame.own
    · obtain rfl := List.mem_singleton.mp new
      apply frame_created _ _ _ _ notIdle
      apply List.find?_eq_none.mpr
      intro c member same
      exact fresh ((of_decide_eq_true same) ▸ (h.history.listed c member).1)
  · refine ⟨?_, h.history.arrived, h.history.left⟩
    intro c member
    have listed := h.history.listed c member
    exact ⟨List.mem_append_left _ listed.1, List.mem_append_left _ listed.2⟩

end Create

theorem Resumable.createProcess {m m' : Machine} {l : List Slot} (h : Resumable boot m l)
    (entryFn : U32) (priority : U8) (apart : Apart boot m.kernel)
    (ran : m.createProcess entryFn priority = some m') : ∃ l', Resumable boot m' l' := by
  obtain ⟨block, k, result, outcome, consistent⟩ :=
    h.consistent.createProcess_outcome entryFn priority
  cases outcome with
  | processPoolFull =>
      obtain rfl : m = m' := by simpa [Machine.createProcess, result] using ran
      exact ⟨l, h⟩
  | processNoStack =>
      obtain rfl : { m with kernel := { m.kernel with pmm := m.kernel.pmm.pmmAllocPage.2 } } = m' := by
        simpa [Machine.createProcess, result] using ran
      refine ⟨l, consistent, h.idle, h.current, h.apart, ?_, ?_⟩
      · intro b listed suspended
        exact (h.frames b listed suspended).congr rfl rfl rfl rfl
      · exact ⟨h.history.listed, h.history.arrived, h.history.left⟩
  | process _ _ i next head found stack =>
      have shape : m.created (.pcb i) entryFn priority next head = m' := by
        simpa [Machine.createProcess, result, Machine.created] using ran
      subst shape
      have fresh := h.consistent.allocPcb_fresh found
      exact ⟨_, h.created entryFn priority next head fresh apart stack consistent⟩

theorem Resumable.step {m m' : Machine} (h : ∃ l, Resumable boot m l) (taken : Step boot m m') :
    ∃ l, Resumable boot m' l := by
  obtain ⟨l, h⟩ := h
  cases taken with
  | run current running eip esp memory confined => exact ⟨l, h.run running eip esp confined⟩
  | mark b state alive => exact ⟨l, h.mark b alive⟩
  | createProcess entryFn priority apart _ ran => exact h.createProcess entryFn priority apart ran
  | schedule current running returnAddress onStack _ ran =>
      rcases schedule_cases h.consistent running returnAddress with stays |
        ⟨next, different, listed, switches⟩
      · obtain rfl := Option.some.inj (stays.symm.trans ran)
        exact ⟨l, h⟩
      · obtain rfl := Option.some.inj (switches.symm.trans ran)
        have member : next ∈ l := listed.elim id (h.idle next)
        exact ⟨l, h.switched running member returnAddress onStack⟩

theorem resumable_start {pmm : Pmm} {esp idleTask eip : U32} {memory : U32 → U32}
    {k : Kernel Slot} (booted : (Kernel.bss pmm esp memory).schedulerInit idleTask = some k) :
    ∃ l, Resumable boot (start k eip idleTask) l := by
  obtain ⟨i, next, head, _, shape, consistent⟩ := Kernel.schedulerInit_spec booted
  have running : k.currentPcb = some (.pcb i) := by
    rw [shape]
    rfl
  have idling : k.idlePcb = some (.pcb i) := by
    rw [shape]
    rfl
  refine ⟨[.pcb i], consistent, ?_, ?_, ?_, ?_, ?_⟩
  · intro b isIdle
    obtain rfl := Option.some.inj (idling.symm.trans isIdle)
    exact List.mem_singleton_self _
  · intro b isCurrent
    obtain rfl := Option.some.inj (running.symm.trans isCurrent)
    exact List.mem_singleton_self _
  · intro b bListed c cListed different
    rw [List.mem_singleton.mp bListed, List.mem_singleton.mp cListed] at different
    exact absurd rfl different
  · intro b listed suspended
    rw [List.mem_singleton.mp listed] at suspended
    exact absurd running suspended
  · refine ⟨by simp [start], ?_, ?_⟩
    · intro b isCurrent
      exact .inl (idling.trans (running.symm.trans isCurrent))
    · intro b suspended
      have notIdle : k.idlePcb ≠ some b := fun isIdle =>
        suspended (running.trans (idling.symm.trans isIdle))
      simp [start, latestCall, Visited, notIdle]

theorem Resumable.lands {m : Machine} {l : List Slot} (h : Resumable boot m l) {current next : Slot}
    (running : m.kernel.currentPcb = some current) (listed : next ∈ l) (different : next ≠ current)
    (returnAddress : U32) (onStack : Own boot m.kernel current (m.kernel.esp - 4#32)) :
    Lands boot m (m.switched current next returnAddress) next := by
  obtain ⟨frame, spared⟩ := h.spared running listed different onStack
  have left := h.history.left next fun isCurrent =>
    different (Option.some.inj (isCurrent.symm.trans running))
  have eip : (m.switched current next returnAddress).eip = (m.resumption next).1 := by
    rw [switched_eip m returnAddress different, switched_memory, Function.update_of_ne spared]
    exact frame.eip
  have esp : (m.switched current next returnAddress).kernel.esp = (m.resumption next).2 := by
    rw [switched_esp m returnAddress different]
    exact frame.esp
  constructor
  next =>
    intro notIdle unvisited
    have uncalled : m.latestCall next = none := by
      rw [← Option.not_isSome_iff_eq_none, left]
      rintro (isIdle | ⟨c, member, visit⟩)
      · exact notIdle isIdle
      · exact unvisited c member visit
    rw [eip, esp, resumption_of_uncalled uncalled]
    exact ⟨rfl, rfl⟩
  next =>
    intro before
    obtain ⟨c, called⟩ := Option.isSome_iff_exists.mp (left.mpr before)
    rw [eip, esp, resumption, called]
    exact ⟨c, rfl, rfl, rfl⟩
  next =>
    intro isIdle
    have own := frame.own
    rw [Own, if_pos isIdle] at own
    rw [switched_esp m returnAddress different, BitVec.add_sub_cancel]
    exact own

/--
In every run from `scheduler_init`, `schedule()` returns at once or switches to another process:
to the start of its function the first time (except idle), else to behind its own latest call, and
idle always to the boot stack.
-/
theorem switch_resumes (boot : U32 → Prop) (pmm : Pmm) (esp idleTask eip : U32)
    (memory : U32 → U32) (k : Kernel Slot)
    (booted : (Kernel.bss pmm esp memory).schedulerInit idleTask = some k) (m : Machine)
    (run : Relation.ReflTransGen (Step boot) (start k eip idleTask) m) (current : Slot)
    (running : m.kernel.currentPcb = some current) (returnAddress : U32)
    (onStack : Own boot m.kernel current (m.kernel.esp - 4#32)) :
    ∃ m', m.schedule returnAddress = some m' ∧
      (m' = m ∨ ∃ p, p ≠ current ∧ m'.kernel.currentPcb = some p ∧ Lands boot m m' p) := by
  have keeps (s t : Machine) (held : ∃ l, Resumable boot s l) (taken : Step boot s t) :
      ∃ l, Resumable boot t l := Resumable.step held taken
  obtain ⟨l, h⟩ := Transition.reachable_invariant keeps (resumable_start booted) run
  rcases schedule_cases h.consistent running returnAddress with stays |
    ⟨next, different, listed, switches⟩
  · exact ⟨m, stays, .inl rfl⟩
  · have member : next ∈ l := listed.elim id (h.idle next)
    exact ⟨_, switches, .inr ⟨next, different, rfl,
      h.lands running member different returnAddress onStack⟩⟩

section FromPmmInit

variable {init : Pmm}

def Paged (init : Pmm) (m : Machine) : Prop :=
  ∃ l, m.kernel.Consistent l ∧ Stacks.Paged init m.kernel l

theorem Paged.step (page0 : 0 ∉ init.freeSet) {m m' : Machine} (h : Paged init m)
    (taken : Step boot m m') : Paged init m' := by
  obtain ⟨l, consistent, paged⟩ := h
  cases taken with
  | run =>
      exact ⟨l, ⟨⟨consistent.queue, consistent.unlinked, consistent.live⟩, consistent.poolReady,
        consistent.current, consistent.idle⟩, paged.congr rfl fun _ _ => rfl⟩
  | mark b state alive =>
      refine ⟨l, ⟨consistent.toLinked.setState b alive, consistent.poolReady, consistent.current,
        consistent.idle⟩, ?_⟩
      exact paged.congr rfl fun c _ => congrFun (Kernel.setState_stackBase m.kernel b state) c
  | createProcess entryFn priority _ _ ran =>
      obtain ⟨block, k, result, outcome, longer⟩ :=
        consistent.createProcess_outcome entryFn priority
      have kernel : m'.kernel = k := by
        cases block <;> simp [Machine.createProcess, result] at ran <;> rw [← ran]
      rw [Paged, kernel]
      refine ⟨_, longer, ?_⟩
      cases outcome with
      | processPoolFull => exact paged
      | processNoStack _ _ null => exact paged.congr (paged.failed page0 null) fun _ _ => rfl
      | process _ _ i next head found stack =>
          have base := m.kernel.withProcess_stackBase (.pcb i) entryFn priority next head
          apply paged.create page0 stack rfl
          · rw [base, if_pos rfl]
          · intro c listed
            have older : c ≠ .pcb i := fun same =>
              consistent.allocPcb_fresh found (same ▸ listed)
            rw [base, if_neg older]
  | schedule current running returnAddress _ _ ran =>
      rcases schedule_cases consistent running returnAddress with stays | ⟨next, _, _, switches⟩
      · obtain rfl := Option.some.inj (stays.symm.trans ran)
        exact ⟨l, consistent, paged⟩
      · obtain rfl := Option.some.inj (switches.symm.trans ran)
        have base (c : Slot) : (m.switched current next returnAddress).kernel.stackBase c =
            m.kernel.stackBase c := congrFun (m.switched_stackBase returnAddress) c
        refine ⟨l, switched_consistent consistent current next returnAddress, ?_⟩
        apply paged.congr _ fun c _ => base c
        exact Kernel.switchTo_pmm (m.kernel.push returnAddress) current next

theorem paged_start (wf : init.Wf) {esp idleTask : U32} (eip : U32) {memory : U32 → U32}
    {k : Kernel Slot} (booted : (Kernel.bss init esp memory).schedulerInit idleTask = some k) :
    0 ∉ init.freeSet ∧ Paged init (start k eip idleTask) := by
  obtain ⟨page0, l, consistent, booked⟩ := Stacks.conserved_of_booted wf booted
  exact ⟨page0, l, consistent, booked.paged⟩

theorem pageOf_inside {base a : U32} {page : Nat}
    (aligned : base = BitVec.ofNat 32 (page * pageSize)) (small : page < pmmMaxPages)
    (inside : a - base < 4096#32) : a.toNat / pageSize = page := by
  have value := Pmm.toNat_pageAddress page small.le
  rw [← aligned] at value
  have last : page * pageSize + 4096 ≤ 2 ^ 32 := by
    simp only [pageSize, pmmMaxPages] at small ⊢
    omega
  have offset : a.toNat - base.toNat < 4096 ∧ base.toNat ≤ a.toNat := by
    rw [value]
    bv_omega
  simp only [pageSize] at value ⊢
  omega

theorem apart_of_reachable (wf : init.Wf)
    (boot_used : ∀ a, boot a → a.toNat / pageSize ∉ init.freeSet) {esp idleTask eip : U32}
    {memory : U32 → U32} {k : Kernel Slot}
    (booted : (Kernel.bss init esp memory).schedulerInit idleTask = some k) {m : Machine}
    (run : Relation.ReflTransGen (Step boot) (start k eip idleTask) m) : Apart boot m.kernel := by
  -- From `pmm_init` on, with the boot stack outside the free pages, a new page is always
  -- apart.
  obtain ⟨page0, started⟩ := paged_start wf eip booted
  obtain ⟨l, consistent, paged⟩ := Transition.reachable_invariant
    (fun (s t : Machine) (held : Paged init s) => held.step page0) started run
  intro stack b a listed inside owned
  have member : b ∈ l := (consistent.queue.listed b).mp listed
  obtain result | ⟨page, free, _, result, _⟩ :=
    Stacks.alloc_of_page0_used paged.wf (paged.page0_used page0)
  · exact stack (congrArg Prod.fst result)
  · have wasFree : page ∈ init.freeSet := (paged.splits.covers page).mpr (.inl free)
    have bounded (q : Nat) (inInit : q ∈ init.freeSet) : q < pmmMaxPages :=
      ((Pmm.mem_freeSet init q).mp inInit).1.trans_le wf.bounded
    rw [result] at inside
    have newPage := pageOf_inside rfl (bounded page wasFree) inside
    rw [Own] at owned
    -- The boot stack lies in pages that were never free, the other stacks in pages taken since.
    split at owned
    next =>
      apply boot_used a owned
      rw [newPage]
      exact wasFree
    next =>
      have held : m.kernel.stackPage b ∈ l.map m.kernel.stackPage := List.mem_map_of_mem member
      have inInit := (paged.splits.covers _).mpr (.inr held)
      have oldPage := pageOf_inside (paged.address b member) (bounded _ inInit) owned
      apply paged.splits.apart _ held
      rw [← oldPage, newPage]
      exact free

end FromPmmInit

theorem wf_smallPmm : smallPmm.Wf where
  bounded := by decide
  counted := by decide +kernel
  tail := by
    intro page outside
    have ones : ∀ bit < 32, ((0xFFFFFFFF#32 : U32) >>> bit &&& 1#32 != 0#32) = true := by decide
    have word : page / 32 ≠ 16 := by
      simp only [smallPmm] at outside
      omega
    simp only [Pmm.bitmapTest, Bitmap.test, smallPmm, if_neg word]
    exact ones (page % 32) (Nat.mod_lt _ (by decide))

def smallBootStack (a : U32) : Prop := 0x10C000#32 ≤ a ∧ a < 0x110000#32

instance (a : U32) : Decidable (smallBootStack a) := inferInstanceAs (Decidable (_ ∧ _))

theorem switch_resumes_boot :
    ∃ k m m', smallBoot = some k ∧
      Relation.ReflTransGen (Step smallBootStack) (start k 0x100010#32 0x100100#32) m ∧
      m.schedule 0x100500#32 = some m' ∧ m'.kernel.currentPcb = some (.pcb 0) ∧
      Lands smallBootStack m m' (.pcb 0) ∧ m'.eip = 0x100400#32 := by
  have evaluated : (smallBoot.bind fun k =>
      ((start k 0x100010#32 0x100100#32).createProcess 0x100200#32 1#8).bind fun m₁ =>
        (m₁.schedule 0x100400#32).bind fun m₂ => (m₂.schedule 0x100500#32).map fun m₃ =>
          ((m₁.kernel.currentPcb, m₁.kernel.idlePcb, m₁.kernel.esp),
            (m₂.kernel.currentPcb, m₂.kernel.idlePcb, m₂.kernel.esp - m₂.kernel.stackBase (.pcb 1)),
            (m₃.kernel.currentPcb, m₃.eip))) =
      some ((some (.pcb 0), some (.pcb 0), 0x110000#32),
        (some (.pcb 1), some (.pcb 0), 4096#32), (some (.pcb 0), 0x100400#32)) := by
    decide +kernel
  obtain ⟨k, booted, evaluated⟩ := Option.bind_eq_some_iff.mp evaluated
  obtain ⟨m₁, created, evaluated⟩ := Option.bind_eq_some_iff.mp evaluated
  obtain ⟨m₂, entered, evaluated⟩ := Option.bind_eq_some_iff.mp evaluated
  obtain ⟨m₃, back, values⟩ := Option.map_eq_some_iff.mp evaluated
  simp only [Prod.mk.injEq] at values
  obtain ⟨⟨current₁, idle₁, esp₁⟩, ⟨current₂, idle₂, esp₂⟩, current₃, eip₃⟩ := values
  have boot_used (a : U32) (inside : smallBootStack a) :
      a.toNat / pageSize ∉ smallPmm.freeSet := by
    have low : ∀ page < 272, page ∉ smallPmm.freeSet := by decide +kernel
    apply low
    simp only [smallBootStack, pageSize] at inside ⊢
    bv_omega
  have run : Relation.ReflTransGen (Step smallBootStack) (start k 0x100010#32 0x100100#32) m₂ := by
    have apart : Apart smallBootStack (start k 0x100010#32 0x100100#32).kernel :=
      apart_of_reachable wf_smallPmm boot_used booted .refl
    apply Relation.ReflTransGen.tail (.single (.createProcess _ _ apart m₁ created))
    apply Step.schedule (.pcb 0) current₁ 0x100400#32 _ m₂ entered
    rw [Own, if_pos idle₁, esp₁]
    decide
  have onStack : Own smallBootStack m₂.kernel (.pcb 1) (m₂.kernel.esp - 4#32) := by
    rw [Own, if_neg (by simp [idle₂])]
    bv_omega
  obtain ⟨m', ran, stays | ⟨p, different, isCurrent, lands⟩⟩ :=
    switch_resumes smallBootStack smallPmm _ _ 0x100010#32 _ k booted m₂ run (.pcb 1) current₂
      0x100500#32 onStack
  · obtain rfl := Option.some.inj (ran.symm.trans back)
    rw [stays, current₂] at current₃
    exact absurd current₃ (by decide)
  · obtain rfl := Option.some.inj (ran.symm.trans back)
    obtain rfl : Slot.pcb 0 = p := Option.some.inj (current₃.symm.trans isCurrent)
    exact ⟨k, m₂, m', booted, run, ran, isCurrent, lands, eip₃⟩

end SoraOS.Machine
