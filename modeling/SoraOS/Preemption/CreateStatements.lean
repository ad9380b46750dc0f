import SoraOS.Scheduler.Stacks

set_option autoImplicit false

namespace SoraOS

/--
The next statement of `create_process`, `alloc_pcb`, `pmm_alloc_page` or `enqueue`, in that
order. What a statement does to locals only is merged with the one before it.
-/
inductive CreatePc where
  -- `alloc_pcb`
  | testUnused (i : Fin maxProcesses)
  | testUsedBefore (i : Fin maxProcesses)
  -- `pmm_alloc_page`
  | testWord (i : Nat)
  | testPage (i bit : Nat)
  | setPage
  | decrement
  -- `create_process`
  | storeEntry
  | setPid
  | setState
  | setPriority
  | setEsp
  | setStackBase
  | setNext
  -- `enqueue`
  | clearNext
  | testHead
  | setHead
  | loadHead
  | testTail (tail : Slot)
  | advance (tail : Slot)
  | linkTail (tail : Slot)
  | returned
  | returnedNull
  deriving DecidableEq

/-- One call of `create_process`: its arguments, and the locals `pcb` and `page`. -/
structure Creator where
  entryFn : U32
  priority : U8
  pc : CreatePc
  pcb : Option Slot
  page : Nat

namespace Creator

def call (entryFn : U32) (priority : U8) : Creator where
  entryFn := entryFn
  priority := priority
  pc := .testUnused 0
  pcb := none
  page := 0

def goto (c : Creator) (pc : CreatePc) : Creator := { c with pc := pc }

@[simp] theorem goto_pc (c : Creator) (pc : CreatePc) : (c.goto pc).pc = pc := rfl
@[simp] theorem goto_pcb (c : Creator) (pc : CreatePc) : (c.goto pc).pcb = c.pcb := rfl
@[simp] theorem goto_page (c : Creator) (pc : CreatePc) : (c.goto pc).page = c.page := rfl

/-- `page * PAGE_SIZE` -/
def stack (c : Creator) : U32 := BitVec.ofNat 32 (c.page * pageSize)

def sp (c : Creator) : U32 := c.stack + 4096#32 - 4#32

/-- After `alloc_pcb`; where it returned `NULL`, so does `create_process`. -/
def picked (c : Creator) : Option Slot → Creator
  | some pcb => { c with pcb := some pcb, pc := .testWord 0 }
  | none => c.goto .returnedNull

/-- After the search of `pmm_alloc_page`; without a page `create_process` returns `NULL`. -/
def chosen (c : Creator) : Option Nat → Creator
  | some page => { c with page := page, pc := .setPage }
  | none => c.goto .returnedNull

end Creator

namespace Kernel

def slotUnused (k : Kernel Slot) (i : Fin maxProcesses) : Bool :=
  -- `pcb_pool[i].state == PROCESS_DEAD && pcb_pool[i].pid == 0`
  k.state (.pcb i) = .dead && (k.block (.pcb i)).pid = 0#32

/-- `pcb_pool[i].state == PROCESS_DEAD` -/
def slotUsedBefore (k : Kernel Slot) (i : Fin maxProcesses) : Bool := k.state (.pcb i) = .dead

/-- One statement of a call; `none` after its return, and where a local or a link is `NULL`. -/
def createStatement (k : Kernel Slot) (c : Creator) : Option (Kernel Slot × Creator) :=
  match c.pc with
  | .testUnused i =>
      if k.slotUnused i then some (k, { c with pcb := some (.pcb i), pc := .testWord 0 })
      else if h : i.val + 1 < maxProcesses then some (k, c.goto (.testUnused ⟨i.val + 1, h⟩))
      else some (k, c.goto (.testUsedBefore 0))
  | .testUsedBefore i =>
      if k.slotUsedBefore i then some (k, { c with pcb := some (.pcb i), pc := .testWord 0 })
      else if h : i.val + 1 < maxProcesses then some (k, c.goto (.testUsedBefore ⟨i.val + 1, h⟩))
      else some (k, c.goto .returnedNull)
  | .testWord i =>
      if i < k.pmm.totalPages / 32 then
        if k.pmm.bitmap i = 0xFFFFFFFF#32 then some (k, c.goto (.testWord (i + 1)))
        else some (k, c.goto (.testPage i 0))
      else some (k, c.goto .returnedNull)
  | .testPage i bit =>
      if k.pmm.bitmapTest (i * 32 + bit) = false then
        some (k, { c with page := i * 32 + bit, pc := .setPage })
      else if bit + 1 < 32 then some (k, c.goto (.testPage i (bit + 1)))
      else some (k, c.goto (.testWord (i + 1)))
  | .setPage => some ({ k with pmm := k.pmm.bitmapSet c.page }, c.goto .decrement)
  | .decrement =>
      let pmm := { k.pmm with freePages := k.pmm.freePages - 1#32 }
      some ({ k with pmm := pmm }, c.goto (if c.stack = 0#32 then .returnedNull else .storeEntry))
  | .storeEntry =>
      some ({ k with memory := Function.update k.memory c.sp c.entryFn }, c.goto .setPid)
  | .setPid => c.pcb.map fun pcb =>
      let k := { k with nextPid := k.nextPid + 1#32 }
      (k.modify pcb fun t => { t with pid := k.nextPid }, c.goto .setState)
  | .setState => c.pcb.map fun pcb => (k.setState pcb .ready, c.goto .setPriority)
  | .setPriority => c.pcb.map fun pcb =>
      (k.modify pcb fun t => { t with priority := c.priority }, c.goto .setEsp)
  | .setEsp => c.pcb.map fun pcb =>
      (k.modify pcb fun t => { t with esp := c.sp }, c.goto .setStackBase)
  | .setStackBase => c.pcb.map fun pcb =>
      (k.modify pcb fun t => { t with stackBase := c.stack }, c.goto .setNext)
  | .setNext => c.pcb.map fun pcb => (k.setNext pcb none, c.goto .clearNext)
  | .clearNext => c.pcb.map fun pcb => (k.setNext pcb none, c.goto .testHead)
  | .testHead => some (k, c.goto (if k.runQueue = none then .setHead else .loadHead))
  | .setHead => some ({ k with runQueue := c.pcb }, c.goto .returned)
  | .loadHead => k.runQueue.map fun tail => (k, c.goto (.testTail tail))
  | .testTail tail =>
      some (k, c.goto (if k.links tail = none then .linkTail tail else .advance tail))
  | .advance tail => (k.links tail).map fun next => (k, c.goto (.testTail next))
  | .linkTail tail => some (k.setNext tail c.pcb, c.goto .returned)
  | .returned => none
  | .returnedNull => none

def StatementsRun (k : Kernel Slot) (c : Creator) (k' : Kernel Slot) (c' : Creator) : Prop :=
  Relation.ReflTransGen (fun s t : Kernel Slot × Creator => s.1.createStatement s.2 = some t)
    (k, c) (k', c')

section Loops

variable {k : Kernel Slot} {c : Creator}

theorem StatementsRun.next {k' k'' : Kernel Slot} {c' c'' : Creator}
    (first : k.createStatement c = some (k', c')) (rest : StatementsRun k' c' k'' c'') :
    StatementsRun k c k'' c'' := .head first rest

theorem slots_run {test : Fin maxProcesses → Bool} {loop : Fin maxProcesses → CreatePc}
    {passed : Fin maxProcesses → Creator} {failed : CreatePc}
    (body : ∀ i, k.createStatement (c.goto (loop i)) =
      some (k, if test i then passed i
        else if h : i.val + 1 < maxProcesses then c.goto (loop ⟨i.val + 1, h⟩)
        else c.goto failed)) (i : Fin maxProcesses) :
    StatementsRun k (c.goto (loop i)) k
      ((((List.finRange maxProcesses).drop i).find? test).elim (c.goto failed) passed) := by
  -- The induction is on the number of slots left to test.
  induction left : maxProcesses - i.val generalizing i with
  | zero =>
      have inside := i.isLt
      omega
  | succ n ih =>
      have inside : i.val < (List.finRange maxProcesses).length := by simp
      have first := body i
      rw [List.drop_eq_getElem_cons inside, List.find?_cons, List.getElem_finRange]
      simp only [Fin.cast_mk, Fin.eta]
      cases passes : test i with
      | true =>
          rw [passes, if_pos rfl] at first
          exact .single first
      | false =>
          rw [passes, if_neg Bool.false_ne_true] at first
          by_cases more : i.val + 1 < maxProcesses
          next =>
            rw [dif_pos more] at first
            exact .next first (ih ⟨i.val + 1, more⟩ (by simp only; omega))
          next =>
            rw [dif_neg more] at first
            have none : (List.finRange maxProcesses).drop (i.val + 1) = [] := by
              apply List.drop_eq_nil_of_le
              simp only [List.length_finRange]
              omega
            rw [none]
            exact .single first

theorem allocPcb_run (k : Kernel Slot) (c : Creator) :
    StatementsRun k (c.goto (.testUnused 0)) k (c.picked k.allocPcb) := by
  have first : StatementsRun k (c.goto (.testUnused 0)) k
      (((List.finRange maxProcesses).find? k.slotUnused).elim (c.goto (.testUsedBefore 0))
        fun i => c.picked (some (.pcb i))) := by
    refine slots_run (fun i => ?_) 0
    simp only [createStatement, Creator.goto]
    split_ifs <;> rfl
  have second : StatementsRun k (c.goto (.testUsedBefore 0)) k
      (((List.finRange maxProcesses).find? k.slotUsedBefore).elim (c.goto .returnedNull)
        fun i => c.picked (some (.pcb i))) := by
    refine slots_run (fun i => ?_) 0
    simp only [createStatement, Creator.goto]
    split_ifs <;> rfl
  have result : k.allocPcb = (((List.finRange maxProcesses).find? k.slotUnused).or
      ((List.finRange maxProcesses).find? k.slotUsedBefore)).map Slot.pcb := rfl
  cases unused : (List.finRange maxProcesses).find? k.slotUnused with
  | some i =>
      rw [unused] at first result
      rw [result]
      exact first
  | none =>
      rw [unused] at first result
      rw [result]
      cases usedBefore : (List.finRange maxProcesses).find? k.slotUsedBefore with
      | some i =>
          rw [usedBefore] at second
          exact first.trans second
      | none =>
          rw [usedBefore] at second
          exact first.trans second

theorem bits_run (k : Kernel Slot) (c : Creator) (i bit : Nat) (inside : bit < 32) :
    StatementsRun k (c.goto (.testPage i bit)) k
      (((List.range' bit (32 - bit)).findSome? fun bit =>
        if k.pmm.bitmapTest (i * 32 + bit) then none else some (i * 32 + bit)).elim
          (c.goto (.testWord (i + 1))) fun page => c.chosen (some page)) := by
  induction left : 32 - bit generalizing bit with
  | zero => omega
  | succ n ih =>
      rw [List.range'_succ, List.findSome?_cons]
      cases used : k.pmm.bitmapTest (i * 32 + bit) with
      | false =>
          refine .single ?_
          simp [createStatement, Creator.goto, used, Creator.chosen]
      | true =>
          by_cases more : bit + 1 < 32
          next =>
            have first : k.createStatement (c.goto (.testPage i bit)) =
                some (k, c.goto (.testPage i (bit + 1))) := by
              simp [createStatement, Creator.goto, used, more]
            exact .next first (ih (bit + 1) more (by omega))
          next =>
            obtain rfl : n = 0 := by omega
            refine .single ?_
            simp [createStatement, Creator.goto, used, more]

theorem words_run (k : Kernel Slot) (c : Creator) (i : Nat) :
    StatementsRun k (c.goto (.testWord i)) k (c.chosen
      ((List.range' i (k.pmm.totalPages / 32 - i)).findSome? fun i =>
        if k.pmm.bitmap i = 0xFFFFFFFF#32 then none
        else (List.range 32).findSome? fun bit =>
          if k.pmm.bitmapTest (i * 32 + bit) then none else some (i * 32 + bit))) := by
  induction left : k.pmm.totalPages / 32 - i generalizing i with
  | zero =>
      refine .single ?_
      have done : ¬ i < k.pmm.totalPages / 32 := by omega
      simp [createStatement, Creator.goto, done, Creator.chosen]
  | succ n ih =>
      have inside : i < k.pmm.totalPages / 32 := by omega
      have later := ih (i + 1) (by omega)
      rw [List.range'_succ, List.findSome?_cons]
      by_cases full : k.pmm.bitmap i = 0xFFFFFFFF#32
      next =>
        have first : k.createStatement (c.goto (.testWord i)) =
            some (k, c.goto (.testWord (i + 1))) := by
          simp [createStatement, Creator.goto, inside, full]
        rw [if_pos full]
        exact .next first later
      next =>
        have first : k.createStatement (c.goto (.testWord i)) =
            some (k, c.goto (.testPage i 0)) := by
          simp [createStatement, Creator.goto, inside, full]
        have bits := bits_run k c i 0 (by decide)
        rw [Nat.sub_zero, ← List.range_eq_range'] at bits
        rw [if_neg full]
        cases found : (List.range 32).findSome? fun bit =>
            if k.pmm.bitmapTest (i * 32 + bit) then none else some (i * 32 + bit) with
        | some page =>
            rw [found] at bits
            exact .next first bits
        | none =>
            rw [found] at bits
            exact .next first (bits.trans later)

theorem firstClear_run (k : Kernel Slot) (c : Creator) :
    StatementsRun k (c.goto (.testWord 0)) k
      (c.chosen (Bitmap.firstClear k.pmm.bitmap (k.pmm.totalPages / 32))) := by
  have words := words_run k c 0
  rw [Nat.sub_zero, ← List.range_eq_range'] at words
  exact words

theorem tail_run {tail last : Slot} (fuel : Nat)
    (found : PointerList.walk k.links (fun tail => (k.links tail).isNone) fuel (some tail) =
      some (some last)) :
    StatementsRun k (c.goto (.testTail tail)) k (c.goto (.linkTail last)) := by
  -- Each step of the walk is one test and one advance.
  induction fuel generalizing tail with
  | zero => cases found
  | succ fuel ih =>
      rw [PointerList.walk] at found
      cases link : k.links tail with
      | none =>
          obtain rfl : tail = last := by simpa [link] using found
          refine .single ?_
          simp [createStatement, Creator.goto, link]
      | some next =>
          have test : k.createStatement (c.goto (.testTail tail)) =
              some (k, c.goto (.advance tail)) := by
            simp [createStatement, Creator.goto, link]
          have advance : k.createStatement (c.goto (.advance tail)) =
              some (k, c.goto (.testTail next)) := by
            simp [createStatement, Creator.goto, link]
          simp only [link, Option.isNone_some, Bool.false_eq_true, if_false] at found
          exact .next test (.next advance (ih found))

theorem enqueue_run {k' : Kernel Slot} {pcb : Slot} (own : c.pcb = some pcb)
    (result : k.enqueue pcb = some k') :
    StatementsRun k (c.goto .clearNext) k' (c.goto .returned) := by
  have clear : k.createStatement (c.goto .clearNext) =
      some (k.setNext pcb none, c.goto .testHead) := by
    simp [createStatement, Creator.goto, own]
  refine .next clear ?_
  unfold enqueue at result
  dsimp only at result
  cases head : (k.setNext pcb none).runQueue with
  | none =>
      rw [head] at result
      obtain rfl := Option.some.inj result
      have test : (k.setNext pcb none).createStatement (c.goto .testHead) =
          some (k.setNext pcb none, c.goto .setHead) := by
        simp only [createStatement, Creator.goto, head, if_true]
      refine .next test (.single ?_)
      simp only [createStatement, Creator.goto, own]
  | some first =>
      simp only [head] at result
      obtain ⟨found, walked, result⟩ := Option.bind_eq_some_iff.mp result
      obtain ⟨last, rfl, result⟩ := Option.bind_eq_some_iff.mp result
      obtain rfl := Option.some.inj result
      have test : (k.setNext pcb none).createStatement (c.goto .testHead) =
          some (k.setNext pcb none, c.goto .loadHead) := by
        simp [createStatement, Creator.goto, head]
      have load : (k.setNext pcb none).createStatement (c.goto .loadHead) =
          some (k.setNext pcb none, c.goto (.testTail first)) := by
        simp only [createStatement, Creator.goto, head, Option.map_some]
      rw [findTail, head] at walked
      have link : (k.setNext pcb none).createStatement (c.goto (.linkTail last)) =
          some ((k.setNext pcb none).setNext last (some pcb), c.goto .returned) := by
        simp only [createStatement, Creator.goto, own]
      exact .next test (.next load ((tail_run _ walked).trans (.single link)))

theorem fillPcb_run (k : Kernel Slot) {c : Creator} {pcb : Slot} (own : c.pcb = some pcb) :
    StatementsRun k (c.goto .storeEntry) (k.fillPcb pcb c.stack c.entryFn c.priority)
      (c.goto .clearNext) := by
  have stored : StatementsRun k (c.goto .storeEntry)
      { k with memory := Function.update k.memory c.sp c.entryFn } (c.goto .setPid) := .single rfl
  refine stored.trans ?_
  -- All but the PID are plain assignments to a field of the new block.
  have assign (k : Kernel Slot) (f : Tcb Slot → Tcb Slot) (pc pc' : CreatePc)
      (statement : k.createStatement (c.goto pc) =
        c.pcb.map fun pcb => (k.modify pcb f, c.goto pc')) :
      StatementsRun k (c.goto pc) (k.modify pcb f) (c.goto pc') := by
    refine .single (statement.trans ?_)
    rw [own]
    rfl
  have setPid (k : Kernel Slot) : StatementsRun k (c.goto .setPid)
      (({ k with nextPid := k.nextPid + 1#32 } : Kernel Slot).modify pcb
        fun t => { t with pid := k.nextPid + 1#32 }) (c.goto .setState) := by
    refine .single ?_
    simp only [createStatement, Creator.goto, own, Option.map_some]
  refine (setPid _).trans ?_
  refine (assign _ _ .setState .setPriority rfl).trans ?_
  refine (assign _ _ .setPriority .setEsp rfl).trans ?_
  refine (assign _ _ .setEsp .setStackBase rfl).trans ?_
  refine (assign _ _ .setStackBase .setNext rfl).trans ?_
  refine (assign _ _ .setNext .clearNext rfl).trans ?_
  simp only [modify_modify, fillPcb]
  exact Relation.ReflTransGen.refl

end Loops

theorem takePage_run (k : Kernel Slot) (c : Creator) :
    StatementsRun k (c.goto .setPage)
      { k with pmm := { k.pmm.bitmapSet c.page with freePages := k.pmm.freePages - 1#32 } }
      (c.goto (if c.stack = 0#32 then .returnedNull else .storeEntry)) := by
  have set : k.createStatement (c.goto .setPage) =
      some ({ k with pmm := k.pmm.bitmapSet c.page }, c.goto .decrement) := rfl
  exact .next set (.single rfl)

theorem statements_createProcess {k k' : Kernel Slot} {entryFn : U32} {priority : U8}
    {block : Option Slot} (result : k.createProcess entryFn priority = some (block, k')) :
    ∃ c, StatementsRun k (.call entryFn priority) k' c ∧
      match block with
      | some pcb => c.pc = .returned ∧ c.pcb = some pcb
      | none => c.pc = .returnedNull := by
  have slot := allocPcb_run k (.call entryFn priority)
  unfold createProcess at result
  cases found : k.allocPcb with
  | none =>
      rw [found] at slot result
      obtain ⟨rfl, rfl⟩ : none = block ∧ k = k' := by simpa using result
      exact ⟨_, slot, rfl⟩
  | some pcb =>
      rw [found] at slot result
      dsimp only at result
      have page := firstClear_run k ((Creator.call entryFn priority).picked (some pcb))
      unfold Pmm.pmmAllocPage at result
      cases clear : Bitmap.firstClear k.pmm.bitmap (k.pmm.totalPages / 32) with
      | none =>
          rw [clear] at page result
          obtain ⟨rfl, rfl⟩ : none = block ∧ k = k' := by simpa using result
          exact ⟨_, slot.trans page, rfl⟩
      | some i =>
          rw [clear] at page result
          dsimp only at result
          have taken := slot.trans (page.trans
            (takePage_run k (((Creator.call entryFn priority).picked (some pcb)).chosen (some i))))
          by_cases null : BitVec.ofNat 32 (i * pageSize) = 0#32
          next =>
            rw [if_pos null] at result
            obtain ⟨rfl, rfl⟩ : none = block ∧ _ = k' := by simpa using result
            refine ⟨_, taken, ?_⟩
            exact if_pos null
          next =>
            rw [if_neg null] at result
            obtain ⟨filled, queued, result⟩ := Option.bind_eq_some_iff.mp result
            obtain ⟨rfl, rfl⟩ : some pcb = block ∧ filled = k' := by simpa using result
            have storing : (((Creator.call entryFn priority).picked (some pcb)).chosen (some i)).stack ≠
                0#32 := null
            rw [if_neg storing] at taken
            have fill := fillPcb_run
              { k with pmm := { k.pmm.bitmapSet i with freePages := k.pmm.freePages - 1#32 } }
              (c := ((Creator.call entryFn priority).picked (some pcb)).chosen (some i)) rfl
            exact ⟨_, taken.trans (fill.trans (enqueue_run rfl queued)), rfl, rfl⟩

end Kernel

end SoraOS
