import SoraOS.Boot.Gdt
import SoraOS.Boot.Panic
import SoraOS.Boot.Pit
import SoraOS.Boot.Serial
import SoraOS.Session.Devices

set_option autoImplicit false

/-! `kernel_main.c`: from the boot loader to the first prompt. -/

namespace SoraOS

namespace Boot

open X86 Stubs Vga Session I8254

def typePrint (s : List U8) (color : U8) : List Vga.Op :=
  (cString s).map fun c => .vgaPrintColor [c] color

def cursorAt (row : Fin 25) (col : Fin 80) : List Vga.Op := [.vgaSetCursor row col]

def bootLogo : List Vga.Op :=
  cursorAt 3 15 ++
  typePrint (ascii "__     __                              ___  ____  ") 0x0B#8 ++
  cursorAt 4 15 ++
  typePrint (ascii "\\ \\   / /__ _ _ __ ___   ___  ___    / _ \\/ ___| ") 0x0B#8 ++
  cursorAt 5 15 ++
  typePrint (ascii " \\ \\ / / _` | '_ ` _ \\ / _ \\/ __|  | | | \\___ \\ ") 0x0B#8 ++
  cursorAt 6 15 ++
  typePrint (ascii "  \\ V / (_| | | | | | | (_) \\__ \\  | |_| |___) |") 0x0B#8 ++
  cursorAt 7 15 ++
  typePrint (ascii "   \\_/ \\__,_|_| |_| |_|\\___/|___/   \\___/|____/ ") 0x0B#8 ++
  cursorAt 9 28 ++ typePrint (ascii "A Simple x86 Kernel") 0x07#8 ++
  cursorAt 10 30 ++ typePrint (ascii "Built in C & Assembly") 0x08#8

def bootSteps : List (List U8) :=
  [ascii " GDT", ascii " IDT", ascii " PIC", ascii " PIT", ascii " PMM", ascii " KBD", ascii " SCH"]

def loadingBar : List Vga.Op :=
  cursorAt 13 20 ++ [.vgaPrintColor (ascii "Loading") 0x0F#8] ++
  (bootSteps.flatMap fun step => typePrint step 0x0A#8 ++ [.vgaPrintColor (ascii ".") 0x0E#8]) ++
  cursorAt 14 20 ++ typePrint (ascii "[ DONE ] Vamos OS ready.") 0x0A#8

-- Without the delays.
def bootScreen (v : Vga) : Vga :=
  let v := v.vgaSetColor 0#8 0#8
  let v := (List.range (vgaWidth * vgaHeight)).foldl (fun v i => v.store i 0x0000#16) v
  (bootLogo ++ loadingBar).foldl Vga.perform v

def noIdleProcess : List U8 := ascii "scheduler_init: failed to create idle process"

/-- What the boot loader hands over, and what the devices and the kernel's memory hold by then. -/
structure Hardware where
  segmented : Segmented
  vga : Vga
  uart : Uart
  pics : I8259.Pair
  timer : Timer
  keys : U8 → U8
  words : U32 → U32

structure Image where
  places : GdtPlaces
  labels : Labels
  kernelEnd : U32
  idleTask : U32
  -- ESP inside `scheduler_init`
  esp : U32

def Hardware.afterGdt (h : Hardware) (image : Image) : Memory :=
  loadedTable (gdtInitMemory h.segmented.memory image.places (h.segmented.cpu.reg .esp))
    image.places.entries

/-- The machine as `shell_run` finds it; `serial` is what `serial_print` was called with. -/
structure Booted (σ : Type) where
  segmented : Segmented
  vga : Vga
  uart : Uart
  serial : List (List U8)
  idt : Vector IdtEntry 256
  pics : I8259.Pair
  timer : Timer
  handlers : Handlers σ
  keyboard : Keyboard
  kernel : Kernel Slot

inductive Outcome (σ : Type) where
  | panicked (panic : Panicked) (serial : List (List U8))
  | shell (machine : Booted σ)

section Main

variable {σ : Type}

def sti (s : Segmented) : Segmented :=
  { s with cpu := { s.cpu with eflags := s.cpu.eflags ||| 0x200#32 } }

-- `none` for a fault, or when `pmm_init` has not ended within the fuel.
def kernelMain (h : Hardware) (image : Image) (mb : MultibootInfo) (fuel : Nat)
    (timerHandler keyboardHandler : σ → σ) : Option (Outcome σ) := do
  let segmented ← gdtInit h.segmented image.places
  let vga := h.vga.vgaInit
  let uart := serialWrites h.uart serialInit
  let serial := [ascii "Vamos OS booting...\n"]
  let vga := bootScreen vga
  let idt := idtInit image.labels
  let handlers : Handlers σ := Vector.replicate irqCount none
  let serial := serial ++ [ascii "IDT ok\n"]
  let pics := picWrites h.pics picInit
  let serial := serial ++ [ascii "PIC ok\n"]
  let (writes, handlers) ← pitInit handlers timerHandler 100#32
  let timer := pitWrites h.timer writes
  let serial := serial ++ [ascii "PIT ok\n"]
  let pmm ← Pmm.pmmInit segmented.memory mb image.kernelEnd fuel
  let serial := serial ++ [ascii "PMM ok\n"]
  let keyboard := Keyboard.keyboardInit h.keys
  let handlers := irqRegisterHandler handlers 1#8 keyboardHandler
  let serial := serial ++ [ascii "Keyboard ok\n"]
  match (Kernel.bss pmm image.esp h.words).schedulerInit image.idleTask with
  | none => return .panicked (kernelPanic vga true noIdleProcess) serial
  | some kernel =>
      let serial := serial ++ [ascii "Scheduler ok\n"]
      let segmented := sti segmented
      let serial := serial ++ [ascii "Interrupts enabled\n"]
      return .shell
        { segmented := segmented, vga := vga, uart := uart, serial := serial, idt := idt
          pics := pics, timer := timer, handlers := handlers, keyboard := keyboard
          kernel := kernel }

structure Started (image : Image) (timerHandler keyboardHandler : σ → σ) (init : Pmm)
    (b : Booted σ) : Prop where
  inBounds : b.vga.inBounds = true
  flat : b.segmented.Flat
  gdt : HoldsGdt b.segmented
  interrupts : b.segmented.cpu.eflags.getLsbD 9 = true
  gates : ∀ vector (inside : vector < 256), present b.idt[vector] = true ↔ vector < 48
  -- the GDT has the segment that the gates name
  enters : ∀ vector (defined : vector < 256), vector < 48 → ∃ s,
    b.segmented.jmpFar b.idt[vector].gate.selector b.idt[vector].gate.offset = some s ∧
      s.cpu.eip = image.labels.isr vector
  pics : b.pics = remapped
  handlers : ∀ irq, b.handlers.get irq =
    if irq.val = 0 then some timerHandler else if irq.val = 1 then some keyboardHandler else none
  period : (b.timer 0).period = some 11931
  uart : Serial.Ready b.uart
  table : ∃ l, Represents init b.kernel l Table.initial
  keyboard : ∃ buffer, b.keyboard = Keyboard.keyboardInit buffer

theorem schedulerInit_none {pmm : Pmm} {esp idleTask : U32} {memory : U32 → U32} :
    (Kernel.bss pmm esp memory).schedulerInit idleTask = none ↔ pmm.pmmAllocPage.1 = 0#32 := by
  have empty : (Kernel.bss pmm esp memory).zeroPcbPool.Linked [] :=
    ⟨rfl, fun b _ => by cases b <;> rfl, by simp⟩
  rcases empty.createProcess idleTask 0#8 with ⟨full, -⟩ | ⟨null, result⟩ |
    ⟨pcb, next, head, found, _, nonNull, result, longer⟩
  · exact absurd rfl (Kernel.allocPcb_none full 0)
  · exact iff_of_true (by simp [Kernel.schedulerInit, result]) null
  · exact iff_of_false (by simp [Kernel.schedulerInit, result]) nonNull

-- Page 0 is no stack: its address is NULL.
theorem alloc_null_iff {pmm : Pmm} (wf : pmm.Wf) :
    pmm.pmmAllocPage.1 = 0#32 ↔ searched pmm = ∅ ∨ 0 ∈ searched pmm := by
  by_cases page0 : 0 ∈ searched pmm
  next =>
    rcases pmm.pmmAllocPage_cases with ⟨-, result⟩ | ⟨page, -, -, lowest, result⟩
    · simp [result, page0]
    · have clear := ((Pmm.mem_freeSet pmm 0).mp (Finset.mem_filter.mp page0).1).2
      have first : page = 0 := by
        by_contra later
        rw [lowest 0 (Nat.pos_of_ne_zero later)] at clear
        cases clear
      simp [result, page0, first]
  next =>
    rcases pmm.pmmAllocPage_cases with ⟨full, result⟩ | ⟨page, free, inside, -, result⟩
    · have none : searched pmm = ∅ := by
        rw [searched, Finset.filter_eq_empty_iff]
        intro page free inside
        have clear := ((Pmm.mem_freeSet pmm page).mp free).2
        rw [full page inside] at clear
        cases clear
      simp [result, none]
    · have member : page ∈ searched pmm := Finset.mem_filter.mpr ⟨free, inside⟩
      have value := Pmm.toNat_pageAddress page (wf.page_small free)
      have nonNull : BitVec.ofNat 32 (page * pageSize) ≠ 0#32 := by
        intro null
        rw [null] at value
        have first : page = 0 := by simpa [pageSize] using value.symm
        exact page0 (first ▸ member)
      simp [result, nonNull, page0, Finset.ne_empty_of_mem member]

theorem bootScreen_spec (v : Vga) (placed : v.Placed) :
    (bootScreen v).Placed ∧ (bootScreen v).inBounds = v.inBounds := by
  have black : Confined 0 (vgaWidth * vgaHeight) (v.vgaSetColor 0#8 0#8)
      ((List.range (vgaWidth * vgaHeight)).foldl (fun w i => w.store i 0x0000#16)
        (v.vgaSetColor 0#8 0#8)) := by
    apply Confined.foldl
    intro i inside w
    exact confined_store w _ (Nat.zero_le i) (List.mem_range.mp inside) le_rfl
  have cursor := foldl_store_cursor (fun i => i) 0x0000#16 (List.range (vgaWidth * vgaHeight))
    (v.vgaSetColor 0#8 0#8)
  have started : (v.vgaSetColor 0#8 0#8).Placed := ⟨placed.row, placed.col⟩
  obtain ⟨last, kept⟩ := Vga.run_spec _ (bootLogo ++ loadingBar) (started.of_cursor cursor)
  exact ⟨last, kept.trans black.inBounds⟩

theorem jmpFar_gate {s : Segmented} (gdt : HoldsGdt s) (labels : Labels) {vector : Nat}
    (defined : vector < 48) (inside : vector < 256) :
    ∃ s', s.jmpFar (idtInit labels)[vector].gate.selector (idtInit labels)[vector].gate.offset =
      some s' ∧ s'.cpu.eip = labels.isr vector := by
  rw [idtInit_getElem, if_pos defined, idt, gate_idtSetGate]
  exact ⟨_, gdt.jmpFar _, rfl⟩

theorem gdtInit_run {s : Segmented} (flat : s.Flat) {places : GdtPlaces}
    (apart : places.Apart (s.cpu.reg .esp)) :
    ∃ s', gdtInit s places = some s' ∧ HoldsGdt s' ∧ s'.Flat ∧
      s'.memory = loadedTable (gdtInitMemory s.memory places (s.cpu.reg .esp)) places.entries := by
  obtain ⟨s', ran, holds, flat', memory, -⟩ :=
    gdtFlush_run (s := { s with
      cpu := s.cpu.set .esp (s.cpu.reg .esp - 4#32 - 4#32)
      memory := gdtInitMemory s.memory places (s.cpu.reg .esp) }) flat (finds_gdtInit apart).1
      places.flush
  exact ⟨s', ran, holds, flat', memory⟩

theorem pitInit_hundred (handlers : Handlers σ) (timerHandler : σ → σ) (t : Timer) :
    ∃ writes, pitInit handlers timerHandler 100#32 =
        some (writes, irqRegisterHandler handlers 0#8 timerHandler) ∧
      (pitWrites t writes 0).period = some 11931 := by
  refine ⟨_, rfl, ?_⟩
  rw [pitWrites_divisor, Function.update_self]
  decide

-- The record that `kernel_main` ends with, one equation for each part.
theorem started_of (h : Hardware) {image : Image} {timerHandler keyboardHandler : σ → σ}
    {init : Pmm} {kernel : Kernel Slot} {s : Segmented}
    {writes : List Write}
    (flat : s.Flat) (gdt : HoldsGdt s) (inBounds : h.vga.inBounds = true)
    (period : (pitWrites h.timer writes 0).period = some 11931) (wf : init.Wf)
    (booted : (Kernel.bss init image.esp h.words).schedulerInit image.idleTask = some kernel)
    {b : Booted σ} (segmented : b.segmented = sti s) (vga : b.vga = bootScreen h.vga.vgaInit)
    (uart : b.uart = serialWrites h.uart serialInit) (gates : b.idt = idtInit image.labels)
    (pics : b.pics = picWrites h.pics picInit) (timer : b.timer = pitWrites h.timer writes)
    (handlers : b.handlers = irqRegisterHandler
      (irqRegisterHandler (Vector.replicate irqCount none) 0#8 timerHandler) 1#8 keyboardHandler)
    (keyboard : b.keyboard = Keyboard.keyboardInit h.keys) (table : b.kernel = kernel) :
    Started image timerHandler keyboardHandler init b := by
  have screen := bootScreen_spec h.vga.vgaInit h.vga.vgaInit_spec.2
  have loaded : HoldsGdt (sti s) := ⟨gdt.limit, gdt.bytes⟩
  constructor
  next => rw [vga]; exact screen.2.trans (h.vga.vgaInit_spec.1.trans inBounds)
  next => rw [segmented]; exact flat
  next => rw [segmented]; exact loaded
  next => rw [segmented]; simp [sti]
  next => rw [gates]; exact idtInit_present image.labels
  next =>
    intro vector inside defined
    rw [segmented]
    simp only [gates]
    exact jmpFar_gate loaded image.labels defined inside
  next => rw [pics, picWrites_picInit]
  next => rw [handlers]; exact handlers_booted timerHandler keyboardHandler
  next => rw [timer]; exact period
  next => rw [uart]; exact Serial.ready_serialInit h.uart
  next => rw [table]; exact represents_boot wf booted
  next => exact ⟨h.keys, keyboard⟩

theorem started_kernelMain {h : Hardware} {image : Image} {mb : MultibootInfo} {fuel : Nat}
    (timerHandler keyboardHandler : σ → σ) (flat : h.segmented.Flat)
    (apart : image.places.Apart (h.segmented.cpu.reg .esp)) (inBounds : h.vga.inBounds = true)
    {init : Pmm} (ended : Pmm.pmmInit (h.afterGdt image) mb image.kernelEnd fuel = some init) :
    (init.pmmAllocPage.1 = 0#32 ∧ ∃ serial,
      kernelMain h image mb fuel timerHandler keyboardHandler =
        some (.panicked (kernelPanic (bootScreen h.vga.vgaInit) true noIdleProcess) serial)) ∨
    (init.pmmAllocPage.1 ≠ 0#32 ∧ ∃ b,
      kernelMain h image mb fuel timerHandler keyboardHandler = some (.shell b) ∧
        Started image timerHandler keyboardHandler init b) := by
  obtain ⟨segmented, ran, gdt, flat', memory⟩ := gdtInit_run flat apart
  obtain ⟨writes, programmed, period⟩ := pitInit_hundred
    (Vector.replicate irqCount none : Handlers σ) timerHandler h.timer
  have wf := (Pmm.pmmInit_spec ended).1
  have found : h.afterGdt image = segmented.memory := memory.symm
  rw [found] at ended
  cases booted : (Kernel.bss init image.esp h.words).schedulerInit image.idleTask with
  | none =>
      exact .inl ⟨schedulerInit_none.mp booted, _, by
        simp only [kernelMain, ran, programmed, ended, booted, Option.bind_eq_bind,
          Option.bind_some, Option.pure_def]
        rfl⟩
  | some kernel =>
      have nonNull : init.pmmAllocPage.1 ≠ 0#32 := by
        intro null
        rw [schedulerInit_none.mpr null] at booted
        cases booted
      have evaluated : ∃ serial, kernelMain h image mb fuel timerHandler keyboardHandler =
          some (.shell
            { segmented := sti segmented
              vga := bootScreen h.vga.vgaInit
              uart := serialWrites h.uart serialInit
              serial := serial
              idt := idtInit image.labels
              pics := picWrites h.pics picInit
              timer := pitWrites h.timer writes
              handlers := irqRegisterHandler (irqRegisterHandler (Vector.replicate irqCount none)
                0#8 timerHandler) 1#8 keyboardHandler
              keyboard := Keyboard.keyboardInit h.keys
              kernel := kernel }) := ⟨_, by
        simp only [kernelMain, ran, programmed, ended, booted, Option.bind_eq_bind,
          Option.bind_some, Option.pure_def]
        rfl⟩
      obtain ⟨serial, evaluated⟩ := evaluated
      refine .inr ⟨nonNull, _, evaluated, ?_⟩
      apply started_of h flat' gdt inBounds period wf booted <;> dsimp only

theorem noIdleProcess_printable : Printable noIdleProcess ∧ noIdleProcess.length < 58 :=
  ⟨printable_ascii rfl, by rw [noIdleProcess, length_ascii]; decide⟩

end Main

def Booted.system (b : Booted (Option Devices.World)) (line : Vector U8 maxLine) (tickCount : U32)
    (data : U8) : Devices.System where
  pics := b.pics
  handlers := b.handlers
  user := some ⟨shellRun b.vga line b.kernel tickCount b.keyboard, data, false⟩
  handling := none

theorem Started.system {image : Image} {init : Pmm} {counterProcess : U32}
    {b : Booted (Option Devices.World)}
    (h : Started image (Devices.timerHandler counterProcess)
      (Devices.keyboardHandler counterProcess) init b)
    (line : Vector U8 maxLine) (tickCount : U32) (data : U8) :
    b.system line tickCount data = started remapped (Devices.handlers counterProcess)
      (some ⟨shellRun b.vga line b.kernel tickCount b.keyboard, data, false⟩) := by
  have handlers : b.handlers = Devices.handlers counterProcess := by
    apply Vector.ext
    intro irq inside
    have entry := h.handlers ⟨irq, inside⟩
    rw [← handlers_booted] at entry
    exact entry
  rw [Booted.system, started, picWrites_picInit, h.pics, handlers]

def loaderHardware : Hardware where
  segmented := { handedOver with memory := Stacks.sixtyFourPagesRam }
  vga := poweredOn (fun _ => 0#16) 0#16
  uart := ⟨0#8, 0#8, 0#8, 0#8, 0#8, 0#8, [], []⟩
  pics := remapped
  timer := fun _ => ⟨.lowHigh, 3#3, false, none, none⟩
  keys := fun _ => 0#8
  words := fun _ => 0#32

def linkedImage : Image where
  places := linkedAt
  labels := ⟨fun n => BitVec.ofNat 32 (0x101100 + 16 * n), 0x1013F0#32, 0x101400#32, 0x101480#32⟩
  kernelEnd := 0x110000#32
  idleTask := 0x100100#32
  esp := 0x10FFE0#32

def loaderMain : Option (Outcome (Option Devices.World)) :=
  kernelMain loaderHardware linkedImage Stacks.sixtyFourPagesInfo 2
    (Devices.timerHandler 0x100200#32) (Devices.keyboardHandler 0x100200#32)

def loaderShell (b : Booted (Option Devices.World)) : Devices.System :=
  b.system (Vector.replicate _ 0#8) 300#32 0#8

theorem loaderShell_spared : ∃ b, loaderMain = some (.shell b) ∧
    Transition.Meets (Devices.Step 0x100200#32 linkedImage.labels) Devices.Spared (loaderShell b)
      Devices.keysAndTicks ∧
    ∃ s w, Devices.keysAndTicks.foldlM (Devices.proceed 0x100200#32 linkedImage.labels)
        (loaderShell b) = some s ∧ s.user = some w ∧
      w.session.kernel.cmdPs = some [⟨1#32, .running, 0#8⟩, ⟨2#32, .blocked, 1#8⟩] := by
  have evaluated : (loaderMain.bind fun outcome => match outcome with
      | .panicked _ _ => none
      | .shell b => (Devices.keysAndTicks.foldlM (fun s e => if Devices.Spared s e then
            Devices.proceed 0x100200#32 linkedImage.labels s e else none) (loaderShell b)).bind
          fun s => s.user.map fun w => decide (w.session.kernel.cmdPs =
            some [⟨1#32, .running, 0#8⟩, ⟨2#32, .blocked, 1#8⟩])) = some true := by
    decide +kernel
  obtain ⟨outcome, booted, afterBoot⟩ := Option.bind_eq_some_iff.mp evaluated
  cases outcome with
  | panicked panic serial => cases afterBoot
  | shell b =>
      obtain ⟨s, ran, afterRun⟩ := Option.bind_eq_some_iff.mp afterBoot
      obtain ⟨w, user, processes⟩ := Option.map_eq_some_iff.mp afterRun
      exact ⟨b, booted, .of_run ran, s, w, Transition.run_of_guarded ran, user,
        of_decide_eq_true processes⟩

end Boot

end SoraOS
