import Mathlib.Data.List.Find
import SoraOS.Session.Commands
import SoraOS.Session.Table

set_option autoImplicit false

/-! What a command line is answered, in terms of the table of processes. -/

namespace SoraOS

namespace Session

open Vga Shell Scratch Killprocess

structure Answer where
  text : List Output
  table : Table
  running : Bool

def typed (s : List U8) : List Output := s.map Output.byte

def fixed (calls : List Vga.Op) : List Output := calls.flatMap outputs

def timeText (ticks : Nat) : List U8 :=
  ascii "Uptime: " ++ text (ticks / 360000) ++ ascii "h " ++ text (ticks / 6000 % 60) ++
    ascii "m " ++ text (ticks / 100 % 60) ++ ascii "s" ++ ascii "  (" ++ text ticks ++
    ascii " ticks @ 100Hz)\n"

def psText (p : Process) : List U8 :=
  text p.pid ++ ascii "    " ++ stateName p.state ++ ascii "  " ++ text p.priority.toNat ++
    ascii "    kernel\n"

def lsText (p : Process) : List U8 :=
  ascii "  " ++ text p.pid ++ ascii "     " ++ stateName p.state ++ ascii "  kernel\n"

-- The shell takes the machine to have 128 MB, and counts modulo 2^32.
def memoryText (free : Nat) : List U8 :=
  ascii "\n=== Memory Info ===\n" ++ ascii "  Total : " ++ text 131072 ++ ascii " KB\n" ++
    ascii "  Used  : " ++ text ((2 ^ 32 + 131072 - 4 * free) % 2 ^ 32) ++ ascii " KB\n" ++
    ascii "  Free  : " ++ text (4 * free) ++ ascii " KB\n\n"

def createdText (pid : Nat) : List U8 :=
  ascii "Process created  PID=" ++ text pid ++ ascii "  STATE=BLOCKED\n" ++
    ascii "Run 'ps' or 'ls' to see it.  " ++ ascii "killprocess " ++ text pid ++ ascii " to remove.\n"

def respond (init : Pmm) (ticks : Nat) (t : Table) (words : List (List U8)) : Command → Answer
  | .help => ⟨fixed cmdHelp, t, true⟩
  | .clear => ⟨[.clear], t, true⟩
  | .echo => ⟨typed (echoText words), t, true⟩
  | .ls => ⟨typed (ascii "\nProcesses:\n" ++ ascii "  PID   STATE     NAME\n" ++
      (if t.processes = [] then ascii "  (none)\n" else t.processes.flatMap lsText) ++
      ascii "\nThreads:\n" ++ ascii "  TID   STATE     PARENT\n" ++ ascii "  (none)\n" ++
      [newline]), t, true⟩
  | .time => ⟨typed (timeText ticks), t, true⟩
  | .ps => ⟨typed (ascii "\nPID  STATE    PRI  NAME\n" ++ ascii "---  -------  ---  ----\n" ++
      t.processes.flatMap psText ++ [newline]), t, true⟩
  | .threads =>
      ⟨typed (ascii "\nTID  STATE    PARENT\n" ++ ascii "---  -------  ------\n" ++ [newline]), t, true⟩
  | .meminfo => ⟨typed (memoryText (init.freeSet.card - t.processes.length)), t, true⟩
  | .newprocess =>
      match t.create (capacity init) with
      | (some pid, t) => ⟨typed (createdText pid), t, true⟩
      | (none, t) => ⟨typed (ascii "Failed: out of memory or process pool full\n"), t, true⟩
  | .killprocess =>
      match words with
      | _ :: argument :: _ =>
          let pid := leadingNumber argument
          match t.kill pid with
          | (true, t) => ⟨typed (ascii "Process deleted: pid=" ++ text pid ++ [newline]), t, true⟩
          | (false, t) => ⟨typed (ascii "No such process: " ++ text pid ++ [newline]), t, true⟩
      | _ => ⟨typed (ascii "Usage: killprocess <pid>\n"), t, true⟩
  | .reboot => ⟨fixed cmdReboot, t, false⟩
  | .exit => ⟨fixed cmdExit, t, false⟩
  | .about => ⟨fixed cmdAbout, t, true⟩
  | .banner => ⟨fixed cmdBanner, t, true⟩

def commandNamed (name : List U8) : Option Command :=
  (commandTable.find? fun entry => entry.1 = name).map Prod.snd

/-- The answer to a line, of which at most 16 words are read. -/
def interpret (init : Pmm) (ticks : Nat) (t : Table) (line : List U8) : Answer :=
  match (lineWords line).take 16 with
  | [] => ⟨[], t, true⟩
  | name :: others =>
      match commandNamed name with
      | some command => respond init ticks t (name :: others) command
      | none => ⟨typed (ascii "Unknown command: " ++ name ++
          ascii "  (type 'help' for commands)\n"), t, true⟩

structure Prints (calls : List Vga.Op) (s : List U8) : Prop where
  streams : ∀ op ∈ calls, op.streams = true
  text : calls.flatMap outputs = typed s

/-- The command has changed the table, and its calls of the console are still to come. -/
def Answers (init : Pmm) (a : Answer) (k : Kernel Slot) (pc : KernelPc) : Prop :=
  ∃ l printing calls, Represents init k l a.table ∧ finalCalls k pc = some printing ∧
    Returns printing calls ∧ (∀ op ∈ calls, op.streams = true) ∧ calls.flatMap outputs = a.text

def Begun.Gives (begun : Begun) (init : Pmm) (k : Kernel Slot) (a : Answer) : Prop :=
  match begun with
  | .prints calls returns => (∀ op ∈ calls, op.streams = true) ∧ calls.flatMap outputs = a.text ∧
      (∃ l, Represents init k l a.table) ∧ returns = a.running
  | .works pc => a.running = true ∧ ∃ n, Completes (Answers init a) n k pc

theorem typed_append (s s' : List U8) : typed (s ++ s') = typed s ++ typed s' := List.map_append

theorem text_unzero (n : Nat) : 0#8 ∉ text n := by
  intro member
  exact absurd (text_digit member) (by decide)

theorem stateName_unzero (state : ProcessState) : 0#8 ∉ stateName state := by
  cases state <;> decide

theorem ascii_unzero (chars : List Char)
    (each : (chars.all fun c => BitVec.ofNat 8 c.toNat ≠ 0#8) = true) :
    0#8 ∉ ascii (String.ofList chars) := by
  intro member
  rw [ascii, String.toList_ofList] at member
  obtain ⟨c, listed, zero⟩ := List.mem_map.mp member
  exact of_decide_eq_true (List.all_eq_true.mp each c listed) zero

theorem outputs_print {s : List U8} (unzero : 0#8 ∉ s) : outputs (.vgaPrint s) = typed s :=
  congrArg _ (takeWhile_unzero unzero)

theorem outputs_printColor {s : List U8} (color : U8) (unzero : 0#8 ∉ s) :
    outputs (.vgaPrintColor s color) = typed s :=
  congrArg _ (takeWhile_unzero unzero)

theorem outputs_putchar (c : U8) : outputs (.vgaPutchar c) = typed [c] := rfl

theorem returns_itoa (n : U32) : Returns (itoa n) (text n.toNat) := by
  intro stack
  obtain ⟨buf, run⟩ := printable_spec n (stack.tmps 0) stack.buf (by decide)
  exact ⟨{ buf := buf, tmps := fun i => stack.tmps (i + 1) }, by
    simp only [itoa, StateT.run, run]
    rfl⟩

theorem Prints.append {calls calls' : List Vga.Op} {s s' : List U8} (h : Prints calls s)
    (h' : Prints calls' s') : Prints (calls ++ calls') (s ++ s') := by
  constructor
  next =>
    intro op member
    rcases List.mem_append.mp member with first | second
    · exact h.streams op first
    · exact h'.streams op second
  next => rw [List.flatMap_append, h.text, h'.text, typed_append]

theorem prints_flatten {A B : Type} {shown : A → List Vga.Op} {lineText : B → List U8} {f : A → B}
    (each : ∀ b, Prints (shown b) (lineText (f b))) (l : List A) :
    Prints (l.map shown).flatten ((l.map f).flatMap lineText) := by
  induction l with
  | nil => exact ⟨by simp, rfl⟩
  | cons b rest ih => exact (each b).append ih

theorem cmdTime_spec (ticks : U32) :
    ∃ calls, Returns (cmdTime ticks) calls ∧ Prints calls (timeText ticks.toNat) := by
  have hours : ticks.toNat / 100 / 60 / 60 = ticks.toNat / 360000 := by omega
  have minutes : ticks.toNat / 100 / 60 = ticks.toNat / 6000 := by omega
  refine ⟨_, ((returns_itoa _).bind ((returns_itoa _).bind ((returns_itoa _).bind
    ((returns_itoa _).bind (returns_pure _))))), ?_⟩
  constructor
  next => simp [Op.streams]
  next =>
    simp (disch := first | apply text_unzero | exact ascii_unzero _ rfl) only
      [List.flatMap_cons, List.flatMap_nil, outputs_print, outputs_printColor, timeText,
        typed_append, BitVec.toNat_umod, BitVec.toNat_udiv, BitVec.toNat_ofNat, List.append_assoc,
        List.append_nil, Nat.reducePow, Nat.reduceMod, hours]
    rw [minutes]

section Represented

variable {init : Pmm} {k : Kernel Slot} {l : List Slot} {t : Table}

theorem Represents.eachEntry (h : Represents init k l t) {line : Slot → Printing (List Vga.Op)}
    {shown : Slot → List Vga.Op} (each : ∀ b ∈ l, Returns (line b) (shown b)) :
    Returns (Session.eachEntry k line) (l.map shown) :=
  (returns_lift h.entries.1).bind (returns_mapM each)

theorem Represents.noThreads (h : Represents init k l t) {line : Slot → Printing (List Vga.Op)}
    (skips : ∀ b, k.pid b ≠ 0#32 → line b = pure []) :
    Returns (Session.eachEntry k line) (l.map fun _ => []) := by
  apply h.eachEntry
  intro b listed
  rw [skips b (h.pid_pos listed)]
  exact returns_pure []

theorem Represents.cmdPs_spec (h : Represents init k l t) :
    ∃ calls, Returns (Session.cmdPs k) calls ∧ Prints calls
      (ascii "\nPID  STATE    PRI  NAME\n" ++ ascii "---  -------  ---  ----\n" ++
        t.processes.flatMap psText ++ [newline]) := by
  let shown (b : Slot) : List Vga.Op := [
    .vgaPrint (text (k.pid b).toNat), .vgaPrint (ascii "    "),
    .vgaPrintColor (stateName (k.state b)) 0x0A#8, .vgaPrint (ascii "  "),
    .vgaPrint (text ((k.block b).priority.setWidth 32).toNat), .vgaPrint (ascii "    kernel\n")]
  have each : ∀ b ∈ l, Returns (psLine k b) (shown b) := by
    intro b listed
    rw [psLine, if_pos (h.pid_pos listed)]
    exact (returns_itoa _).bind ((returns_itoa _).bind (returns_pure _))
  have lines : ∀ b, Prints (shown b) (psText (process k b)) := by
    intro b
    have priority : ((k.block b).priority.setWidth 32).toNat = (k.block b).priority.toNat :=
      BitVec.toNat_setWidth_of_le (by decide)
    constructor
    next => simp [shown, Op.streams]
    next =>
      simp (disch := first | apply text_unzero | apply stateName_unzero | exact ascii_unzero _ rfl)
        only [shown, List.flatMap_cons, List.flatMap_nil, outputs_print, outputs_printColor, psText,
          process, typed_append, List.append_assoc, List.append_nil, priority]
  have all := prints_flatten lines l
  rw [h.processes] at all
  refine ⟨_, (h.eachEntry each).bind (returns_pure _), ?_⟩
  refine (Prints.append ?_ all).append ⟨by simp [Op.streams], rfl⟩
  constructor
  next => simp [Op.streams]
  next =>
    simp (disch := exact ascii_unzero _ rfl) only [List.flatMap_cons, List.flatMap_nil,
      outputs_printColor, typed_append, List.append_nil]

theorem Represents.cmdThreads_spec (h : Represents init k l t) :
    ∃ calls, Returns (Session.cmdThreads k) calls ∧ Prints calls
      (ascii "\nTID  STATE    PARENT\n" ++ ascii "---  -------  ------\n" ++ [newline]) := by
  have none : Returns (Session.eachEntry k (threadsLine k)) (l.map fun _ => []) := by
    apply h.noThreads
    intro b process
    rw [threadsLine, if_neg process]
  refine ⟨_, none.bind (returns_pure _), ?_⟩
  have nothing : (l.map fun _ => ([] : List Vga.Op)).flatten = [] := by simp
  rw [nothing]
  constructor
  next => simp [Op.streams]
  next =>
    simp (disch := exact ascii_unzero _ rfl) only [List.flatMap_cons, List.flatMap_nil,
      List.append_nil, List.cons_append, List.nil_append, outputs_printColor, outputs_putchar,
      typed_append, List.append_assoc]

theorem Represents.cmdLs_spec (h : Represents init k l t) :
    ∃ calls, Returns (Session.cmdLs k) calls ∧ Prints calls
      (ascii "\nProcesses:\n" ++ ascii "  PID   STATE     NAME\n" ++
        (if t.processes = [] then ascii "  (none)\n" else t.processes.flatMap lsText) ++
        ascii "\nThreads:\n" ++ ascii "  TID   STATE     PARENT\n" ++ ascii "  (none)\n" ++
        [newline]) := by
  let shown (b : Slot) : List Vga.Op := [
    .vgaPrint (ascii "  "), .vgaPrint (text (k.pid b).toNat), .vgaPrint (ascii "     "),
    .vgaPrintColor (stateName (k.state b)) 0x0A#8, .vgaPrint (ascii "  kernel\n")]
  have each : ∀ b ∈ l, Returns (lsProcess k b) (shown b) := by
    intro b listed
    rw [lsProcess, if_pos (h.pid_pos listed)]
    exact (returns_itoa _).bind (returns_pure _)
  have threads : Returns (Session.eachEntry k (lsThread k)) (l.map fun _ => []) := by
    apply h.noThreads
    intro b process
    rw [lsThread, if_neg process]
  have line : ∀ b, Prints (shown b) (lsText (process k b)) := by
    intro b
    constructor
    next => simp [shown, Op.streams]
    next =>
      simp (disch := first | apply text_unzero | apply stateName_unzero | exact ascii_unzero _ rfl)
        only [shown, List.flatMap_cons, List.flatMap_nil, outputs_print, outputs_printColor,
          lsText, process, typed_append, List.append_assoc, List.append_nil]
  have nobody : Prints [.vgaPrint (ascii "  (none)\n")] (ascii "  (none)\n") := by
    constructor
    next => simp [Op.streams]
    next =>
      simp (disch := exact ascii_unzero _ rfl) only [List.flatMap_cons, List.flatMap_nil,
        outputs_print, List.append_nil]
  have processes : Prints (orNone (l.map shown))
      (if t.processes = [] then ascii "  (none)\n" else t.processes.flatMap lsText) := by
    have all := prints_flatten line l
    rw [h.processes] at all
    cases l with
    | nil =>
        rw [← h.processes]
        exact nobody
    | cons b rest =>
        have some : t.processes ≠ [] := by simp [← h.processes]
        rw [orNone, if_neg (by simp [shown]), if_neg some]
        exact all
  have nothing : orNone (l.map fun _ => []) = [.vgaPrint (ascii "  (none)\n")] := by simp [orNone]
  refine ⟨_, (h.eachEntry each).bind (threads.bind (returns_pure _)), ?_⟩
  rw [nothing, List.append_assoc (ascii "\nProcesses:\n" ++ _ ++ _) (ascii "\nThreads:\n")]
  refine ((Prints.append (Prints.append ?_ processes) ?_).append nobody).append
    ⟨by simp [Op.streams], rfl⟩
  all_goals
    constructor
    next => simp [Op.streams]
    next =>
      simp (disch := exact ascii_unzero _ rfl) only [List.flatMap_cons, List.flatMap_nil,
        outputs_printColor, typed_append, List.append_nil]

theorem Represents.meminfo_spec (h : Represents init k l t) :
    ∃ calls, Returns (meminfo k.pmm) calls ∧
      Prints calls (memoryText (init.freeSet.card - t.processes.length)) := by
  have free := h.free_card
  have bound := h.booked.paged.wf.bounded
  have most := Pmm.freeSet_card_le k.pmm
  have counted := h.booked.paged.wf.counted
  simp only [pmmMaxPages] at bound
  rw [← h.length] at free
  have shown : (k.pmm.freePages * 4#32).toNat = 4 * (init.freeSet.card - t.processes.length) := by
    rw [BitVec.toNat_mul, BitVec.toNat_ofNat]
    omega
  have used : ((32768#32 - k.pmm.freePages) * 4#32).toNat =
      (2 ^ 32 + 131072 - 4 * (init.freeSet.card - t.processes.length)) % 2 ^ 32 := by
    rw [BitVec.toNat_mul, BitVec.toNat_sub, BitVec.toNat_ofNat, BitVec.toNat_ofNat]
    omega
  have printed : Returns (meminfo k.pmm) (meminfoLines 131072
      ((32768#32 - k.pmm.freePages) * 4#32).toNat (k.pmm.freePages * 4#32).toNat) := by
    intro stack
    refine ⟨{ stack with tmps := fun i => stack.tmps (i + 3) }, ?_⟩
    simp only [meminfo, StateT.run, cmdMeminfo_eq, Option.bind_eq_bind, Option.bind_some]
    rfl
  refine ⟨_, printed, ?_⟩
  rw [shown, used, meminfoLines, memoryText]
  constructor
  next => simp [Op.streams]
  next =>
    simp (disch := first | apply text_unzero | exact ascii_unzero _ rfl) only [List.flatMap_cons,
      List.flatMap_nil, outputs_print, outputs_printColor, typed_append, List.append_assoc,
      List.append_nil]

theorem Represents.newprocess_gives (h : Represents init k l t) (more : t.lastPid + 1 < 2 ^ 32)
    (counterProcess : U32) (ticks : Nat) (words : List (List U8)) :
    (Begun.works (.create (.call counterProcess 1#8))).Gives init k
      (respond init ticks t words .newprocess) := by
  obtain ⟨n, completes⟩ := h.completes_newprocess more counterProcess
  rw [respond]
  generalize t.create (capacity init) = made at completes
  obtain ⟨pid, t'⟩ := made
  have answered {k' : Kernel Slot} {pc : KernelPc} (ended : ∃ block l', pc = .created block ∧
      Represents init k' l' t' ∧ block.map (fun b => (k'.pid b).toNat) = pid) :
      Answers init (match (pid, t') with
        | (some pid, t) => ⟨typed (createdText pid), t, true⟩
        | (none, t) => ⟨typed (ascii "Failed: out of memory or process pool full\n"), t, true⟩)
        k' pc := by
    obtain ⟨block, l', rfl, next, rfl⟩ := ended
    cases block with
    | some b =>
        refine ⟨l', _, _, next, rfl,
          (returns_itoa _).bind ((returns_itoa _).bind (returns_pure _)), ?_, ?_⟩
        · simp [Op.streams]
        · simp (disch := first | apply text_unzero | exact ascii_unzero _ rfl) only
            [List.flatMap_cons, List.flatMap_nil, outputs_printColor, Option.map_some, createdText,
              typed_append, List.append_assoc, List.append_nil]
    | none =>
        refine ⟨l', _, _, next, rfl, returns_pure _, ?_, ?_⟩
        · simp [Op.streams]
        · simp (disch := exact ascii_unzero _ rfl) only [List.flatMap_cons, List.flatMap_nil,
            outputs_printColor, Option.map_none, List.append_nil]
  refine ⟨?_, n, completes.imp fun _ _ => answered⟩
  cases pid <;> rfl

structure Holds {n : Nat} (a : Arguments n) (words : List (List U8)) : Prop where
  argc : a.argc = words.length
  arg : ∀ i w, words[i]? = some w → a.arg i = some w

theorem echoLoop_prints {n : Nat} {a : Arguments n} {left i : Nat} {calls : List Vga.Op}
    (run : echoLoop a left i = some calls) : Prints calls (printed calls) := by
  induction left generalizing i calls with
  | zero =>
      obtain rfl := Option.some.inj run
      exact ⟨by simp, rfl⟩
  | succ left ih =>
      rw [echoLoop] at run
      obtain ⟨s, -, run⟩ := Option.bind_eq_some_iff.mp run
      obtain ⟨later, rest, run⟩ := Option.bind_eq_some_iff.mp run
      have word : Prints [.vgaPrint s] (printed [.vgaPrint s]) :=
        ⟨by simp [Op.streams], by simp [printed, outputs, typed]⟩
      have gap : Prints [.vgaPutchar space] (printed [.vgaPutchar space]) :=
        ⟨by simp [Op.streams], by simp [printed, outputs, typed]⟩
      split at run
      next =>
        obtain rfl := Option.some.inj run
        simpa [printed] using word.append (gap.append (ih rest))
      next =>
        obtain rfl := Option.some.inj run
        simpa [printed] using word.append (ih rest)

theorem cmdEcho_prints {n : Nat} {a : Arguments n} {words : List (List U8)}
    (held : Session.Holds a words) (nonempty : words ≠ []) :
    ∃ calls, cmdEcho a = some calls ∧ Prints calls (echoText words) := by
  have argc := held.argc
  have length := List.length_pos_iff.mpr nonempty
  have left : a.argc - 1 = words.tail.length := by rw [List.length_tail, argc]
  have shown (j : Nat) (w : List U8) (found : words.tail[j]? = some w) : a.arg (1 + j) = some w := by
    rw [List.getElem?_tail] at found
    rw [Nat.add_comm]
    exact held.arg (j + 1) w found
  obtain ⟨calls, looped, text, -⟩ := echoLoop_spec (by omega) shown
  have spoken := echoLoop_prints looped
  rw [text] at spoken
  refine ⟨calls ++ [.vgaPutchar newline], ?_, spoken.append ⟨by simp [Op.streams], rfl⟩⟩
  rw [cmdEcho, left, looped]
  rfl

theorem Represents.gives (h : Represents init k l t) {calls : List Vga.Op} {s : List U8}
    (spoken : Prints calls s) : (Begun.prints calls true).Gives init k ⟨typed s, t, true⟩ :=
  ⟨spoken.streams, spoken.text, ⟨l, h⟩, rfl⟩

theorem Represents.gives_fixed (h : Represents init k l t) {calls : List Vga.Op} (running : Bool)
    (streams : ∀ op ∈ calls, op.streams = true) :
    (Begun.prints calls running).Gives init k ⟨fixed calls, t, running⟩ :=
  ⟨streams, rfl, ⟨l, h⟩, rfl⟩

theorem Represents.cmdKillprocess_spec {n : Nat} (h : Represents init k l t) {a : Arguments n}
    {words : List (List U8)} (held : Session.Holds a words) (ticks : Nat) :
    ∃ begun, Returns (Session.cmdKillprocess a k) begun ∧
      begun.Gives init k (respond init ticks t words .killprocess) := by
  by_cases few : a.argc < 2
  next =>
    have printed : Returns (Session.cmdKillprocess a k)
        (.prints [.vgaPrint (ascii "Usage: killprocess <pid>\n")] true) := by
      rw [Session.cmdKillprocess, if_pos few]
      exact returns_pure _
    have usage : respond init ticks t words .killprocess =
        ⟨typed (ascii "Usage: killprocess <pid>\n"), t, true⟩ := by
      rw [held.argc] at few
      match words, few with
      | [], _ => rfl
      | [_], _ => rfl
    rw [usage]
    refine ⟨_, printed, h.gives ⟨by simp [Op.streams], ?_⟩⟩
    simp (disch := exact ascii_unzero _ rfl) only [List.flatMap_cons, List.flatMap_nil,
      outputs_print, List.append_nil]
  next =>
    match words, held with
    | [], held => exact absurd (held.argc ▸ Nat.zero_lt_two) few
    | [_], held => exact absurd (held.argc ▸ Nat.one_lt_two) few
    | command :: argument :: rest, held =>
        have second := held.arg 1 argument rfl
        obtain ⟨found, search, hit, next⟩ := h.completes_killprocess argument
        have target : (Kernel.parseTarget argument 0#32).toNat = leadingNumber argument :=
          parseTarget_eq argument
        rw [respond]
        generalize t.kill (leadingNumber argument) = killed at next hit
        obtain ⟨hits, t'⟩ := killed
        simp only at next hit
        subst hit
        cases found with
        | some p =>
            have works : Returns (Session.cmdKillprocess a k)
                (.works (.kill (Kernel.parseTarget argument 0#32) p .setDead)) := by
              rw [Session.cmdKillprocess, if_neg few]
              exact (returns_lift second).bind ((returns_lift search).bind (returns_pure _))
            refine ⟨_, works, rfl, 6, next.imp ?_⟩
            rintro k' pc ⟨rfl, l', next⟩
            refine ⟨l', _, _, next, rfl, (returns_itoa _).bind (returns_pure _), ?_, ?_⟩
            · simp [Op.streams]
            · simp (disch := first | apply text_unzero | exact ascii_unzero _ rfl) only
                [List.flatMap_cons, List.flatMap_nil, outputs_printColor, outputs_putchar, target,
                  Option.isSome_some, typed_append, List.append_assoc, List.append_nil]
        | none =>
            have printed : Returns (Session.cmdKillprocess a k) (.prints [
                .vgaPrint (ascii "No such process: "),
                .vgaPrint (text (Kernel.parseTarget argument 0#32).toNat),
                .vgaPutchar newline] true) := by
              rw [Session.cmdKillprocess, if_neg few]
              exact (returns_lift second).bind ((returns_lift search).bind
                ((returns_itoa _).bind (returns_pure _)))
            refine ⟨_, printed, Represents.gives next ⟨by simp [Op.streams], ?_⟩⟩
            simp (disch := first | apply text_unzero | exact ascii_unzero _ rfl) only
              [List.flatMap_cons, List.flatMap_nil, outputs_print, outputs_putchar, target,
                typed_append, List.append_assoc, List.append_nil]

theorem Represents.runCommand_spec {n : Nat} {s : System} (h : Represents init s.kernel l t)
    (more : t.lastPid + 1 < 2 ^ 32) {a : Arguments n} {words : List (List U8)}
    (held : Session.Holds a words) (nonempty : words ≠ []) (command : Command) :
    ∃ begun, Returns (runCommand s a command) begun ∧
      begun.Gives init s.kernel (respond init s.ticks.toNat t words command) := by
  cases command with
  | help => exact ⟨_, returns_pure _, h.gives_fixed true (by decide)⟩
  | clear => exact ⟨_, returns_pure _, by simp [cmdClear, Op.streams], rfl, ⟨l, h⟩, rfl⟩
  | echo =>
      obtain ⟨calls, echoed, spoken⟩ := cmdEcho_prints held nonempty
      exact ⟨_, (returns_lift echoed).bind (returns_pure _), h.gives spoken⟩
  | ls =>
      obtain ⟨calls, printed, spoken⟩ := h.cmdLs_spec
      exact ⟨_, printed.bind (returns_pure _), h.gives spoken⟩
  | time =>
      obtain ⟨calls, printed, spoken⟩ := cmdTime_spec s.ticks
      exact ⟨_, printed.bind (returns_pure _), h.gives spoken⟩
  | ps =>
      obtain ⟨calls, printed, spoken⟩ := h.cmdPs_spec
      exact ⟨_, printed.bind (returns_pure _), h.gives spoken⟩
  | threads =>
      obtain ⟨calls, printed, spoken⟩ := h.cmdThreads_spec
      exact ⟨_, printed.bind (returns_pure _), h.gives spoken⟩
  | meminfo =>
      obtain ⟨calls, printed, spoken⟩ := h.meminfo_spec
      exact ⟨_, printed.bind (returns_pure _), h.gives spoken⟩
  | newprocess =>
      exact ⟨_, returns_pure _, h.newprocess_gives more s.counterProcess s.ticks.toNat words⟩
  | killprocess => exact h.cmdKillprocess_spec held s.ticks.toNat
  | reboot => exact ⟨_, returns_pure _, h.gives_fixed false (by decide)⟩
  | exit => exact ⟨_, returns_pure _, h.gives_fixed false (by decide)⟩
  | about => exact ⟨_, returns_pure _, h.gives_fixed true (by decide)⟩
  | banner => exact ⟨_, returns_pure _, h.gives_fixed true (by decide)⟩

theorem shellDispatch_eq {n : Nat} {a : Arguments n} {name : List U8} {others : List (List U8)}
    (held : Session.Holds a (name :: others)) :
    shellDispatch a = some (match commandNamed name with
      | some command => .run command
      | none => .unknown name) := by
  have argc : a.argc ≠ 0 := by simp [held.argc]
  have named := held.arg 0 name rfl
  have unzero := arg_unzero named
  have test : commandTable.find? (fun entry => shStrcmp name entry.1 = 0) =
      commandTable.find? fun entry => entry.1 = name := by
    apply List.find?_congr
    intro entry listed
    have same := shStrcmp_eq_zero unzero (commandTable_names.2 entry listed)
    exact decide_eq_decide.mpr (same.trans eq_comm)
  rw [shellDispatch, if_neg argc, named, Option.bind_eq_bind, Option.bind_some, test, commandNamed]
  cases commandTable.find? fun entry => entry.1 = name with
  | some entry => rfl
  | none => rfl

theorem Represents.parseAndRun_spec {n : Nat} {s : System} (h : Represents init s.kernel l t)
    (more : t.lastPid + 1 < 2 ^ 32) {chars : Vector U8 n} {line : List U8}
    (isLine : Buffer.stringAt 0#8 chars 0 = some line) (argv : Vector Nat maxArgs) :
    ∃ begun chars', Returns (parseAndRun s chars argv) (begun, chars') ∧
      begun.Gives init s.kernel (interpret init s.ticks.toNat t line) := by
  rcases shellParse_spec argv isLine with ⟨none, run⟩ |
    ⟨nonempty, a, p, rest, run, words, -, parsed⟩
  · rw [interpret, none]
    exact ⟨_, _, (returns_lift run).bind (returns_pure _), by simp, rfl, ⟨l, h⟩, rfl⟩
  · have held : Session.Holds a ((lineWords line).take 16) := by
      constructor
      next =>
        rw [parsed.argc, words, List.length_take, Nat.zero_add, Nat.min_comm]
        rfl
      next =>
        intro i w found
        have inside := (List.getElem?_eq_some_iff.mp found).1
        rw [List.length_take] at inside
        have argc : a.argc = min (lineWords line).length 16 := by
          rw [parsed.argc, words, Nat.zero_add]
          rfl
        obtain ⟨w', cut, shown⟩ := parsed.cut i (by simp only; omega)
        rw [words] at cut
        rw [List.getElem?_take_of_lt (by omega), cut] at found
        simpa [Option.some.inj found] using shown
    rw [interpret]
    cases shape : (lineWords line).take 16 with
    | nil => simp [nonempty] at shape
    | cons name others =>
        rw [shape] at held
        dsimp only
        have dispatched := shellDispatch_eq held
        have printed (begun : Begun)
            (returns : Returns (runDispatched s a (match commandNamed name with
              | some command => .run command
              | none => .unknown name)) begun) :
            Returns (parseAndRun s chars argv) (begun, a.line) :=
          (returns_lift run).bind
            ((returns_lift dispatched).bind (returns.bind (returns_pure _)))
        cases known : commandNamed name with
        | some command =>
            rw [known] at printed
            dsimp only at printed ⊢
            obtain ⟨begun, returns, gives⟩ := h.runCommand_spec more held (by simp) command
            exact ⟨begun, a.line, printed begun returns, gives⟩
        | none =>
            rw [known] at printed
            dsimp only at printed ⊢
            have unzero := arg_unzero (held.arg 0 name rfl)
            refine ⟨_, a.line, printed _ (returns_pure _), h.gives ?_⟩
            constructor
            next => simp [Op.streams]
            next =>
              simp (disch := first | exact unzero | exact ascii_unzero _ rfl) only
                [List.flatMap_cons, List.flatMap_nil, outputs_print, outputs_printColor,
                  typed_append, List.append_assoc, List.append_nil]

end Represented

end Session

end SoraOS
