import SoraOS.Console.Meminfo
import SoraOS.Console.Window
import SoraOS.Session.KernelStatements
import SoraOS.Shared.Scratch

set_option autoImplicit false

/-! The commands of `shell.c`: what they do to the kernel, and their calls of the console. -/

namespace SoraOS

namespace Session

open Vga Shell Scratch

/-- The uninitialised arrays of a command: `buf`, and `tmp` in each call of `sh_itoa` to come. -/
structure Stack where
  buf : Vector U8 12
  tmps : Nat → Vector U8 12

abbrev Printing := Scratch Stack

-- `sh_itoa(n, buf)`, and the string that is then in `buf`.
def itoa (n : U32) : Printing (List U8) := fun stack => do
  let (s, buf) ← printable n (stack.tmps 0) stack.buf
  return (s, { buf := buf, tmps := fun i => stack.tmps (i + 1) })

/--
What a command does: its calls of the console, and whether it returns after them; or statements
that change the run queue, before its calls.
-/
inductive Begun where
  | prints (calls : List Vga.Op) (returns : Bool)
  | works (pc : KernelPc)

def cmdHelp : List Vga.Op := [
  .vgaPrintColor (ascii "\n=== Vamos OS Commands ===\n") 0x0B#8,
  .vgaPrintColor (ascii "  help              ") 0x0E#8,
  .vgaPrint (ascii "Show this help list\n"),
  .vgaPrintColor (ascii "  clear             ") 0x0E#8,
  .vgaPrint (ascii "Clear the screen\n"),
  .vgaPrintColor (ascii "  echo <text>       ") 0x0E#8,
  .vgaPrint (ascii "Print text to screen\n"),
  .vgaPrintColor (ascii "  ls                ") 0x0E#8,
  .vgaPrint (ascii "List running processes and threads\n"),
  .vgaPrintColor (ascii "  time              ") 0x0E#8,
  .vgaPrint (ascii "Show system uptime\n"),
  .vgaPrintColor (ascii "  ps                ") 0x0E#8,
  .vgaPrint (ascii "List running processes\n"),
  .vgaPrintColor (ascii "  threads           ") 0x0E#8,
  .vgaPrint (ascii "List kernel threads\n"),
  .vgaPrintColor (ascii "  meminfo           ") 0x0E#8,
  .vgaPrint (ascii "Show memory usage\n"),
  .vgaPrintColor (ascii "  newprocess        ") 0x0E#8,
  .vgaPrint (ascii "Create a new process (visible in ps/ls)\n"),
  .vgaPrintColor (ascii "  killprocess <pid> ") 0x0E#8,
  .vgaPrint (ascii "Delete a process by PID\n"),
  .vgaPrintColor (ascii "  reboot            ") 0x0E#8,
  .vgaPrint (ascii "Reboot the system\n"),
  .vgaPrintColor (ascii "  exit              ") 0x0E#8,
  .vgaPrint (ascii "Shut down Vamos OS\n"),
  .vgaPrintColor (ascii "  about             ") 0x0E#8,
  .vgaPrint (ascii "About Vamos OS\n"),
  .vgaPrintColor (ascii "  banner            ") 0x0E#8,
  .vgaPrint (ascii "Show OS banner\n"),
  .vgaPrint (ascii "\n")]

def cmdClear (ticks : U32) : List Vga.Op := [.vgaClear, .vgaDrawStatusbar ticks]

def cmdAbout : List Vga.Op := [
  .vgaPrintColor (ascii "\n  Vamos OS v1.0\n") 0x0B#8,
  .vgaPrint (ascii "  A minimal x86 kernel written in C and Assembly.\n"),
  .vgaPrint (ascii "  Architecture : x86 (i686) protected mode\n"),
  .vgaPrint (ascii "  Bootloader   : GRUB Multiboot\n"),
  .vgaPrint (ascii "  Memory       : Manual bitmap allocator (4KB pages)\n"),
  .vgaPrint (ascii "  Scheduler    : Preemptive round-robin (100Hz)\n"),
  .vgaPrint (ascii "  Shell        : Built-in kernel-space shell\n\n")]

def cmdBanner : List Vga.Op := [
  .vgaPrintColor (ascii "\n__     __                              ___  ____  \n") 0x0B#8,
  .vgaPrintColor (ascii "\\ \\   / /__ _ _ __ ___   ___  ___    / _ \\/ ___| \n") 0x0B#8,
  .vgaPrintColor (ascii " \\ \\ / / _` | '_ ` _ \\ / _ \\/ __|  | | | \\___ \\ \n") 0x0B#8,
  .vgaPrintColor (ascii "  \\ V / (_| | | | | | | (_) \\__ \\  | |_| |___) |\n") 0x0B#8,
  .vgaPrintColor (ascii "   \\_/ \\__,_|_| |_| |_|\\___/|___/   \\___/|____/ \n") 0x0B#8,
  .vgaPrintColor (ascii "           Vamos OS v1.0\n\n") 0x0E#8]

def cmdReboot : List Vga.Op := [.vgaPrintColor (ascii "Rebooting...\n") 0x0C#8]
def cmdExit : List Vga.Op := [.vgaPrintColor (ascii "\nShutting down Vamos OS...\n") 0x0C#8]

def cmdTime (ticks : U32) : Printing (List Vga.Op) := do
  let secs := ticks / 100#32
  let mins := secs / 60#32
  let hrs := mins / 60#32
  let secs := secs % 60#32
  let mins := mins % 60#32
  let hours ← itoa hrs
  let minutes ← itoa mins
  let seconds ← itoa secs
  let all ← itoa ticks
  return [
    .vgaPrintColor (ascii "Uptime: ") 0x0B#8,
    .vgaPrint hours, .vgaPrint (ascii "h "),
    .vgaPrint minutes, .vgaPrint (ascii "m "),
    .vgaPrint seconds, .vgaPrint (ascii "s"),
    .vgaPrintColor (ascii "  (") 0x08#8,
    .vgaPrintColor all 0x08#8,
    .vgaPrintColor (ascii " ticks @ 100Hz)\n") 0x08#8]

def stateName : ProcessState → List U8
  | .ready => ascii "READY  "
  | .running => ascii "RUNNING"
  | .blocked => ascii "BLOCKED"
  | .dead => ascii "DEAD   "

-- `while (p) { ...; p = p->next; }`
def eachEntry (k : Kernel Slot) (line : Slot → Printing (List Vga.Op)) :
    Printing (List (List Vga.Op)) := do
  let entries ← StateT.lift k.entries
  entries.mapM line

def psLine (k : Kernel Slot) (p : Slot) : Printing (List Vga.Op) :=
  if k.pid p ≠ 0#32 then do
    let pid ← itoa (k.pid p)
    let priority ← itoa ((k.block p).priority.setWidth 32)
    return [
      .vgaPrint pid, .vgaPrint (ascii "    "),
      .vgaPrintColor (stateName (k.state p)) 0x0A#8,
      .vgaPrint (ascii "  "),
      .vgaPrint priority,
      .vgaPrint (ascii "    kernel\n")]
  else return []

def cmdPs (k : Kernel Slot) : Printing (List Vga.Op) := do
  let lines ← eachEntry k (psLine k)
  return [
    .vgaPrintColor (ascii "\nPID  STATE    PRI  NAME\n") 0x0B#8,
    .vgaPrintColor (ascii "---  -------  ---  ----\n") 0x08#8] ++
    lines.flatten ++ [.vgaPutchar newline]

-- `if (t->parent) ... else vga_print("none")`
def parentName (k : Kernel Slot) : Option Slot → Printing (List U8)
  | some parent => itoa (k.pid parent)
  | none => return ascii "none"

-- `(tcb_t*)p`; a block that is no TCB ends before the fields that are read here.
def asTcb (k : Kernel Slot) : Slot → Option (U32 × Option Slot)
  | .pcb _ => none
  | .tcb i => some (k.tid (.tcb i), (k.block (.tcb i)).parent)

def threadsLine (k : Kernel Slot) (p : Slot) : Printing (List Vga.Op) :=
  if k.pid p = 0#32 then do
    let (tid, parent) ← StateT.lift (asTcb k p)
    let tid ← itoa tid
    let parent ← parentName k parent
    return [
      .vgaPrint tid, .vgaPrint (ascii "    "),
      .vgaPrintColor (stateName (k.state p)) 0x0A#8, .vgaPrint (ascii "  "),
      .vgaPrint parent, .vgaPutchar newline]
  else return []

def cmdThreads (k : Kernel Slot) : Printing (List Vga.Op) := do
  let lines ← eachEntry k (threadsLine k)
  return [
    .vgaPrintColor (ascii "\nTID  STATE    PARENT\n") 0x0B#8,
    .vgaPrintColor (ascii "---  -------  ------\n") 0x08#8] ++
    lines.flatten ++ [.vgaPutchar newline]

def lsProcess (k : Kernel Slot) (p : Slot) : Printing (List Vga.Op) :=
  if k.pid p ≠ 0#32 then do
    let pid ← itoa (k.pid p)
    return [
      .vgaPrint (ascii "  "), .vgaPrint pid, .vgaPrint (ascii "     "),
      .vgaPrintColor (stateName (k.state p)) 0x0A#8, .vgaPrint (ascii "  kernel\n")]
  else return []

def lsThread (k : Kernel Slot) (p : Slot) : Printing (List Vga.Op) :=
  if k.pid p = 0#32 then do
    let (tid, parent) ← StateT.lift (asTcb k p)
    let tid ← itoa tid
    let parent ← parentName k parent
    return [
      .vgaPrint (ascii "  "), .vgaPrint tid, .vgaPrint (ascii "     "),
      .vgaPrintColor (stateName (k.state p)) 0x0A#8, .vgaPrint (ascii "  pid="),
      .vgaPrint parent, .vgaPutchar newline]
  else return []

-- `found` is set by each line that is printed.
def orNone (lines : List (List Vga.Op)) : List Vga.Op :=
  if lines.flatten = [] then [.vgaPrint (ascii "  (none)\n")] else lines.flatten

def cmdLs (k : Kernel Slot) : Printing (List Vga.Op) := do
  let processes ← eachEntry k (lsProcess k)
  let threads ← eachEntry k (lsThread k)
  return [
    .vgaPrintColor (ascii "\nProcesses:\n") 0x0B#8,
    .vgaPrintColor (ascii "  PID   STATE     NAME\n") 0x08#8] ++ orNone processes ++
    [.vgaPrintColor (ascii "\nThreads:\n") 0x0B#8,
      .vgaPrintColor (ascii "  TID   STATE     PARENT\n") 0x08#8] ++ orNone threads ++
    [.vgaPutchar newline]

def meminfo (pmm : Pmm) : Printing (List Vga.Op) := fun stack => do
  let calls ← cmdMeminfo pmm (stack.tmps 0) (stack.tmps 1) (stack.tmps 2) stack.buf
  return (calls, { stack with tmps := fun i => stack.tmps (i + 3) })

-- `cmd_newprocess` behind `p->state = PROCESS_BLOCKED`.
def createdCalls (k : Kernel Slot) : Option Slot → Printing (List Vga.Op)
  | some p => do
      let created ← itoa (k.pid p)
      let hint ← itoa (k.pid p)
      return [
        .vgaPrintColor (ascii "Process created  PID=") 0x0A#8, .vgaPrintColor created 0x0A#8,
        .vgaPrintColor (ascii "  STATE=BLOCKED\n") 0x07#8,
        .vgaPrintColor (ascii "Run 'ps' or 'ls' to see it.  ") 0x08#8,
        .vgaPrintColor (ascii "killprocess ") 0x08#8, .vgaPrintColor hint 0x08#8,
        .vgaPrintColor (ascii " to remove.\n") 0x08#8]
  | none => return [.vgaPrintColor (ascii "Failed: out of memory or process pool full\n") 0x0C#8]

-- `cmd_killprocess` behind `p->pid = 0`.
def deletedCalls (target : U32) : Printing (List Vga.Op) := do
  let target ← itoa target
  return [
    .vgaPrintColor (ascii "Process deleted: pid=") 0x0A#8, .vgaPrintColor target 0x0A#8,
    .vgaPutchar newline]

def finalCalls (k : Kernel Slot) : KernelPc → Option (Printing (List Vga.Op))
  | .created p => some (createdCalls k p)
  | .deleted target => some (deletedCalls target)
  | _ => none

section Arguments

variable {n : Nat}

-- Up to the block with that PID, if there is one.
def cmdKillprocess (a : Arguments n) (k : Kernel Slot) : Printing Begun :=
  if a.argc < 2 then return .prints [.vgaPrint (ascii "Usage: killprocess <pid>\n")] true
  else do
    let argument ← StateT.lift (a.arg 1)
    let target := Kernel.parseTarget argument 0#32
    match ← StateT.lift (k.findPid target) with
    | some p => return .works (.kill target p .setDead)
    | none =>
        let target ← itoa target
        return .prints [
          .vgaPrint (ascii "No such process: "), .vgaPrint target, .vgaPutchar newline] true

structure System where
  kernel : Kernel Slot
  ticks : U32
  counterProcess : U32

-- `command_table[i].fn(argc, argv)`
def runCommand (s : System) (a : Arguments n) : Command → Printing Begun
  | .help => return .prints cmdHelp true
  | .clear => return .prints (cmdClear s.ticks) true
  | .echo => do
      let calls ← StateT.lift (cmdEcho a)
      return .prints calls true
  | .ls => do
      let calls ← cmdLs s.kernel
      return .prints calls true
  | .time => do
      let calls ← cmdTime s.ticks
      return .prints calls true
  | .ps => do
      let calls ← cmdPs s.kernel
      return .prints calls true
  | .threads => do
      let calls ← cmdThreads s.kernel
      return .prints calls true
  | .meminfo => do
      let calls ← meminfo s.kernel.pmm
      return .prints calls true
  | .newprocess => return .works (.create (.call s.counterProcess 1#8))
  | .killprocess => cmdKillprocess a s.kernel
  | .reboot => return .prints cmdReboot false
  | .exit => return .prints cmdExit false
  | .about => return .prints cmdAbout true
  | .banner => return .prints cmdBanner true

def runDispatched (s : System) (a : Arguments n) : Dispatched → Printing Begun
  | .nothing => return .prints [] true
  | .run command => runCommand s a command
  | .unknown name => return .prints [
      .vgaPrintColor (ascii "Unknown command: ") 0x0C#8,
      .vgaPrint name,
      .vgaPrint (ascii "  (type 'help' for commands)\n")] true

-- `shell_parse`; also returns the line, which it has cut. `argv` starts with any pointers.
def parseAndRun (s : System) (line : Vector U8 n) (argv : Vector Nat maxArgs) :
    Printing (Begun × Vector U8 n) := do
  match ← StateT.lift (shellParse line argv) with
  | none => return (.prints [] true, line)
  | some a =>
      let dispatched ← StateT.lift (shellDispatch a)
      let begun ← runDispatched s a dispatched
      return (begun, a.line)

end Arguments

end Session

end SoraOS
