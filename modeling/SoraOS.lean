import SoraOS.Shared.PointerList
import SoraOS.Memory.Pmm
import SoraOS.Memory.PmmInit
import SoraOS.Memory.Ownership
import SoraOS.Scheduler.RunQueue
import SoraOS.Scheduler.Schedule
import SoraOS.Scheduler.Pools
import SoraOS.Scheduler.Linked
import SoraOS.Scheduler.Calls
import SoraOS.Scheduler.Refinement
import SoraOS.Scheduler.Protection
import SoraOS.Scheduler.Stacks
import SoraOS.Mutex.Mutex
import SoraOS.Scheduler.ScheduleStatements
import SoraOS.Mutex.Statements
import SoraOS.Mutex.Exclusion
import SoraOS.Mutex.WaitList
import SoraOS.Mutex.Wakeup
import SoraOS.Preemption.Irq
import SoraOS.Preemption.Exit
import SoraOS.Preemption.Create
import SoraOS.Memory.MemoryMap
import SoraOS.Mutex.Layout
import SoraOS.Scheduler.RoundRobin
import SoraOS.Mutex.Dispatch
import SoraOS.Keyboard.Keyboard
import SoraOS.Keyboard.Fifo
import SoraOS.Console.Bounds
import SoraOS.Console.Terminal
import SoraOS.Console.LineEditor
import SoraOS.Scheduler.ContextSwitch
import SoraOS.Scheduler.Resume
import SoraOS.Memory.Allocation
import SoraOS.Memory.Checked
import SoraOS.Shared.Loop
import SoraOS.Memory.Walk
import SoraOS.Scheduler.Running
import SoraOS.Scheduler.Listing
import SoraOS.Scheduler.Reserved
import SoraOS.Scheduler.Parents
import SoraOS.Scheduler.Creation
import SoraOS.Scheduler.Registers
import SoraOS.Preemption.Newprocess
import SoraOS.Console.Number
import SoraOS.Console.Uptime
import SoraOS.Console.Meminfo
import SoraOS.Preemption.Sleep
import SoraOS.Scheduler.Search
import SoraOS.Scheduler.Killprocess
import SoraOS.Scheduler.KillStatements
import SoraOS.Console.Parser
import SoraOS.Keyboard.Shift
import SoraOS.Console.Echo
import SoraOS.Preemption.Stubs
import SoraOS.Console.Window
import SoraOS.Shared.Paper
import SoraOS.Shared.Scratch
import SoraOS.Shared.Conservation
import SoraOS.Shared.I8259
import SoraOS.Shared.Uart
import SoraOS.Shared.Segments
import SoraOS.Session.Table
import SoraOS.Session.KernelStatements
import SoraOS.Session.Commands
import SoraOS.Session.Interpreter
import SoraOS.Session.ShellRun
import SoraOS.Session.Refinement
import SoraOS.Session.Dialogue
import SoraOS.Session.Typing
import SoraOS.Session.Devices
import SoraOS.Boot.Interrupts
import SoraOS.Boot.Serial
import SoraOS.Boot.Gdt
import SoraOS.Shared.Crtc
import SoraOS.Shared.I8254
import SoraOS.Console.Cursor
import SoraOS.Boot.Pit
import SoraOS.Boot.Panic
import SoraOS.Boot.KernelMain
