import Ittrium.Drv.Console
import Ittrium.Drv.Descriptors
import Ittrium.Drv.Frames
import Ittrium.Drv.KernelFlag
import Ittrium.Drv.TxFrames
import Ittrium.Drv.Uart
import Ittrium.Drv.VirtioNet
import Ittrium.Drv.VirtioRx
import Ittrium.Elf.Accounting
import Ittrium.Elf.Buffer
import Ittrium.Elf.Checks
import Ittrium.Elf.Format
import Ittrium.Elf.Heap
import Ittrium.Elf.Image
import Ittrium.Elf.Launch
import Ittrium.Elf.Load
import Ittrium.Elf.Modules
import Ittrium.Elf.Overlap
import Ittrium.Elf.Pie
import Ittrium.Elf.Registry
import Ittrium.Elf.Safety
import Ittrium.Elf.Virtual
import Ittrium.Elf.Writes
import Ittrium.Infra.Areas
import Ittrium.Infra.Bytes
import Ittrium.Infra.Checked
import Ittrium.Infra.Doorbell
import Ittrium.Infra.Drain
import Ittrium.Infra.History
import Ittrium.Infra.Journal
import Ittrium.Infra.Outcome
import Ittrium.Infra.Paths
import Ittrium.Infra.Population
import Ittrium.Infra.Prefixes
import Ittrium.Infra.Recent
import Ittrium.Infra.Ring
import Ittrium.Infra.RingFamily
import Ittrium.Infra.Run
import Ittrium.Infra.Simulation
import Ittrium.Infra.Slots
import Ittrium.Infra.Splice
import Ittrium.Infra.StableInsert
import Ittrium.Infra.Table
import Ittrium.Infra.Terminal
import Ittrium.Infra.Window
import Ittrium.Kernel.BlkMem
import Ittrium.Kernel.Calls
import Ittrium.Kernel.Config
import Ittrium.Kernel.Context
import Ittrium.Kernel.Eventflags
import Ittrium.Kernel.Kqueue
import Ittrium.Kernel.Mailbox
import Ittrium.Kernel.Preemption
import Ittrium.Kernel.Rdyq
import Ittrium.Kernel.Semaphore
import Ittrium.Kernel.State
import Ittrium.Kernel.Switching
import Ittrium.Kernel.Task
import Ittrium.Kernel.TskDepSyn
import Ittrium.Kernel.TskManage
import Ittrium.Kernel.Wait
import Ittrium.Net.Clock
import Ittrium.Net.KernelSem
import Ittrium.Net.Mailbox
import Ittrium.Net.Ownership
import Ittrium.Net.Pool
import Ittrium.Net.SemWait
import Ittrium.Net.Slices
import Ittrium.Net.Steps
import Ittrium.Net.SysArch
import Ittrium.Net.Wakeups
import Ittrium.Properties.Accesses
import Ittrium.Properties.Activations
import Ittrium.Properties.Attributes
import Ittrium.Properties.BlkMem
import Ittrium.Properties.Contexts
import Ittrium.Properties.CpuLoad
import Ittrium.Properties.CpuPercent
import Ittrium.Properties.Delays
import Ittrium.Properties.Deletion
import Ittrium.Properties.Errors
import Ittrium.Properties.Eventflags
import Ittrium.Properties.Exclusion
import Ittrium.Properties.ExitStack
import Ittrium.Properties.Mailboxes
import Ittrium.Properties.Maximum
import Ittrium.Properties.Preemption
import Ittrium.Properties.Priorities
import Ittrium.Properties.ReadyQueue
import Ittrium.Properties.Refinement
import Ittrium.Properties.Runs
import Ittrium.Properties.Semaphores
import Ittrium.Properties.Stowed
import Ittrium.Properties.Structure
import Ittrium.Properties.Suspension
import Ittrium.Properties.SystemTime
import Ittrium.Properties.TaskStart
import Ittrium.Properties.Ticks
import Ittrium.Properties.Timeouts
import Ittrium.Properties.Turns
import Ittrium.Properties.WaitOrder
import Ittrium.Properties.WakeupRequests
import Ittrium.Refine.Boot
import Ittrium.Refine.Calls
import Ittrium.Refine.Changes
import Ittrium.Refine.Lines
import Ittrium.Refine.Loops
import Ittrium.Refine.Rdyq
import Ittrium.Refine.Relation
import Ittrium.Refine.Tasks
import Ittrium.Refine.Twins
import Ittrium.Refine.Waits
import Ittrium.Shell.Chains
import Ittrium.Shell.Commands
import Ittrium.Shell.Completion
import Ittrium.Shell.Drafts
import Ittrium.Shell.Echo
import Ittrium.Shell.Expansion
import Ittrium.Shell.History
import Ittrium.Shell.LineEdit
import Ittrium.Shell.Meaning
import Ittrium.Shell.Parse
import Ittrium.Shell.Quotes
import Ittrium.Shell.Screen
import Ittrium.Shell.Scripts
import Ittrium.Shell.TabKey
import Ittrium.Shell.TabPaths
import Ittrium.Shell.Tokens
import Ittrium.Shell.Variables
import Ittrium.Spec.Calls
import Ittrium.Spec.Changes
import Ittrium.Spec.Clock
import Ittrium.Spec.Contexts
import Ittrium.Spec.Counts
import Ittrium.Spec.Creation
import Ittrium.Spec.Deliveries
import Ittrium.Spec.Departures
import Ittrium.Spec.Existence
import Ittrium.Spec.Frames
import Ittrium.Spec.Handlers
import Ittrium.Spec.Invariant
import Ittrium.Spec.Lines
import Ittrium.Spec.Loops
import Ittrium.Spec.Messages
import Ittrium.Spec.Objects
import Ittrium.Spec.Patterns
import Ittrium.Spec.Quiet
import Ittrium.Spec.Releases
import Ittrium.Spec.Requests
import Ittrium.Spec.Sleeping
import Ittrium.Spec.Stacks
import Ittrium.Spec.State
import Ittrium.Spec.Steps
import Ittrium.Spec.Timers
import Ittrium.Spec.Waits
import Ittrium.Vfs.Beside
import Ittrium.Vfs.Calls
import Ittrium.Vfs.Coherence
import Ittrium.Vfs.Content
import Ittrium.Vfs.Descriptors
import Ittrium.Vfs.Failures
import Ittrium.Vfs.Namespace
import Ittrium.Vfs.OpenFlags
import Ittrium.Vfs.Pictures
import Ittrium.Vfs.Procfs
import Ittrium.Vfs.RamSteps
import Ittrium.Vfs.Ramfs
import Ittrium.Vfs.Readers
import Ittrium.Vfs.Romfs
import Ittrium.Vfs.Routing
import Ittrium.Vfs.Snapshots
import Ittrium.Vfs.Sysfs
import Ittrium.Vfs.Telemetry
