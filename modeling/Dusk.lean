import Dusk.Model.System
import Dusk.Proofs.SchedRuns
import Dusk.Theorems.Ownership
import Dusk.Theorems.Isolation
import Dusk.Theorems.Refusals
import Dusk.Theorems.Tlb
import Dusk.Theorems.Panics
import Dusk.Theorems.Messages
import Dusk.Theorems.Frames
import Dusk.Theorems.Tables
import Dusk.Theorems.MapUnmap
import Dusk.Theorems.Walkers
import Dusk.Theorems.Ranges
import Dusk.Theorems.Stacks
import Dusk.Theorems.NewKernel
import Dusk.Theorems.Archive
import Dusk.Theorems.Newc
import Dusk.Theorems.Elf
import Dusk.Theorems.Loader
import Dusk.Theorems.Queue
import Dusk.Theorems.Madt
import Dusk.Theorems.RootTable
import Dusk.Theorems.TaskCreate
import Dusk.Theorems.Destroy
import Dusk.Theorems.UserSpaces
import Dusk.Theorems.Threads
import Dusk.Theorems.DuskSys
import Dusk.Theorems.Turns
import Dusk.Theorems.IoApic
import Dusk.Theorems.Privacy
import Dusk.Theorems.MapPair
import Dusk.Theorems.Sysret
