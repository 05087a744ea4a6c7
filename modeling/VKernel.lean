import VKernel.Lib.Transition
import VKernel.Lib.Extents
import VKernel.Memory.PhysAllocator
import VKernel.Sched.Interleaving
import VKernel.Process.Teardown
import VKernel.Fs.Sessions
import VKernel.Loader.ElfImage
import VKernel.Proofs.Memory.PhysAllocator
import VKernel.Proofs.Sched.Termination
import VKernel.Proofs.Sched.RoundRobin
import VKernel.Proofs.Sched.Sleep
import VKernel.Proofs.Sched.Ticks
import VKernel.Proofs.Process.StackOwnership
import VKernel.Proofs.Process.Teardown
import VKernel.Proofs.Process.Waiting
import VKernel.Proofs.Memory.PageCounters
import VKernel.Proofs.Memory.HeapRuns
import VKernel.Proofs.Memory.HeapExpansion
import VKernel.Proofs.Memory.FirstFit
import VKernel.Proofs.Memory.VirtualMemory
import VKernel.Proofs.Memory.TableTeardown
import VKernel.Proofs.Memory.UserPages
import VKernel.Proofs.Memory.Protection
import VKernel.Process.SharedWindow
import VKernel.Proofs.Process.SharedWindow
import VKernel.Proofs.Console.Framebuffer
import VKernel.Proofs.Fs.Sessions
import VKernel.Proofs.Fs.Appends
import VKernel.Proofs.Loader.ElfPlacement
import VKernel.Proofs.Loader.PeCorrect
import VKernel.Lib.Chains
import VKernel.Proofs.Net.Ipv4RoundTrip
import VKernel.Proofs.Net.Checksum
import VKernel.Proofs.Net.Echo
import VKernel.Proofs.Net.Arp
import VKernel.Proofs.Net.TxQueue
import VKernel.Proofs.Sound.Linearity
import VKernel.Proofs.Sound.StuckSounds
import VKernel.Proofs.Drivers.VirtioBlk
import VKernel.Proofs.Drivers.SoundAc97
import VKernel.Fs.Fat32.Files
import VKernel.Proofs.Fs.Fat32.NameRoundTrip
import VKernel.Proofs.Fs.Fat32.SlotSearch
import VKernel.Proofs.Fs.Fat32.Termination
import VKernel.Fs.Fat32.Layout
import VKernel.Proofs.Fs.Fat32.Geometry
import VKernel.Fs.Descriptors
import VKernel.Fs.Fat32.FileContent
import VKernel.Fs.Fat32.Listings
import VKernel.Kobj.Listing
import VKernel.Kobj.ObjectTree
import VKernel.Proofs.Fs.Descriptors
import VKernel.Proofs.Fs.FailedWrites
import VKernel.Proofs.Fs.Fat32.Allocation
import VKernel.Proofs.Fs.Fat32.FreeCount
import VKernel.Proofs.Fs.Fat32.Listings
import VKernel.Proofs.Fs.Fat32.NewFiles
import VKernel.Proofs.Kobj.Closure
import VKernel.Proofs.Kobj.NumericSegments
import VKernel.Proofs.Kobj.RedundantSlashes
import VKernel.Proofs.Kobj.KernelApi
import VKernel.Proofs.Kobj.JsonRequests
import VKernel.Proofs.Input.Readers
import VKernel.Proofs.Input.EventLists
import VKernel.Proofs.Acpi.Tables
import VKernel.Proofs.Debug.LineMap
import VKernel.Proofs.Debug.Tables
import VKernel.Proofs.Smp.BringUp
import VKernel.Proofs.Sync.Spinlock
import VKernel.Proofs.Drivers.VirtioNet
import VKernel.Proofs.Process.UserMemory
import VKernel.Proofs.Net.Lan
import VKernel.Proofs.Net.Storm
