import VKernel.Kobj.Tree
import VKernel.Net.Arp
import VKernel.Sched.Scheduler

/-!
# `VKernel.Kobj.Registries`: the tables that the object tree shows

The dynamic part of the object tree is made from six tables of the kernel: the tasks, the block
and network devices, the PCI functions, the ARP cache and the drivers. `Registries` is these
tables with the fields that resolving and listing read, and the functions here are the lookups
that the object tree calls in `scheduler.cpp`, `block.cpp`, `net.cpp`, `pci.cpp`, `arp.cpp` and
`driver.cpp`. A pointer into a table is the index of the slot.

A device name is a `static_string`. Its `view()` has the stored size, while `c_str()` ends at the
first NUL, and the two differ where a name was assigned from a character array that is longer
than its text.
-/

set_option autoImplicit false

namespace VKernel.Kobj

open VKernel.Sched VKernel.Net

/-! ### Tables -/

/-- A `const char*` that is not null, without its terminator. -/
structure CString where
  chars : List UInt8
  noNul : 0 ∉ chars
  deriving DecidableEq, Repr

/-- `block_device`. -/
structure BlockDevice where
  name : StaticString 32
  deriving DecidableEq, Repr

/-- `driver_descriptor`. -/
structure DriverDescriptor where
  name : CString
  deriving DecidableEq, Repr

/-- `cache_entry_info`. -/
structure CacheEntryInfo where
  ip : Ipv4Address
  mac : MacAddress
  deriving DecidableEq, Repr

/-- `pci::MAX_DEVICES`. -/
def MAX_PCI_DEVICES : Nat := 64

/-- The tables behind the dynamic part of the object tree. The sizes of the arrays and the width
of a task's `id` are fields. -/
structure Registries where
  scheduler : Scheduler
  tasksFit : scheduler.taskCount ≤ MAX_TASKS
  idsFit : ∀ slot, (scheduler.tasks slot).id < U64
  blockDevices : List BlockDevice
  netDevices : List NetDevice
  pciCount : Nat
  pciFits : pciCount ≤ MAX_PCI_DEVICES
  arpCache : Vector ArpCacheEntry MAX_CACHE_ENTRIES
  drivers : List DriverDescriptor

/-! ### Task snapshots -/

/-- `task_snapshot`. -/
structure TaskSnapshot where
  id : Nat
  state : TaskState
  cpu : Option ApicId
  cpuTicks : Nat
  name : List UInt8
  deriving DecidableEq, Repr

/-- `task_display_cpu`. -/
def taskDisplayCpu (t : Task) : Option ApicId := t.currentCpu <|> t.lastCpu <|> t.affinityCpu

/-- `task_live_tick_delta`. -/
def taskLiveTickDelta (s : Scheduler) (t : Task) : Nat :=
  if t.state ≠ .running ∨ t.currentCpu = none then 0
  else if s.tickCount > t.runTickStart then s.tickCount - t.runTickStart
  else 0

/-- The fields that both snapshot functions copy. -/
def taskSnapshot (s : Scheduler) (t : Task) : TaskSnapshot where
  id := t.id
  state := t.state
  cpu := taskDisplayCpu t
  cpuTicks := add64 t.cpuTicks (taskLiveTickDelta s t)
  name := t.name

/-- The slots in use whose task has not terminated. -/
def liveTasks (s : Scheduler) : List Task :=
  ((List.range s.taskCount).map s.tasks).filter fun t => t.state != .terminated

/-- `sched::snapshot_tasks`: the number of live tasks, and the snapshots that fit. -/
def snapshotTasks (s : Scheduler) (maxTasks : Nat) : Nat × List TaskSnapshot :=
  ((liveTasks s).length, ((liveTasks s).take maxTasks).map (taskSnapshot s))

/-- `sched::snapshot_task`. -/
def snapshotTask (s : Scheduler) (taskId : Nat) : Option TaskSnapshot :=
  (((List.range s.taskCount).map s.tasks).find? fun t =>
    t.id == taskId && t.state != .terminated).map (taskSnapshot s)

/-! ### Lookups -/

/-- `block::find`. -/
def blockFind (w : Registries) (name : List UInt8) : Option Nat :=
  w.blockDevices.findIdx? fun device => device.name.view == cstr name

/-- `net::find`. -/
def netFind (w : Registries) (name : List UInt8) : Option Nat :=
  w.netDevices.findIdx? fun device => device.name.view == cstr name

/-- `pci::get_device`. -/
def pciGetDevice (w : Registries) (index : Nat) : Option Nat :=
  if index ≥ w.pciCount then none else some index

/-- The valid entries of the ARP cache. -/
def validEntries (w : Registries) : List ArpCacheEntry := w.arpCache.toList.filter (·.valid)

/-- `arp::cache_entry_count`. -/
def cacheEntryCount (w : Registries) : Nat := (validEntries w).length

/-- `arp::cache_entry`. Only the valid entries are counted. -/
def cacheEntry (w : Registries) (index : Nat) : Option CacheEntryInfo :=
  (validEntries w)[index]?.map fun entry => ⟨entry.ip, entry.mac⟩

/-- The suffix of a driver file. -/
def vko : List UInt8 := ascii ".vko"

/-- `normalize_driver_name`. -/
def normalizeDriverName (name : List UInt8) : List UInt8 :=
  if 4 ≤ name.length ∧ name.drop (name.length - 4) = vko then name.take (name.length - 4)
  else name

/-- `name_match`. -/
def nameMatch (query driverName : List UInt8) : Bool := normalizeDriverName query == driverName

/-- `driver::find`. -/
def driverFind (w : Registries) (name : List UInt8) : Option Nat :=
  w.drivers.findIdx? fun desc => nameMatch (cstr name) desc.name.chars

end VKernel.Kobj
