/-!
# `VKernel.Kobj.Tree`: the registered nodes of the object tree

Each `KNode` object of the source has an identifier of its own, so a node is its `KNodeId`. The
tables of `register_core_nodes` to `register_driver_nodes` stand here with the columns that
resolving and listing a path read: the node, its parent, its name and its type. A node without a
parent is reached only through an entry of a registry.

`KNode::attach` appends to the children of the parent. The tables are registered in the order of
`kobj::init`, so the children of a node are the rows that name it as parent, in this order.
-/

set_option autoImplicit false

namespace VKernel.Kobj

/-- The bytes of a string literal, without its terminator. -/
def ascii (text : String) : List UInt8 := text.toList.map Char.toUInt8

/-- The separator of a path. -/
def slash : UInt8 := '/'.toUInt8

/-- `KTag`. -/
inductive KTag
  | u64 | i64 | bool | str | enum | struct | stream | err
  deriving DecidableEq, Repr

/-- `KNodeId`. -/
inductive KNodeId
  | root | sys | sysCpu | sysCpuCount | sysCpuTicks | sysMem | sysMemTotalKb | sysMemFreeKb
  | sysMemHeapUsed | sysMemHeapCapacity | sysMemHeapSubheaps | sysPower | sysPowerState | sysLog
  | sysLogRoute | proc | procCount | procPid | procPidId | procPidState | procPidCpu
  | procPidCpuTicks | procPidName | fs | fsActiveBackend | fsFallbackReady | fsMounted
  | fsWritable | fsBlockDevice | fsRootPath | fsClusterSize | fsRootCluster | dev | devBlock
  | devBlockCount | devBlockEntry | devBlockEntryName | devBlockEntrySizeKb
  | devBlockEntryBlockSize | devBlockEntryRemovable | devPci | devPciCount | devPciEntry
  | devPciEntryBus | devPciEntryDevice | devPciEntryFunction | devPciEntryVendorId
  | devPciEntryDeviceId | devPciEntryClassCode | devPciEntrySubclass | devPciEntryProgIf
  | devPciEntryRevision | devPciEntryIrqLine | devNet | devNetCount | devNetEntry
  | devNetEntryName | devNetEntryMac | devNetEntryMtu | devNetEntryLinkUp
  | devNetEntryIpv4Address | devSound | devSoundActiveDriver | devSoundInitialized
  | devSoundPlaying | devSoundSampleRate | devSoundVolumeLeft | devSoundVolumeRight
  | devSoundMixChannelsActive | net | netDeviceCount | netPrimaryDevice | netBackgroundRx
  | netIpv4 | netIpv4ConfiguredCount | netArp | netArpCount | netArpEntry | netArpEntryIp
  | netArpEntryMac | driver | driverRegisteredCount | driverLoadedCount | driverEntry
  | driverEntryName | driverEntryType | driverEntryLoaded
  deriving DecidableEq, Repr

/-- `node_definition`, the columns that name a node, place it and give its type. -/
structure NodeDefinition where
  id : KNodeId
  parent : Option KNodeId
  name : List UInt8
  type : KTag
  deriving DecidableEq, Repr

/-- The table of `register_core_nodes`. -/
def coreNodes : List NodeDefinition := [
  ⟨.root, none, ascii "", .struct⟩,
  ⟨.sys, some .root, ascii "sys", .struct⟩,
  ⟨.sysCpu, some .sys, ascii "cpu", .struct⟩,
  ⟨.sysCpuCount, some .sysCpu, ascii "count", .u64⟩,
  ⟨.sysCpuTicks, some .sysCpu, ascii "ticks", .u64⟩,
  ⟨.sysMem, some .sys, ascii "mem", .struct⟩,
  ⟨.sysMemTotalKb, some .sysMem, ascii "total_kb", .u64⟩,
  ⟨.sysMemFreeKb, some .sysMem, ascii "free_kb", .u64⟩,
  ⟨.sysMemHeapUsed, some .sysMem, ascii "heap_used", .u64⟩,
  ⟨.sysMemHeapCapacity, some .sysMem, ascii "heap_capacity", .u64⟩,
  ⟨.sysMemHeapSubheaps, some .sysMem, ascii "heap_subheaps", .u64⟩,
  ⟨.sysPower, some .sys, ascii "power", .struct⟩,
  ⟨.sysPowerState, some .sysPower, ascii "state", .enum⟩,
  ⟨.sysLog, some .sys, ascii "log", .struct⟩,
  ⟨.sysLogRoute, some .sysLog, ascii "route", .enum⟩,
  ⟨.fs, some .root, ascii "fs", .struct⟩,
  ⟨.fsActiveBackend, some .fs, ascii "active_backend", .str⟩,
  ⟨.fsFallbackReady, some .fs, ascii "fallback_ready", .bool⟩,
  ⟨.fsMounted, some .fs, ascii "mounted", .bool⟩,
  ⟨.fsWritable, some .fs, ascii "writable", .bool⟩,
  ⟨.fsBlockDevice, some .fs, ascii "block_device", .str⟩,
  ⟨.fsRootPath, some .fs, ascii "root_path", .str⟩,
  ⟨.fsClusterSize, some .fs, ascii "cluster_size", .u64⟩,
  ⟨.fsRootCluster, some .fs, ascii "root_cluster", .u64⟩]

/-- The table of `register_proc_nodes`. -/
def procNodes : List NodeDefinition := [
  ⟨.proc, some .root, ascii "proc", .struct⟩,
  ⟨.procCount, some .proc, ascii "count", .u64⟩,
  ⟨.procPid, none, ascii "<pid>", .struct⟩,
  ⟨.procPidId, none, ascii "id", .u64⟩,
  ⟨.procPidState, none, ascii "state", .enum⟩,
  ⟨.procPidCpu, none, ascii "cpu", .i64⟩,
  ⟨.procPidCpuTicks, none, ascii "cpu_ticks", .u64⟩,
  ⟨.procPidName, none, ascii "name", .str⟩]

/-- The table of `register_device_nodes`. -/
def deviceNodes : List NodeDefinition := [
  ⟨.dev, some .root, ascii "dev", .struct⟩,
  ⟨.devBlock, some .dev, ascii "block", .struct⟩,
  ⟨.devBlockCount, some .devBlock, ascii "count", .u64⟩,
  ⟨.devBlockEntry, none, ascii "<device>", .struct⟩,
  ⟨.devBlockEntryName, none, ascii "name", .str⟩,
  ⟨.devBlockEntrySizeKb, none, ascii "size_kb", .u64⟩,
  ⟨.devBlockEntryBlockSize, none, ascii "block_size", .u64⟩,
  ⟨.devBlockEntryRemovable, none, ascii "removable", .bool⟩,
  ⟨.devPci, some .dev, ascii "pci", .struct⟩,
  ⟨.devPciCount, some .devPci, ascii "count", .u64⟩,
  ⟨.devPciEntry, none, ascii "<device>", .struct⟩,
  ⟨.devPciEntryBus, none, ascii "bus", .u64⟩,
  ⟨.devPciEntryDevice, none, ascii "device", .u64⟩,
  ⟨.devPciEntryFunction, none, ascii "function", .u64⟩,
  ⟨.devPciEntryVendorId, none, ascii "vendor_id", .u64⟩,
  ⟨.devPciEntryDeviceId, none, ascii "device_id", .u64⟩,
  ⟨.devPciEntryClassCode, none, ascii "class_code", .u64⟩,
  ⟨.devPciEntrySubclass, none, ascii "subclass", .u64⟩,
  ⟨.devPciEntryProgIf, none, ascii "prog_if", .u64⟩,
  ⟨.devPciEntryRevision, none, ascii "revision", .u64⟩,
  ⟨.devPciEntryIrqLine, none, ascii "irq_line", .u64⟩,
  ⟨.devSound, some .dev, ascii "sound", .struct⟩,
  ⟨.devSoundActiveDriver, some .devSound, ascii "active_driver", .str⟩,
  ⟨.devSoundInitialized, some .devSound, ascii "initialized", .bool⟩,
  ⟨.devSoundPlaying, some .devSound, ascii "playing", .bool⟩,
  ⟨.devSoundSampleRate, some .devSound, ascii "sample_rate", .u64⟩,
  ⟨.devSoundVolumeLeft, some .devSound, ascii "volume_left", .u64⟩,
  ⟨.devSoundVolumeRight, some .devSound, ascii "volume_right", .u64⟩,
  ⟨.devSoundMixChannelsActive, some .devSound, ascii "mix_channels_active", .u64⟩]

/-- The table of `register_network_nodes`. -/
def networkNodes : List NodeDefinition := [
  ⟨.devNet, some .dev, ascii "net", .struct⟩,
  ⟨.devNetCount, some .devNet, ascii "count", .u64⟩,
  ⟨.devNetEntry, none, ascii "<device>", .struct⟩,
  ⟨.devNetEntryName, none, ascii "name", .str⟩,
  ⟨.devNetEntryMac, none, ascii "mac", .str⟩,
  ⟨.devNetEntryMtu, none, ascii "mtu", .u64⟩,
  ⟨.devNetEntryLinkUp, none, ascii "link_up", .bool⟩,
  ⟨.devNetEntryIpv4Address, none, ascii "ipv4_address", .str⟩,
  ⟨.net, some .root, ascii "net", .struct⟩,
  ⟨.netDeviceCount, some .net, ascii "device_count", .u64⟩,
  ⟨.netPrimaryDevice, some .net, ascii "primary_device", .str⟩,
  ⟨.netBackgroundRx, some .net, ascii "background_rx", .bool⟩,
  ⟨.netIpv4, some .net, ascii "ipv4", .struct⟩,
  ⟨.netIpv4ConfiguredCount, some .netIpv4, ascii "configured_count", .u64⟩,
  ⟨.netArp, some .net, ascii "arp", .struct⟩,
  ⟨.netArpCount, some .netArp, ascii "count", .u64⟩,
  ⟨.netArpEntry, none, ascii "<entry>", .struct⟩,
  ⟨.netArpEntryIp, none, ascii "ip", .str⟩,
  ⟨.netArpEntryMac, none, ascii "mac", .str⟩]

/-- The table of `register_driver_nodes`. -/
def driverNodes : List NodeDefinition := [
  ⟨.driver, some .root, ascii "driver", .struct⟩,
  ⟨.driverRegisteredCount, some .driver, ascii "registered_count", .u64⟩,
  ⟨.driverLoadedCount, some .driver, ascii "loaded_count", .u64⟩,
  ⟨.driverEntry, none, ascii "<driver>", .struct⟩,
  ⟨.driverEntryName, none, ascii "name", .str⟩,
  ⟨.driverEntryType, none, ascii "type", .enum⟩,
  ⟨.driverEntryLoaded, none, ascii "loaded", .bool⟩]

/-- All registered nodes, in the order of `kobj::init`. -/
def registeredNodes : List NodeDefinition :=
  coreNodes ++ procNodes ++ deviceNodes ++ networkNodes ++ driverNodes

namespace KNodeId

/-- The children that were attached to a node. -/
def children (node : KNodeId) : List NodeDefinition :=
  registeredNodes.filter fun definition => definition.parent == some node

/-- `schema.type` of a node. The type of a fresh `KNodeSchema` is `Struct`. -/
def type (node : KNodeId) : KTag :=
  match registeredNodes.find? fun definition => definition.id == node with
  | some definition => definition.type
  | none => .struct

/-- `KNode::find_child`. -/
def findChild (node : KNodeId) (name : List UInt8) : Option KNodeId :=
  (node.children.find? fun child => child.name == name).map NodeDefinition.id

end KNodeId

end VKernel.Kobj
