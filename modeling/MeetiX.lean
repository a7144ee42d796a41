import MeetiX.Kernel.Memory.AddressRangeFragmentation
import MeetiX.Kernel.Memory.LowerHeap
import MeetiX.Kernel.Memory.KernelHeapHistory
import MeetiX.Kernel.Memory.FrameIsolation
import MeetiX.Kernel.FileSystem.RamdiskIds
import MeetiX.Kernel.FileSystem.PipeReferences
import MeetiX.Kernel.FileSystem.TaskedDiscovery
import MeetiX.Kernel.FileSystem.PathResolution
import MeetiX.Kernel.FileSystem.PathDiscovery
import MeetiX.Kernel.Tasking.IdentifierHistory
import MeetiX.Loader.FreeMemory
import MeetiX.Userspace.SpawnerHistory
import MeetiX.Kernel.Memory.HeapHistory
import MeetiX.Kernel.Tasking.TaskEntries
import MeetiX.Kernel.Tasking.RoundRobin
import MeetiX.Kernel.Tasking.Cores
import MeetiX.Kernel.Tasking.Requests
import MeetiX.Kernel.Tasking.AtomicLock
import MeetiX.Kernel.Messaging.MessageBlocks
import MeetiX.Kernel.Memory.MainStacks
import MeetiX.Kernel.Memory.ReferenceCounts
import MeetiX.Kernel.FileSystem.RamdiskHistory
import MeetiX.Kernel.FileSystem.PipeLengths
import MeetiX.Kernel.FileSystem.DirectoryRefresh
import MeetiX.Kernel.Vm86.Virtual8086Monitor
import MeetiX.Userspace.MxParser
import MeetiX.Userspace.ZipNet.ComponentRegistry
import MeetiX.Userspace.ZipNet.HitTest
import MeetiX.Userspace.ZipNet.EventQueue
import MeetiX.Userspace.ZipNet.Pointer
import MeetiX.Kernel.Utils.HashMapHistory
import MeetiX.Userspace.TimeDriver
import MeetiX.Userspace.ZipNet.FlowLayout
import MeetiX.Kernel.Utils.Logger
import MeetiX.Userspace.CandyTerminal.Scrolling
