import PandaOS.Theorems.Blocking
import PandaOS.Theorems.Directories
import PandaOS.Theorems.ElfPages
import PandaOS.Theorems.ExecArgs
import PandaOS.Theorems.Execve
import PandaOS.Theorems.Fat32
import PandaOS.Theorems.FileData
import PandaOS.Theorems.ForkUndo
import PandaOS.Theorems.Frames
import PandaOS.Theorems.FreshPages
import PandaOS.Theorems.HomeMap
import PandaOS.Theorems.HomePersist
import PandaOS.Theorems.HomeStale
import PandaOS.Theorems.KernelCow
import PandaOS.Theorems.KernelHeap
import PandaOS.Theorems.MemoryErrors
import PandaOS.Theorems.Net
import PandaOS.Theorems.PageMap
import PandaOS.Theorems.Paths
import PandaOS.Theorems.Redirect
import PandaOS.Theorems.RefCounts
import PandaOS.Theorems.Reservations
import PandaOS.Theorems.Spaces
import PandaOS.Theorems.Tracker
import PandaOS.Theorems.Tty
import PandaOS.Theorems.UdpPorts
import PandaOS.Theorems.Waitpid
