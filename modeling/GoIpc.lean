import GoIpc.Mode
import GoIpc.Opener
import GoIpc.OpenOrCreate
import GoIpc.Namespace
import GoIpc.System
import GoIpc.Run
import GoIpc.Incarnations
import GoIpc.Rounds
import GoIpc.Atomic
import GoIpc.MemoryRegion
import GoIpc.RegionIO
