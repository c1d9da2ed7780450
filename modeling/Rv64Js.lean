import Rv64Js.Core.CompressedExpands
import Rv64Js.Core.Precise
import Rv64Js.Softfp.Fma
import Rv64Js.Softfp.IntConvert
import Rv64Js.Softfp.Narrow
import Rv64Js.Softfp.FastPath
import Rv64Js.Board.SpecWalk
import Rv64Js.Board.TlbSound
import Rv64Js.Board.Plic
import Rv64Js.Board.VirtClock
import Rv64Js.Machine.FastPath
import Rv64Js.Machine.OneBus
import Rv64Js.Linux.Mappings
import Rv64Js.Jit.PendingRegions
import Rv64Js.Jit.PageIndex
import Rv64Js.Dbt.Ir
import Rv64Js.Dbt.PcTree
import Rv64Js.Dbt.StructureCopies
import Rv64Js.Dbt.StructuredPaths
import Rv64Js.Virtio.Chain
import Rv64Js.Virtio.Coherence
import Rv64Js.Virtio.Accounting
import Rv64Js.Net.Accounting
import Rv64Js.Net.Checksum
import Rv64Js.Net.ProxyWire
import Rv64Js.Net.Receive
import Rv64Js.P9.MemFsRefines
import Rv64Js.P9.Confined
import Rv64Js.P9.FidTable
