import Bktce.Lib.Visit
import Bktce.Lib.Search
import Bktce.Lib.Quicksort
import Bktce.Lib.Leb128
import Bktce.Lib.Cursor
import Bktce.Lib.LineMachine
import Bktce.Lib.Handle
import Bktce.Lib.Lockstep
import Bktce.Lib.Descent
import Bktce.Lib.Chain
import Bktce.Lib.Crc
import Bktce.Lib.Linked
import Bktce.Lib.Memory
import Bktce.Lib.Run
import Bktce.Machine
import Bktce.Libbacktrace.Buf
import Bktce.Libbacktrace.Leb128
import Bktce.Libbacktrace.LineTable
import Bktce.Libbacktrace.LineSort
import Bktce.Libbacktrace.Attribute
import Bktce.Libbacktrace.Abbrev
import Bktce.Libbacktrace.Inlined
import Bktce.Libbacktrace.Lookup
import Bktce.Libbacktrace.LineProgram
import Bktce.Libbacktrace.LineCode
import Bktce.Libbacktrace.LineHeader
import Bktce.Libbacktrace.LineEncode
import Bktce.World
import Bktce.Libbacktrace.Fileline
import Bktce.Libbacktrace.Backtrace
import Bktce.Libbacktrace.History
import Bktce.Libbacktrace.LineInfo
import Bktce.Libbacktrace.RangeTable
import Bktce.Libbacktrace.SourceMap
import Bktce.Libbacktrace.Ranges
import Bktce.Libbacktrace.Die
import Bktce.Libbacktrace.AddressMap
import Bktce.Libbacktrace.ReferencedName
import Bktce.Libbacktrace.FunctionInfo
import Bktce.Libbacktrace.Functions
import Bktce.Libbacktrace.DwarfAdd
import Bktce.Libbacktrace.Elf
import Bktce.Libbacktrace.Symbols
import Bktce.Libbacktrace.Crc32
import Bktce.Libbacktrace.Adler
import Bktce.Libbacktrace.Mmap
import Bktce.Libbacktrace.Allocator
import Bktce.Libbacktrace.Vector
import Bktce.Libbacktrace.View
import Bktce.Frame
import Bktce.Unwind
import Bktce.Stacktrace
import Bktce.Frame.Lines
import Bktce.Frame.Location
import Bktce.Frame.Names
import Bktce.Frame.Storage
import Bktce.CallSites
import Bktce.Protocol
import Bktce.Libbacktrace.SourceMap
