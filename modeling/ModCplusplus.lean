import ModCplusplus.Filters
import ModCplusplus.General.Cleanup
import ModCplusplus.General.FirstAnswer
import ModCplusplus.General.Memory
import ModCplusplus.General.Multimap
import ModCplusplus.Terminators
import ModCplusplus.Inheritance
import ModCplusplus.Loader
import ModCplusplus.Lifetime
import ModCplusplus.OutputBuffer
import ModCplusplus.RequestBody
import ModCplusplus.FormDecode
import ModCplusplus.FormRoundTrip
import ModCplusplus.EscapeBounds
import ModCplusplus.FormParser
import ModCplusplus.FormText
import ModCplusplus.FormSegments
import ModCplusplus.ContentType
import ModCplusplus.OutputOrder
import ModCplusplus.RequestEnv
import ModCplusplus.MediaType
import ModCplusplus.Determined
import ModCplusplus.Wrappers
import ModCplusplus.ContentAnswer
import ModCplusplus.Visits
import ModCplusplus.General.Buckets
import ModCplusplus.Release
import ModCplusplus.EnvHash
import ModCplusplus.FormTable
import ModCplusplus.LoadOrder
import ModCplusplus.BoundedAppend
import ModCplusplus.General.Machine
import ModCplusplus.Serving
import ModCplusplus.Service
import ModCplusplus.Served
import ModCplusplus.RequestCall
import ModCplusplus.General.Interleave
import ModCplusplus.Interleavings
import ModCplusplus.OutputLoss
import ModCplusplus.Variables
import ModCplusplus.EnvStream
import ModCplusplus.General.Lines
import ModCplusplus.RequestDump
import ModCplusplus.Defaults
import ModCplusplus.ExampleFilters
import ModCplusplus.Overrides
import ModCplusplus.RequestStorage
