import Katabasis.Lib.Acts
import Katabasis.Lib.Acyclic
import Katabasis.Lib.ArgumentWords
import Katabasis.Lib.Assemble
import Katabasis.Lib.BoundedSearch
import Katabasis.Lib.CIntegers
import Katabasis.Lib.ControlFlow
import Katabasis.Lib.Fallible
import Katabasis.Lib.FirstAnswer
import Katabasis.Lib.HeldWords
import Katabasis.Lib.Interning
import Katabasis.Lib.Json
import Katabasis.Lib.LittleEndian
import Katabasis.Lib.LongDivision
import Katabasis.Lib.LowerBound
import Katabasis.Lib.Maps
import Katabasis.Lib.Packed
import Katabasis.Lib.Readings
import Katabasis.Lib.Refinement
import Katabasis.Lib.Runs
import Katabasis.Lib.Steps
import Katabasis.Lib.Tally
import Katabasis.Lib.Words
import Katabasis.Lib.Worklist
import Katabasis.Macho.BindOpcodes
import Katabasis.Macho.Image
import Katabasis.ObjC.Ancestry
import Katabasis.ObjC.Image
import Katabasis.ObjC.LayoutApart
import Katabasis.ObjC.Manifest
import Katabasis.ObjC.Metadata
import Katabasis.ObjC.Position
import Katabasis.ObjC.Reader
import Katabasis.ObjC.Split
import Katabasis.Exports.Bridges
import Katabasis.Exports.GuestExports
import Katabasis.Exports.Reachability
import Katabasis.Xlate.Devirtualize
import Katabasis.Xlate.Dispatch
import Katabasis.Xlate.Expressions
import Katabasis.Xlate.GuestData
import Katabasis.Xlate.GuestMemory
import Katabasis.Xlate.HostSegments
import Katabasis.Xlate.Initializers
import Katabasis.Xlate.Layout
import Katabasis.Xlate.LiftLoop
import Katabasis.Xlate.LiftedCode
import Katabasis.Xlate.Loaded
import Katabasis.Xlate.Overrides
import Katabasis.Xlate.Placement
import Katabasis.Xlate.Resolved
import Katabasis.Xlate.SegmentLayout
import Katabasis.Xlate.Slides
import Katabasis.Xlate.TableRecovery
import Katabasis.Xlate.TlvRegions
import Katabasis.TsdScan.Analysis
import Katabasis.TsdScan.Blocks
import Katabasis.TsdScan.Coverage
import Katabasis.TsdScan.May
import Katabasis.TsdScan.Must
import Katabasis.TsdScan.Propagation
import Katabasis.TsdScan.Scan
import Katabasis.TsdScan.SeedOrder
import Katabasis.TsdScan.Soundness
import Katabasis.Xlgen.BlockBridges
import Katabasis.Xlgen.ClassMirror
import Katabasis.Xlgen.ClassNames
import Katabasis.Xlgen.Classes
import Katabasis.Xlgen.Crossing
import Katabasis.Xlgen.Encodings
import Katabasis.Xlgen.FunctionTypes
import Katabasis.Xlgen.HostCalls
import Katabasis.Xlgen.HostTables
import Katabasis.Xlgen.Imports
import Katabasis.Xlgen.ImportsSettled
import Katabasis.Xlgen.IntegerPairs
import Katabasis.Xlgen.Leaves
import Katabasis.Xlgen.LeavesApart
import Katabasis.Xlgen.Manifest
import Katabasis.Xlgen.Pack
import Katabasis.Xlgen.Pointees
import Katabasis.Xlgen.ProtocolMirror
import Katabasis.Xlgen.SameLayout
import Katabasis.Xlgen.Scalars
import Katabasis.Xlgen.SelectorRoutes
import Katabasis.Xlgen.Selectors
import Katabasis.Xlgen.Signatures
import Katabasis.Xlgen.Types
import Katabasis.Runtime.BlockSignatures
import Katabasis.Runtime.BlockTable
import Katabasis.Runtime.BlockTrampolines
import Katabasis.Runtime.Callbacks
import Katabasis.Runtime.ClassLayouts
import Katabasis.Runtime.Delivery
import Katabasis.Runtime.Destructors
import Katabasis.Runtime.DynamicAgreement
import Katabasis.Runtime.DynamicSend
import Katabasis.Runtime.EmittedLayouts
import Katabasis.Runtime.FormatDirectives
import Katabasis.Runtime.FormatMarshal
import Katabasis.Runtime.FormatMeaning
import Katabasis.Runtime.FormatWalk
import Katabasis.Runtime.GuestBlocks
import Katabasis.Runtime.Int128
import Katabasis.Runtime.Message
import Katabasis.Runtime.QuietLookup
import Katabasis.Runtime.Routing
import Katabasis.Runtime.ShadowReentry
import Katabasis.Runtime.ShadowTables
import Katabasis.Runtime.Shadows
import Katabasis.Runtime.State
import Katabasis.Runtime.ThreadLocal
import Katabasis.Runtime.Twins
import Katabasis.Runtime.VariadicConstructors
import Katabasis.Runtime.ZlibStreams
import Katabasis.Scripts.WeakenClassrefs
