import Rcllite.Lib.LittleEndian
import Rcllite.Lib.Interaction
import Rcllite.Lib.Transition
import Rcllite.Lib.AssocMap
import Rcllite.Lib.MapLog
import Rcllite.Lib.SortBy
import Rcllite.Lib.Utf8
import Rcllite.Lib.Json
import Rcllite.Lib.JsonLexer
import Rcllite.Lib.Regex
import Rcllite.Lib.PyText
import Rcllite.Lib.JsonValue
import Rcllite.Lib.Checks
import Rcllite.Lib.Tokens
import Rcllite.Lib.Cursors
import Rcllite.Lib.JsonReader
import Rcllite.Lib.CppLexer
import Rcllite.Lib.CppSyntax
import Rcllite.Lib.CppSemantics
import Rcllite.CdrPrim
import Rcllite.CdrWriter
import Rcllite.CdrReader
import Rcllite.MsgCodegen
import Rcllite.InterfaceFile
import Rcllite.InterfaceLines
import Rcllite.InterfaceRoundTrip
import Rcllite.ServiceFile
import Rcllite.HeaderNames
import Rcllite.CdrRoundTrip
import Rcllite.CdrBulk
import Rcllite.MsgRoundTrip
import Rcllite.CdrSafety
import Rcllite.MsgSafety
import Rcllite.CdrGuard
import Rcllite.MsgGuard
import Rcllite.PyCdr
import Rcllite.PyMessages
import Rcllite.PyWriting
import Rcllite.PyReading
import Rcllite.PyWireFormat
import Rcllite.PyComposition
import Rcllite.PyRoundTrip
import Rcllite.ServiceHeader
import Rcllite.ServiceFraming
import Rcllite.RawSerdata
import Rcllite.ServiceClient
import Rcllite.ClientInvariant
import Rcllite.ServiceNetwork
import Rcllite.ClientPromise
import Rcllite.ExecutorModel
import Rcllite.ExecutorWake
import Rcllite.DdsReader
import Rcllite.GraphMonitor
import Rcllite.MonitorDecoding
import Rcllite.MonitorDeparture
import Rcllite.Names
import Rcllite.TypeName
import Rcllite.JsonWriter
import Rcllite.GraphSnapshot
import Rcllite.SnapshotSpec
import Rcllite.SnapshotJson
import Rcllite.SnapshotExact
import Rcllite.DocumentStructure
import Rcllite.NameDecoding
import Rcllite.NodeIdentity
import Rcllite.ParameterModel
import Rcllite.ParameterAtomic
import Rcllite.ParameterEvents
import Rcllite.ParameterServices
import Rcllite.ParameterListing
import Rcllite.ParameterFailure
import Rcllite.ParameterCreation
import Rcllite.NameGrammar
import Rcllite.ParameterTyping
import Rcllite.ParameterWire
import Rcllite.EntityDispatch
import Rcllite.ReaderTake
import Rcllite.ExecutorAttachments
import Rcllite.ExecutorSlots
import Rcllite.ExecutorCancel
import Rcllite.ContextConfigure
import Rcllite.FfiRegistry
import Rcllite.GraphTopology
import Rcllite.TopologyErrors
import Rcllite.PyAgreement
import Rcllite.PySubscription
import Rcllite.TopicDelivery
import Rcllite.ServiceExchange
import Rcllite.NodeRegistry
import Rcllite.NodeLifetime
import Rcllite.SnapshotReading
import Rcllite.TopologyMeaning
import Rcllite.TopologyRun
import Rcllite.TopologyStatus
import Rcllite.CodegenText
import Rcllite.CodegenParse
import Rcllite.CodegenMeaning
