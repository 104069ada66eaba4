import ZoweCommon.Collections.HashtableMap
import ZoweCommon.Collections.LRULatest
import ZoweCommon.Collections.LockFreeOrder
import ZoweCommon.CrossMemory.MapLookup
import ZoweCommon.CrossMemory.MapUniqueness
import ZoweCommon.Json.MergeCorrect
import ZoweCommon.Json.NativeRoundTrip
import ZoweCommon.Json.Utf8RoundTrip
import ZoweCommon.Json.StreamingRuns
import ZoweCommon.Yaml.Conversion
import ZoweCommon.Yaml.RoundTrip
import ZoweCommon.Collections.LongOwnership
import ZoweCommon.Config.Overlay
import ZoweCommon.Config.Dereference
import ZoweCommon.Config.TemplatesExact
import ZoweCommon.Config.LoadAtomic
import ZoweCommon.WebSocket.FrameRoundTrip
import ZoweCommon.WebSocket.PacketBoundaries
import ZoweCommon.WebSocket.JsonOutput
import ZoweCommon.Http.ChunkedRoundTrip
import ZoweCommon.Http.SessionTokenUser
import ZoweCommon.Http.RequestBounds
import ZoweCommon.Http.RequestRoundTrip
import ZoweCommon.Http.ConversationRequests
import ZoweCommon.Schema.Builder
import ZoweCommon.Schema.Validator
import ZoweCommon.Stc.WakeUps
import ZoweCommon.Http.ClientWire
import ZoweCommon.Http.BasicAuthBuffers
import ZoweCommon.Http.Cookies
import ZoweCommon.Http.FileStreaming
import ZoweCommon.Http.WebSocketUpgrade
import ZoweCommon.Http.ResponseBounds
import ZoweCommon.Http.Dispatch
import ZoweCommon.Http.QueryParamFound
import ZoweCommon.Http.ServiceParams
import ZoweCommon.CrossMemory.ServiceTable
import ZoweCommon.CrossMemory.GlobalAreaLookup
import ZoweCommon.Time.TodTimestamp
import ZoweCommon.Jwt.InBounds
import ZoweCommon.Jwt.TimeWindow
import ZoweCommon.Xml.StoreBounds
import ZoweCommon.Pds.DirectoryExact
import ZoweCommon.Plugins.DataServices
import ZoweCommon.CrossMemory.ServiceMessages
import ZoweCommon.CrossMemory.ConfigParms
import ZoweCommon.CrossMemory.EcsaAccounting
import ZoweCommon.Json.TokenizerInput
import ZoweCommon.Json.IntegerLiterals
import ZoweCommon.Schema.PropertyCounts
import ZoweCommon.Schema.AccessPath
import ZoweCommon.Schema.IntegerBounds
import ZoweCommon.Schema.UniqueItems
import ZoweCommon.Schema.ConstEnum
import ZoweCommon.Schema.PropertySchemas
import ZoweCommon.Json.BufferMemory
import ZoweCommon.Schema.EnumText
import ZoweCommon.Jq.Tokenizer
import ZoweCommon.Jq.EvalCorrect
import ZoweCommon.Yaml.Integers
import ZoweCommon.Yaml.Termination
import ZoweCommon.Yaml.TemplateSource
import ZoweCommon.Config.EnvOutput
import ZoweCommon.Config.ConfigPath
import ZoweCommon.Collections.LongKeys
import ZoweCommon.Collections.KeyFlavours
import ZoweCommon.Collections.FlavourAgreement
import ZoweCommon.Http.RequestUri
import ZoweCommon.Encodings.Base64RoundTrip
import ZoweCommon.Heap.ShortLivedCapacity
import ZoweCommon.Heap.FixedBlocksSound
import ZoweCommon.Encodings.Base32RoundTrip
import ZoweCommon.Encodings.PercentRoundTrip
import ZoweCommon.Jq.Derivations
import ZoweCommon.Collections.LockFreeProgress
import ZoweCommon.Http.ConversationCounts
import ZoweCommon.Stc.WorkOrder
