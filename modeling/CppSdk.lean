import CppSdk.ByteString
import CppSdk.Blanks
import CppSdk.SolidityAbi
import CppSdk.Runtime
import CppSdk.ContractABIType
import CppSdk.ContractABITypeCodec
import CppSdk.Conformance
import CppSdk.RoundTrip
import CppSdk.DecoderSafety
import CppSdk.EventSessions
import CppSdk.EventTasks
import CppSdk.ResumePoint
import CppSdk.Routing
import CppSdk.RoutingRaces
import CppSdk.Resubscriptions
import CppSdk.SubscribeRequests
import CppSdk.Unsubscription
import CppSdk.AmopTopics
import CppSdk.BlockNumbers
import CppSdk.JsonRpcImpl
import CppSdk.TransactionHash
import CppSdk.ContractABIDefinitionFactory
import CppSdk.TypeBuilder
import CppSdk.ListBounds
import CppSdk.ScaleRoundTrip
import CppSdk.ScaleSafety
import CppSdk.SolidityCodec
import CppSdk.SolidityLayout
import CppSdk.SolidityRoundTrip
import CppSdk.CodecAgreement
import CppSdk.ScaleCompact
import CppSdk.MethodDefinition
import CppSdk.Signatures
import CppSdk.AbiDefinition
import CppSdk.AbiCodec
import CppSdk.EventTopics
import CppSdk.CallData
import CppSdk.SignatureStrings
import CppSdk.TupleArguments
import CppSdk.NumericArguments
import CppSdk.MethodCoding
import CppSdk.Clones
import CppSdk.AmopRequest
import CppSdk.AmopDispatch
import CppSdk.EventParams
import CppSdk.FuncSelector
import CppSdk.SoliditySafety
import CppSdk.TypeStrings
import CppSdk.LegacySignatures
import CppSdk.BlockNotifier
import CppSdk.RateLimiter
import CppSdk.ReceiptJson
import CppSdk.GroupInfoCodec
import CppSdk.Handshake
import CppSdk.RequestTexts
import CppSdk.SigningFrontEnds
import CppSdk.FailedParses
import CppSdk.FixedWidthIntegers
import CppSdk.AcquireProgress
import CppSdk.TarsIntegers
import CppSdk.TarsTypes
import CppSdk.TarsBuffers
import CppSdk.TarsBuilders
import CppSdk.TarsJsonBuilders
