import RemoteObjects.Transition
import RemoteObjects.Wire.Codec
import RemoteObjects.Packet.Payload
import RemoteObjects.Packet.Stream
import RemoteObjects.Packet.Codec
import RemoteObjects.Packet.CodecProofs
import RemoteObjects.Device.Receive
import RemoteObjects.Device.Frames
import RemoteObjects.Packet.QtStream
import RemoteObjects.Device.RoundTrip
import RemoteObjects.Device.Reconnect
import RemoteObjects.Device.Resync
import RemoteObjects.Device.External
import RemoteObjects.Device.Transport
import RemoteObjects.Replica.Implementation
import RemoteObjects.Replica.SerialIds
import RemoteObjects.Replica.Heartbeat
import RemoteObjects.Node.PendingReplies
import RemoteObjects.Source.Replies
import RemoteObjects.Node.Interface
import RemoteObjects.Node.Network
import RemoteObjects.Node.Connection
import RemoteObjects.Node.Attach
import RemoteObjects.Node.DynamicDispatch
import RemoteObjects.Node.Storage
import RemoteObjects.Node.Subscription
import RemoteObjects.Node.LatentCopy
import RemoteObjects.Forest
import RemoteObjects.Host.Sources
import RemoteObjects.Host.Lookup
import RemoteObjects.Host.Consistent
import RemoteObjects.Host.Names
import RemoteObjects.Host.Table
import RemoteObjects.Host.Children
import RemoteObjects.Host.Invocable
import RemoteObjects.Client.Replicas
import RemoteObjects.Client.Steps
import RemoteObjects.Client.Loss
import RemoteObjects.Client.Suspect
import RemoteObjects.Client.Lifecycle
import RemoteObjects.Client.Replacement
import RemoteObjects.Client.Devices
import RemoteObjects.Node.NestedLoops
import RemoteObjects.Node.SingleDelivery
import RemoteObjects.Host.InProcess
import RemoteObjects.Host.Signals
import RemoteObjects.Announcement
import RemoteObjects.Source.Definitions
import RemoteObjects.Source.HeldGadgets
import RemoteObjects.Packet.ByteOrder
import RemoteObjects.Packet.Nested
import RemoteObjects.Text
import RemoteObjects.Source.TypeNames
import RemoteObjects.Source.Signatures
import RemoteObjects.Source.DynamicTypes
import RemoteObjects.Packet.Variants
import RemoteObjects.Packet.VariantProofs
import RemoteObjects.Packet.VariantRoundTrip
import RemoteObjects.SortedMap
import RemoteObjects.Packet.ProxiedMaps
import RemoteObjects.Client.ManagedTypes
import RemoteObjects.Host.Remotings
import RemoteObjects.Host.PropertyIndices
import RemoteObjects.Replica.PendingCall
import RemoteObjects.Client.Handshake
import RemoteObjects.Client.Reconnects
import RemoteObjects.Registry.Source
import RemoteObjects.Registry.Ownership
import RemoteObjects.Feed
import RemoteObjects.Registry.Replica
import RemoteObjects.Registry.Agreement
import RemoteObjects.Registry.Registration
import RemoteObjects.Registry.Sessions
import RemoteObjects.Registry.Requests
import RemoteObjects.Registry.Registered
import RemoteObjects.Registry.Proxy
import RemoteObjects.ItemModel.LruCache
import RemoteObjects.ItemModel.Adapter
import RemoteObjects.ItemModel.Requests
import RemoteObjects.HeapForest
import RemoteObjects.ItemModel.Ownership
import RemoteObjects.ItemModel.Navigation
import RemoteObjects.ItemModel.CacheData
import RemoteObjects.ItemModel.Replica
import RemoteObjects.ItemModel.Merging
import RemoteObjects.ItemModel.LayoutParents
import RemoteObjects.ItemModel.CacheLemmas
import RemoteObjects.ItemModel.Handlers
import RemoteObjects.ItemModel.Pending
import RemoteObjects.ItemModel.Headers
import RemoteObjects.ItemModel.Replies
import RemoteObjects.DepthFirst
import RemoteObjects.ItemModel.Filling
import RemoteObjects.ItemModel.Prefetch
import RemoteObjects.ItemModel.Changes
import RemoteObjects.ItemModel.Network
import RemoteObjects.ItemModel.ListModel
import RemoteObjects.ItemModel.TreeModel
import RemoteObjects.Source.MarshalledArgs
import RemoteObjects.Host.NotifySignals
import RemoteObjects.Device.QnxPulses
import RemoteObjects.Host.Listeners
import RemoteObjects.ItemModel.RowCache
import RemoteObjects.Repc.Ast
import RemoteObjects.Repc.SourceApi
import RemoteObjects.Digests
import RemoteObjects.Marks
import RemoteObjects.Repc.Signature
import RemoteObjects.Repc.SignatureReferences
import RemoteObjects.Repc.SignatureMarks
import RemoteObjects.Patterns
import RemoteObjects.ContextFree
import RemoteObjects.Repc.Lexer
import RemoteObjects.Repc.Declarations
import RemoteObjects.Repc.Parser
import RemoteObjects.Repc.Grammar
import RemoteObjects.Repc.Comments
import RemoteObjects.Repc.Metadata
import RemoteObjects.Repc.PlainTexts
import RemoteObjects.Repc.GeneratedTokens
import RemoteObjects.Repc.Routes
import RemoteObjects.ItemModel.CleanCache
import RemoteObjects.ItemModel.FreshRow
import RemoteObjects.ItemModel.ColumnPlacement
import RemoteObjects.Agreement
import RemoteObjects.ItemModel.ColumnInsertion
import RemoteObjects.ItemModel.RowMoves
import RemoteObjects.ItemModel.HeaderRows
import RemoteObjects.ItemModel.HeaderReplies
import RemoteObjects.ItemModel.FetchTree
import RemoteObjects.Replica.Sending
import RemoteObjects.Client.ConnectionRequests
import RemoteObjects.Host.ModelRoles
import RemoteObjects.Replica.Attached
import RemoteObjects.Source.InvokePackets
import RemoteObjects.Client.Initialization
import RemoteObjects.Packet.FallbackContainers
import RemoteObjects.Client.DynamicGadgets
import RemoteObjects.Loops
import RemoteObjects.ItemModel.CachedRuns
import RemoteObjects.Packet.ListDecoder
import RemoteObjects.Client.GadgetOrder
import RemoteObjects.Repc.PersistedValues
import RemoteObjects.Repc.PublicInterface
import RemoteObjects.Repc.EnumValues
import RemoteObjects.Repc.Layout
import RemoteObjects.Repc.PropertyTexts
import RemoteObjects.Repc.ParameterTexts
import RemoteObjects.Repc.BracketPods
import RemoteObjects.Repc.ApiSignatures
import RemoteObjects.ItemModel.HeaderRanges
import RemoteObjects.Repc.QualifiedNames
import RemoteObjects.Echo
import RemoteObjects.ItemModel.CurrentIndex
import RemoteObjects.Client.Acquisition
import RemoteObjects.Repc.Productions
import RemoteObjects.Repc.Sentences
import RemoteObjects.Repc.ShiftReduce
import RemoteObjects.Repc.TableParser
import RemoteObjects.Repc.Scanning
