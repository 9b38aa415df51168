import LiMaoIM.Foundation.Outcome
import LiMaoIM.Foundation.Run
import LiMaoIM.Foundation.Bytes
import LiMaoIM.Foundation.ByteReader
import LiMaoIM.Proto.Codec
import LiMaoIM.Proto.Packets
import LiMaoIM.Proto.Protocol
import LiMaoIM.Proto.Framing
import LiMaoIM.Proto.RoundTrip
import LiMaoIM.Proto.Totality
import LiMaoIM.Foundation.Delimit
import LiMaoIM.Lim.Packet
import LiMaoIM.Lim.FramingAgreement
import LiMaoIM.Lim.Stream
import LiMaoIM.Db.Record
import LiMaoIM.Foundation.FloorSearch
import LiMaoIM.Db.Index
import LiMaoIM.Db.Segment
import LiMaoIM.Db.ReadBack
import LiMaoIM.Db.IndexLookup
import LiMaoIM.Foundation.Assoc
import LiMaoIM.Foundation.Exec
import LiMaoIM.Db.Topic
import LiMaoIM.Db.TopicLayout
import LiMaoIM.Db.Message
import LiMaoIM.Db.ConcurrentAppend
import LiMaoIM.Db.FullCheck
import LiMaoIM.Db.Sanity
import LiMaoIM.Db.Reopen
import LiMaoIM.Db.Arrangement
import LiMaoIM.Db.TopicCache
import LiMaoIM.Db.TopicReads
import LiMaoIM.Foundation.Crc32
import LiMaoIM.Foundation.Decimal
import LiMaoIM.Db.FileDB
import LiMaoIM.Db.StoreLists
import LiMaoIM.Foundation.Json
import LiMaoIM.Foundation.Base64
import LiMaoIM.Foundation.Md5
import LiMaoIM.Db.UserToken
import LiMaoIM.Lim.ClientManager
import LiMaoIM.Lim.Connect
import LiMaoIM.Lim.Authentication
import LiMaoIM.Db.TornTail
import LiMaoIM.Db.Replay
import LiMaoIM.Lim.StorageCmd
import LiMaoIM.Foundation.Space
import LiMaoIM.Db.Store
import LiMaoIM.Db.OrderedReads
import LiMaoIM.Db.UserQueue
import LiMaoIM.Lim.Channel
import LiMaoIM.Lim.ChannelApi
import LiMaoIM.Lim.SubscriberCache
import LiMaoIM.Lim.AccessLists
import LiMaoIM.Lim.DeletedChannel
import LiMaoIM.Lim.Send
import LiMaoIM.Lim.SendAuthorisation
import LiMaoIM.Db.Sequential
import LiMaoIM.Db.LogPlaces
import LiMaoIM.Db.FailedAppend
import LiMaoIM.Db.FastCheck
import LiMaoIM.Lim.SequenceNumbers
import LiMaoIM.Foundation.Padded
import LiMaoIM.Proto.Inversion
import LiMaoIM.Db.MessageCodec
import LiMaoIM.Db.Backup
import LiMaoIM.Db.Restored
import LiMaoIM.Db.Content
import LiMaoIM.Db.Recover
import LiMaoIM.Db.BackupRoundTrip
import LiMaoIM.Foundation.Separator
import LiMaoIM.Lim.PersonChannel
import LiMaoIM.Lim.ClientRegistry
import LiMaoIM.Lim.ConcurrentRegistry
import LiMaoIM.Lim.OnlineStatus
import LiMaoIM.Foundation.Lru
import LiMaoIM.Foundation.Utf8
import LiMaoIM.Lim.Conversation
import LiMaoIM.Lim.DeletedConversation
import LiMaoIM.Lim.UnreadCount
import LiMaoIM.Lim.ConversationOrder
import LiMaoIM.Lim.NodeInFlightPqueue
import LiMaoIM.Lim.NodeInFlightQueue
import LiMaoIM.Lim.PendingDeliveries
import LiMaoIM.Lim.ConversationSave
import LiMaoIM.Lim.CleanUsers
import LiMaoIM.Foundation.Aes
import LiMaoIM.Util.Aes
import LiMaoIM.Lim.HandleSend
import LiMaoIM.Lim.SendAnswered
import LiMaoIM.Lim.Forwarding
import LiMaoIM.Foundation.Pool
import LiMaoIM.Foundation.RWMutex
import LiMaoIM.Util.KeyLock
import LiMaoIM.Util.KeyLockSafety
import LiMaoIM.Lim.AtLeastOnce
import LiMaoIM.Foundation.HeapOrder
import LiMaoIM.Foundation.IndexedHeap
import LiMaoIM.Lim.RetryQueue
import LiMaoIM.Foundation.BitSet
import LiMaoIM.Util.Bitmap
import LiMaoIM.Foundation.HeapCalls
import LiMaoIM.Lim.InFlightPqueue
import LiMaoIM.Db.IndexReopen
import LiMaoIM.Db.SegmentRoundTrip
import LiMaoIM.Db.Scanner
import LiMaoIM.Db.ReadGaps
import LiMaoIM.Lim.StorageCmdRoundTrip
import LiMaoIM.Foundation.Digits
import LiMaoIM.Lim.VerityString
import LiMaoIM.Foundation.Paging
import LiMaoIM.Lim.MessageWindow
import LiMaoIM.Lim.SyncMessages
import LiMaoIM.Util.SlotSets
import LiMaoIM.Foundation.Reader
import LiMaoIM.ProxyProto.Protocol
import LiMaoIM.Db.OffsetRouting
import LiMaoIM.Foundation.Grouping
import LiMaoIM.Lim.NodeSubscribers
import LiMaoIM.Lim.OnlineStatusWebhook
import LiMaoIM.Util.FormatSlots
import LiMaoIM.Foundation.AesInverse
import LiMaoIM.Util.AesRoundTrip
import LiMaoIM.Lim.RetryTracking
import LiMaoIM.Lim.Delivery
import LiMaoIM.Lim.DeliveryTracking
import LiMaoIM.Lim.DeliveryOrigin
import LiMaoIM.Foundation.BufWriter
import LiMaoIM.Sdk.Wait
import LiMaoIM.Sdk.Client
import LiMaoIM.Sdk.Calls
import LiMaoIM.Sdk.Wire
import LiMaoIM.Sdk.Resend
import LiMaoIM.Sdk.Arrival
import LiMaoIM.Sdk.Handshake
import LiMaoIM.Sdk.Receipt
import LiMaoIM.Foundation.Outbox
import LiMaoIM.Foundation.Simulation
import LiMaoIM.Db.NotifyQueue
import LiMaoIM.Lim.NotifyQueueLoop
import LiMaoIM.Lim.DeliveryFanOut
import LiMaoIM.Lim.Serving
import LiMaoIM.Lim.ServingAnswered
