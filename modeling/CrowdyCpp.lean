import CrowdyCpp.TransitionRuns
import CrowdyCpp.BatchLedger
import CrowdyCpp.TokenBucket
import CrowdyCpp.ThreadStacks
import CrowdyCpp.ResultCodes
import CrowdyCpp.ByteLayout
import CrowdyCpp.BundleWire
import CrowdyCpp.BundleBuffer
import CrowdyCpp.WireFields
import CrowdyCpp.SpatialCodec
import CrowdyCpp.ChannelCodec
import CrowdyCpp.SpscRing
import CrowdyCpp.EventWakeup
import CrowdyCpp.ReceivePath
import CrowdyCpp.SendPath
import CrowdyCpp.SendSessions
import CrowdyCpp.SendOrder
import CrowdyCpp.ConnectionLifecycle
import CrowdyCpp.Credentials
import CrowdyCpp.AwaitedSends
import CrowdyCpp.AwaitedRetries
import CrowdyCpp.NetThread
import CrowdyCpp.TextScan
import CrowdyCpp.EstateHosts
import CrowdyCpp.EndpointUrls
import CrowdyCpp.ClientMoves
import CrowdyCpp.RedirectRetries
import CrowdyCpp.SubscriptionClient
import CrowdyCpp.SubscriptionStates
import CrowdyCpp.SubscriptionFrames
import CrowdyCpp.SubscriptionGenerations
import CrowdyCpp.SubscriptionCallbacks
import CrowdyCpp.SubscriptionTeardown
import CrowdyCpp.AuthState
import CrowdyCpp.GatewayRefusal
import CrowdyCpp.VoiceFrames
import CrowdyCpp.JitterBuffer
import CrowdyCpp.MapTotals
import CrowdyCpp.VoiceDelivery
import CrowdyCpp.VoiceAccounts
import CrowdyCpp.VideoFrames
import CrowdyCpp.VideoDelivery
import CrowdyCpp.KitMessages
import CrowdyCpp.TopicMirror
import CrowdyCpp.MirrorEpochs
import CrowdyCpp.MirrorStart
import CrowdyCpp.PrivateReads
import CrowdyCpp.KitBudget
import CrowdyCpp.KitCalls
import CrowdyCpp.MapSweep
import CrowdyCpp.ExecConnection
import CrowdyCpp.ExecSubscriptions
import CrowdyCpp.KitResends
import CrowdyCpp.ExecLine
import CrowdyCpp.ExecWaits
import CrowdyCpp.ExecAnswers
import CrowdyCpp.ExecFlushes
import CrowdyCpp.ExecJoins
import CrowdyCpp.ExecTables
import CrowdyCpp.KitSubscriptions
import CrowdyCpp.KitHandlers
import CrowdyCpp.StudioSaves
import CrowdyCpp.SaveStateStore
import CrowdyCpp.LocalActor
import CrowdyCpp.ActorStatus
import CrowdyCpp.RemoteActors
import CrowdyCpp.ErrorAttribution
import CrowdyCpp.VoxelGrid
import CrowdyCpp.ChunkStore
import CrowdyCpp.ChunkMoves
import CrowdyCpp.ChunkContents
import CrowdyCpp.VoxelWrites
import CrowdyCpp.ChunkWriteBack
import CrowdyCpp.WriteBackWaits
import CrowdyCpp.UnsavedEdits
import CrowdyCpp.VoxelEchoes
import CrowdyCpp.EchoConvergence
import CrowdyCpp.HydratedEchoes
import CrowdyCpp.RefusedEdits
import CrowdyCpp.JsonDump
import CrowdyCpp.StudioProjects
import CrowdyCpp.StudioEditor
import CrowdyCpp.StudioTabs
import CrowdyCpp.StudioContent
import CrowdyCpp.StudioController
import CrowdyCpp.StudioPatches
import CrowdyCpp.StudioSteps
import CrowdyCpp.StudioDeployments
import CrowdyCpp.StudioApprovals
import CrowdyCpp.StudioSaving
import CrowdyCpp.GameplayRefresh
import CrowdyCpp.MoveInterleavings
import CrowdyCpp.ClientOwnership
import CrowdyCpp.RefreshPacing
import CrowdyCpp.ExecBackoff
import CrowdyCpp.StudioRunning
import CrowdyCpp.StudioTargets
import CrowdyCpp.KeyedLists
import CrowdyCpp.StudioDeltas
import CrowdyCpp.StudioLayouts
import CrowdyCpp.DepthFirst
import CrowdyCpp.KitTopology
import CrowdyCpp.PlayerTimestamps
import CrowdyCpp.BoundedFifo
import CrowdyCpp.SpscInterleavings
import CrowdyCpp.StudioPaths
import CrowdyCpp.Utf8Sequences
import CrowdyCpp.Utf8Checks
import CrowdyCpp.MessagePack
import CrowdyCpp.JsonMsgpack
import CrowdyCpp.MsgpackReaders
import CrowdyCpp.MsgpackCodec
import CrowdyCpp.Spelling
import CrowdyCpp.JsonGrammar
import CrowdyCpp.JsonText
import CrowdyCpp.JsonReadBack
import CrowdyCpp.ExecWire
import CrowdyCpp.EndpointPaths
import CrowdyCpp.BitStrings
import CrowdyCpp.SecureHash
import CrowdyCpp.ExecDigests
import CrowdyCpp.Base64
import CrowdyCpp.GregorianCalendar
import CrowdyCpp.TimestampMillis
import CrowdyCpp.DecimalTexts
import CrowdyCpp.BigInts
import CrowdyCpp.CountedLoops
import CrowdyCpp.ShardKeys
import CrowdyCpp.DecimalStrings
import CrowdyCpp.ReentrantLock
import CrowdyCpp.DispatcherDrains
import CrowdyCpp.AsyncTransport
import CrowdyCpp.WebSocketFrames
import CrowdyCpp.WebSocketConnection
import CrowdyCpp.BinaryPrecision
import CrowdyCpp.JsonDoubles
import CrowdyCpp.JsonLetters
import CrowdyCpp.JsonWritten
import CrowdyCpp.ExecArguments
import CrowdyCpp.Dialogues
import CrowdyCpp.StudioModRuntime
