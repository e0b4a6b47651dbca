import TelegramDesktop.Base.FlatMap
import TelegramDesktop.Base.Int32
import TelegramDesktop.Base.Run
import TelegramDesktop.Base.Spans
import TelegramDesktop.Data.PtsWaiterQueue
import TelegramDesktop.Mtproto.ReceivedIdsManager
import TelegramDesktop.Data.PtsWaiterRuns
import TelegramDesktop.Data.PtsWaiterLog
import TelegramDesktop.Data.PtsWaiterOrder
import TelegramDesktop.Base.Words
import TelegramDesktop.Mtproto.TcpProtocol
import TelegramDesktop.Base.Framing
import TelegramDesktop.Mtproto.TcpConnection
import TelegramDesktop.Mtproto.TcpConnectionRead
import TelegramDesktop.Mtproto.TcpConnectionStream
import TelegramDesktop.Mtproto.TlsClientHello
import TelegramDesktop.Base.Vectors
import TelegramDesktop.Mtproto.TlsClientHelloWrite
import TelegramDesktop.Mtproto.TlsClientHelloFormat
import TelegramDesktop.Mtproto.TlsClientHelloRules
import TelegramDesktop.Mtproto.TlsClientHelloTotal
import TelegramDesktop.Mtproto.SerializedRequest
import TelegramDesktop.Mtproto.Session
import TelegramDesktop.Mtproto.SessionSend
import TelegramDesktop.Mtproto.TlsServerHello
import TelegramDesktop.Mtproto.TlsPackets
import TelegramDesktop.Base.FlatSet
import TelegramDesktop.Storage.SparseIdsList
import TelegramDesktop.Storage.SparseIdsListSlices
import TelegramDesktop.Storage.SparseIdsListRefines
import TelegramDesktop.Storage.SparseIdsListSnapshot
import TelegramDesktop.Data.WorkingIntervals
import TelegramDesktop.Data.WorkingIntervalsCover
import TelegramDesktop.Data.WorkingIntervalsDay
import TelegramDesktop.Data.WorkingIntervalsReplace
import TelegramDesktop.Data.WorkingIntervalsCanonical
import TelegramDesktop.Data.SliceBuilder
import TelegramDesktop.Data.SliceBuilderWindow
import TelegramDesktop.Data.SliceBuilderCounters
import TelegramDesktop.Data.SliceBuilderFeed
import TelegramDesktop.Data.SparseIdsSliceBuilder
import TelegramDesktop.Media.StreamingCache
import TelegramDesktop.Media.StreamingCacheParse
import TelegramDesktop.Media.StreamingCacheRoundTrip
import TelegramDesktop.Media.StreamingSlices
import TelegramDesktop.Media.StreamingSlicesValid
import TelegramDesktop.Media.StreamingSlicesRun
import TelegramDesktop.Media.StreamingSlicesRoundTrip
import TelegramDesktop.Dialogs.MainList
import TelegramDesktop.Dialogs.MainListTotals
import TelegramDesktop.Data.RepliesList
import TelegramDesktop.Data.RepliesListCounters
import TelegramDesktop.Data.RepliesListSlice
import TelegramDesktop.Data.RepliesListReflects
import TelegramDesktop.Mtproto.DcOptions
import TelegramDesktop.Mtproto.DcOptionsReachable
import TelegramDesktop.Mtproto.DcOptionsSaved
import TelegramDesktop.Mtproto.ProxyData
import TelegramDesktop.Mtproto.ProxyDataSecrets
import TelegramDesktop.Storage.FileUtilities
import TelegramDesktop.Storage.FileUtilitiesCrash
import TelegramDesktop.Data.Histories
import TelegramDesktop.Data.HistoriesLinked
import TelegramDesktop.Data.HistoriesFrame
import TelegramDesktop.Data.HistoriesDialogs
import TelegramDesktop.Data.HistoriesEntries
import TelegramDesktop.Data.HistoriesReads
import TelegramDesktop.Data.HistoriesLater
import TelegramDesktop.Data.HistoriesMoves
import TelegramDesktop.Data.HistoriesFresh
import TelegramDesktop.Data.HistoriesGate
import TelegramDesktop.Base.Keyed
import TelegramDesktop.Passport.Encryption
import TelegramDesktop.Data.StoriesIds
import TelegramDesktop.Api.Updates
import TelegramDesktop.Api.UpdatesOrder
import TelegramDesktop.Data.GroupCallUpdates
import TelegramDesktop.Data.GroupCallOrder
import TelegramDesktop.Data.GroupCallParticipants
import TelegramDesktop.Data.GroupCallParticipantsIndex
import TelegramDesktop.Data.ScheduledMessages
import TelegramDesktop.Data.ScheduledMessagesIndex
import TelegramDesktop.Data.ScheduledMessagesRuns
import TelegramDesktop.Ui.ImageLocation
import TelegramDesktop.Ui.ImageLocationRoundTrip
import TelegramDesktop.Lang.Instance
import TelegramDesktop.Lang.InstanceValues
import TelegramDesktop.Lang.InstanceRuns
import TelegramDesktop.Storage.Uploader
import TelegramDesktop.Storage.UploaderAccounts
import TelegramDesktop.Storage.UploaderSends
import TelegramDesktop.Storage.UploaderRuns
import TelegramDesktop.Storage.UploaderParts
import TelegramDesktop.Storage.UploaderSaved
import TelegramDesktop.Storage.UploaderSavedRuns
import TelegramDesktop.Data.MessagesList
import TelegramDesktop.Data.AddedIds
import TelegramDesktop.Data.SparseIds
import TelegramDesktop.Data.StoryPreload
import TelegramDesktop.Media.StreamingFillWaits
import TelegramDesktop.Data.StoriesResolveRuns
import TelegramDesktop.Data.StoriesStripRuns
import TelegramDesktop.Data.StoriesSetsRuns
import TelegramDesktop.Mtproto.DcOptionsChanged
import TelegramDesktop.Base.Rotate
import TelegramDesktop.Storage.DownloadManagerMtproto
import TelegramDesktop.Storage.FileDownload
import TelegramDesktop.Storage.StreamedFileDownloader
import TelegramDesktop.Base.Count
import TelegramDesktop.History.StillUnread
import TelegramDesktop.Data.RepliesListUnread
import TelegramDesktop.Dialogs.PinnedList
import TelegramDesktop.Dialogs.RowList
import TelegramDesktop.Ui.ImageLocationCache
import TelegramDesktop.Lang.FileParser
import TelegramDesktop.Passport.Decryption
import TelegramDesktop.Lang.ShortenedCount
import TelegramDesktop.Data.StatisticalChart
import TelegramDesktop.Statistics.SegmentTree
import TelegramDesktop.Base.Prefixes
import TelegramDesktop.Base.Swaps
import TelegramDesktop.Data.Groups
import TelegramDesktop.History.UnreadThings
import TelegramDesktop.Data.GroupCallCount
import TelegramDesktop.Data.ChatFilters
import TelegramDesktop.Dialogs.IndexedList
import TelegramDesktop.Data.HistoriesOlder
import TelegramDesktop.Data.SearchController
import TelegramDesktop.Base.Latest
import TelegramDesktop.Base.Loop
import TelegramDesktop.Storage.WriteManager
import TelegramDesktop.Storage.WriteManagerFiles
import TelegramDesktop.Storage.LocalEncryption
import TelegramDesktop.Mtproto.DedicatedFileLoader
import TelegramDesktop.Mtproto.DedicatedFileLoaderRuns
import TelegramDesktop.Mtproto.DcKeyCreator
import TelegramDesktop.Mtproto.DcKeyCreatorFactors
import TelegramDesktop.Mtproto.SessionContainer
import TelegramDesktop.Mtproto.SessionContainerReads
import TelegramDesktop.Base.Json
import TelegramDesktop.Export.JsonWriter
import TelegramDesktop.Export.JsonWriterReads
import TelegramDesktop.Core.RecentEmojiRuns
