import WbfMatrixClient.AccountDeletion
import WbfMatrixClient.AccountDestruction
import WbfMatrixClient.AccountLinksRuns
import WbfMatrixClient.CacheSchema
import WbfMatrixClient.ChunkLayout
import WbfMatrixClient.ConfFile
import WbfMatrixClient.CrossSigning
import WbfMatrixClient.DataPlaneKeys
import WbfMatrixClient.DirNames
import WbfMatrixClient.DownloadDiscards
import WbfMatrixClient.DownloadWaiters
import WbfMatrixClient.EditSelection
import WbfMatrixClient.ExportFiles
import WbfMatrixClient.FileUris
import WbfMatrixClient.GarbageSafety
import WbfMatrixClient.HistoryPaging
import WbfMatrixClient.InviteAgreement
import WbfMatrixClient.JobPushes
import WbfMatrixClient.KeyBackupKeys
import WbfMatrixClient.KeySyncRuns
import WbfMatrixClient.LinkNumbers
import WbfMatrixClient.LinkShutDown
import WbfMatrixClient.LoginLanding
import WbfMatrixClient.LoginRollback
import WbfMatrixClient.MatrixDownloadCache
import WbfMatrixClient.MatrixDownloadCopies
import WbfMatrixClient.MatrixEndpoints
import WbfMatrixClient.MatrixMedia
import WbfMatrixClient.MediaHousekeeping
import WbfMatrixClient.MediaStreamRanges
import WbfMatrixClient.MessageIsolation
import WbfMatrixClient.MessageNotices
import WbfMatrixClient.PrivateFile
import WbfMatrixClient.RangeHeader
import WbfMatrixClient.ReadPositions
import WbfMatrixClient.RecentSyncEnds
import WbfMatrixClient.RecoveryKey
import WbfMatrixClient.RequestLineRuns
import WbfMatrixClient.RoomStateWrites
import WbfMatrixClient.RpcFrames
import WbfMatrixClient.SeekStoreDurability
import WbfMatrixClient.SendChunksEnds
import WbfMatrixClient.ServerCaches
import WbfMatrixClient.ServerHosts
import WbfMatrixClient.ServerRemoval
import WbfMatrixClient.StreamedUploads
import WbfMatrixClient.UploadAcceptance
import WbfMatrixClient.UploadNonces
import WbfMatrixClient.WindowCounts
