import FsServer.Proof.ApiKeys
import FsServer.Proof.AuditWriter
import FsServer.Proof.Bounds
import FsServer.Proof.Cache
import FsServer.Proof.DirectoryRuns
import FsServer.Proof.DownloadSessions
import FsServer.Proof.Downloads
import FsServer.Proof.FailedRename
import FsServer.Proof.FileHash
import FsServer.Proof.FileLocks
import FsServer.Proof.LockEquivalence
import FsServer.Proof.LockRenewal
import FsServer.Proof.MemoryStore
import FsServer.Proof.Migration
import FsServer.Proof.OneTimeUse
import FsServer.Proof.PathLocks
import FsServer.Proof.RateLimit
import FsServer.Proof.RecursiveDelete
import FsServer.Proof.Retention
import FsServer.Proof.RetriedPart
import FsServer.Proof.RunningHash
import FsServer.Proof.SharedProgress
import FsServer.Proof.SlotCounter
import FsServer.Proof.SoftDelete
import FsServer.Proof.Symlinks
import FsServer.Proof.TempDir
