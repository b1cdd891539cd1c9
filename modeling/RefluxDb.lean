import RefluxDb.Write.CompactionAnswers
import RefluxDb.Write.Leases
import RefluxDb.Write.TombstoneGc
import RefluxDb.Write.GatedDeletion
import RefluxDb.Write.BootView
import RefluxDb.Write.SnapshotVisibility
import RefluxDb.Write.QuerierVisibility
import RefluxDb.Write.ColdGcSafety
import RefluxDb.Query.Overlap
import RefluxDb.Query.Deduplicate
import RefluxDb.Write.CompactedDuplicates
import RefluxDb.Write.FileOrder
import RefluxDb.Wal.Coverage
import RefluxDb.Wal.Flights
import RefluxDb.Write.DeletionMarks
import RefluxDb.Write.DirectCompaction
import RefluxDb.Write.EvictionTombstones
import RefluxDb.Wal.CorruptReplay
import RefluxDb.Wal.WalFileRemoval
import RefluxDb.Write.CompactionClaims
import RefluxDb.Catalog.TokenRights
import RefluxDb.Wal.BackPressure
import RefluxDb.Wal.TimestampRange
import RefluxDb.Write.WalTailCompleteness
import RefluxDb.Write.IndexMetadata
import RefluxDb.Write.TableIndexCache
import RefluxDb.Catalog.TransactionAgreement
import RefluxDb.Write.PathRoundTrip
import RefluxDb.Query.RetentionPolicies
import RefluxDb.Cache.ParquetCache
import RefluxDb.Catalog.TokenLookup
import RefluxDb.Catalog.ScopedTokens
import RefluxDb.Write.CheckpointMonths
import RefluxDb.Processing.Schedule
import RefluxDb.Store.AdaptiveGet
