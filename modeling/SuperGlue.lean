import SuperGlue.Guarantees.LockWakeup
import SuperGlue.Guarantees.LockSection
import SuperGlue.Guarantees.FrameRecovery
import SuperGlue.Guarantees.PageRevocation
import SuperGlue.Guarantees.EventDelivery
import SuperGlue.Guarantees.FaultNotification
import SuperGlue.Guarantees.TorrentRecovery
import SuperGlue.Guarantees.EventTransparency
import SuperGlue.Guarantees.EventRecovery
import SuperGlue.Guarantees.LockTranslation
import SuperGlue.Guarantees.Timestamps
import SuperGlue.Guarantees.PeriodicRecovery
import SuperGlue.Guarantees.ClientNotification
import SuperGlue.Guarantees.MailboxDelivery
import SuperGlue.Guarantees.SchedulerReboot
import SuperGlue.Guarantees.SchedulerWakeups
import SuperGlue.Guarantees.SchedulerAssertions
import SuperGlue.Guarantees.DependencyWalks
import SuperGlue.Guarantees.FileOffsets
import SuperGlue.Guarantees.EventIntegrity
import SuperGlue.Guarantees.AliasTracking
import SuperGlue.Guarantees.AddressRegions
import SuperGlue.Guarantees.RingBuffer
import SuperGlue.Guarantees.KeyValueTrie
import SuperGlue.Guarantees.CapabilitySlots
import SuperGlue.Guarantees.PageTranslation
import SuperGlue.Guarantees.PeriodicAccounting
import SuperGlue.Guarantees.EventNames
import SuperGlue.Guarantees.IdMap
import SuperGlue.Guarantees.SlabObjects
import SuperGlue.Guarantees.FreeThreads
import SuperGlue.Guarantees.AddressLayout
import SuperGlue.Guarantees.RecoveryRequests
import SuperGlue.Guarantees.PathResolution
import SuperGlue.Guarantees.FileAccess
import SuperGlue.Guarantees.DeadlineRecovery
import SuperGlue.Guarantees.FrameRemoval
import SuperGlue.Guarantees.DependencyGraph
import SuperGlue.Guarantees.ObjectLayout
import SuperGlue.Guarantees.NameIds
import SuperGlue.Guarantees.OwnPages
import SuperGlue.Guarantees.EventSlots
import SuperGlue.Guarantees.ServerBudgets
