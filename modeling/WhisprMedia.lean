import WhisprMedia.SemaphoreExclusion
import WhisprMedia.SemaphoreCount
import WhisprMedia.SemaphoreHealing
import WhisprMedia.QuotaCache
import WhisprMedia.QuotaConservation
import WhisprMedia.AclGrants
import WhisprMedia.MetadataCache
import WhisprMedia.UploadValidation
import WhisprMedia.RlsPolicies
import WhisprMedia.ExistenceProbes
import WhisprMedia.WriteIsolation
import WhisprMedia.DedupReuse
import WhisprMedia.DedupTwin
import WhisprMedia.DailyUploads
import WhisprMedia.QuotaLimits
import WhisprMedia.LiveObjects
import WhisprMedia.PrivateMedia
import WhisprMedia.SlotReturns
import WhisprMedia.GroupIcons
import WhisprMedia.JwksLoading
import WhisprMedia.E2eeStatus
import WhisprMedia.AccessLogPartitions
import WhisprMedia.AdvisoryLock
import WhisprMedia.RlsWrites
import WhisprMedia.ContentChecks
import WhisprMedia.StorageAlignment
import WhisprMedia.AclUnion
import WhisprMedia.DeleteRetries
import WhisprMedia.OrphanedObjects
import WhisprMedia.LifecyclePolicies
import WhisprMedia.ImageSignatures
import WhisprMedia.PdfJavaScript
import WhisprMedia.SharedWithDecoding
import WhisprMedia.QuotaDecisions
import WhisprMedia.AlertThresholds
import WhisprMedia.QuotaAlerts
import WhisprMedia.MyMediaPages
import WhisprMedia.SignedUrlLifetimes
import WhisprMedia.FirstAccess
import WhisprMedia.UploadRetries
import WhisprMedia.StorageKeys
import WhisprMedia.PartitionTiling
import WhisprMedia.UploadThrottle
import WhisprMedia.SemaphoreRefresh
import WhisprMedia.AccessTrail
import WhisprMedia.TokenConfinement
import WhisprMedia.ServedContent
