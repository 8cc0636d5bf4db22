import HealthCheck.AnchorReferences
import HealthCheck.Api.Contents
import HealthCheck.Api.Dispatch
import HealthCheck.Api.JsonCursors
import HealthCheck.Api.JsonObject
import HealthCheck.Api.Lists
import HealthCheck.Api.MistakenObjects
import HealthCheck.Api.OptionalMembers
import HealthCheck.Api.PartialUpdates
import HealthCheck.Api.RequestWriting
import HealthCheck.Authorization
import HealthCheck.BuzzerRequests
import HealthCheck.CallbackReports
import HealthCheck.CertificateWarnings
import HealthCheck.Checksums
import HealthCheck.DeviceRecovery
import HealthCheck.EthernetReceive
import HealthCheck.FactoryResetButton
import HealthCheck.FactoryResetRuns
import HealthCheck.GenerationWrap
import HealthCheck.HealthCheckLogRuns
import HealthCheck.HealthCheckMigration
import HealthCheck.HealthCheckRequest
import HealthCheck.HealthCheckService
import HealthCheck.Lib.HttpResponse
import HealthCheck.NetworkRuns
import HealthCheck.PersistentStores
import HealthCheck.PhantomSensors
import HealthCheck.StatusLine
import HealthCheck.StoredTexts
import HealthCheck.TemperatureService
import HealthCheck.TimeServiceProgress
import HealthCheck.TimeServiceReplies
import HealthCheck.TlsServerUploads
import HealthCheck.TlsTransportProof
import HealthCheck.TlsTrustMigration
import HealthCheck.TlsTrustUndo
import HealthCheck.TransientReads
import HealthCheck.TransportDiagnosis
import HealthCheck.W25q64Transfers
