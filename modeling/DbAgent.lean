import DbAgent.ApprovalAgreement
import DbAgent.SingleOpenCase
import DbAgent.FastPath
import DbAgent.CoalescerContract
import DbAgent.IngestService
import DbAgent.KeyRotation
import DbAgent.KeyDelivery
import DbAgent.ActivityRetry
import DbAgent.AbortSignal
import DbAgent.ResolvedGate
import DbAgent.BudgetLaw
import DbAgent.ClosedCase
import DbAgent.ProbeStatus
import DbAgent.ChunkTransport
import DbAgent.SwarmServiceSpec
import DbAgent.RedactionFastPath
import DbAgent.CurlReadOnly
import DbAgent.SpendAccounting
import DbAgent.QueryTextHead
import DbAgent.WebhookAuth
import DbAgent.EnrollmentPersistence
import DbAgent.SigningKeyFiles
import DbAgent.EnvExpansion
import DbAgent.PlaybookExecution
import DbAgent.BootstrapToken
import DbAgent.DashboardLists
import DbAgent.PromptRender
import DbAgent.ConfigTarget
import DbAgent.LogWindows
import DbAgent.Fingerprint
