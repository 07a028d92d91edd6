import Sulion.Ingest.Tailing
import Sulion.Session.Digest
import Sulion.Session.ConcurrentPurge
import Sulion.Session.Rebuild
import Sulion.Usage.LiveReplay
import Sulion.SecretMerge
import Sulion.SubmittedPrompts
import Sulion.Plans.Positions
import Sulion.Plans.LocalEdits
import Sulion.Timeline.StreamSync
import Sulion.Timeline.RevisionMarkers
import Sulion.Pty.Upgrade
import Sulion.Node.Pairing
import Sulion.Node.LateClose
import Sulion.Ingest.CanonicalRepair
import Sulion.Ingest.LineagePauses
import Sulion.SigningKeys
import Sulion.Devenv.Reap
import Sulion.Api.CoalescedSnapshot
import Sulion.Retrieval.HybridSearch
import Sulion.Retrieval.Reindex
import Sulion.Correlate
import Sulion.Devenv.Calls
import Sulion.Node.Reassembly
import Sulion.Node.Requests
import Sulion.Node.Pin
import Sulion.Node.LanGuard
import Sulion.Ingest.ApplyPatch
import Sulion.Timeline.Lifecycle
import Sulion.Timeline.CodexTokens
import Sulion.RepoHistory
import Sulion.Usage.LegacyAgreement
import Sulion.Timeline.FileTouches
import Sulion.Frontend.ItemGrouper
import Sulion.Frontend.TurnStream
import Sulion.Frontend.TurnCache
import Sulion.Devenv.Attach
import Sulion.Devenv.Inventory
import Sulion.Frontend.TabLayout
import Sulion.Frontend.SessionList
import Sulion.Frontend.InlineDiff
import Sulion.CodeIntel.Excerpt
import Sulion.CodeIntel.Positions
import Sulion.CodeIntel.Structural
import Sulion.CodeIntel.ServerPool
import Sulion.CodeIntel.CatchUp
import Sulion.Ingest.PastedContent
import Sulion.Ingest.CodeMode
import Sulion.MetaRepos
import Sulion.ModelEnforcement
import Sulion.Api.PromptDelivery
import Sulion.Revocation
import Sulion.Frontend.AuthSession
import Sulion.WorkspaceDeletion
import Sulion.Porcelain
import Sulion.Dora
