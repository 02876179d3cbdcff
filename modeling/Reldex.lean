import Reldex.Bridge
import Reldex.BrowserLoading
import Reldex.CaseExpressions
import Reldex.CollectedOutput
import Reldex.CredentialClaims
import Reldex.DeclareSections
import Reldex.Endpoints
import Reldex.EventDelivery
import Reldex.GridRows
import Reldex.Handoff
import Reldex.LexState
import Reldex.LobStreams
import Reldex.Migration
import Reldex.NameFilter
import Reldex.NativeCodes
import Reldex.NumberBinds
import Reldex.OpenResults
import Reldex.ScaledNumbers
import Reldex.ServerOutput
import Reldex.SessionResults
import Reldex.SplitterCase
import Reldex.SplitterComments
import Reldex.SplitterSlash
import Reldex.TriggerTerminator
import Reldex.WorksheetRows
import Reldex.WorkspaceHistory
import Reldex.WorkspaceService
import Reldex.ZonedTimestamps
