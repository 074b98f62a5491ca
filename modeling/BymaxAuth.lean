import BymaxAuth.Guarantees.Reuse
import BymaxAuth.Guarantees.Lifetime
import BymaxAuth.Guarantees.ExceptCurrent
import BymaxAuth.Guarantees.Refused
import BymaxAuth.SingleUse.Invitation.Index
import BymaxAuth.Config.Roles
import BymaxAuth.Guarantees.Guesses
import BymaxAuth.Config.Rotation
import BymaxAuth.SingleUse.Recovery.Rehash
import BymaxAuth.Guarantees.Logout
import BymaxAuth.Guarantees.RecoveryCodes
import BymaxAuth.SingleUse.Recovery.Latest
import BymaxAuth.SingleUse.Recovery.Otp
import BymaxAuth.Edge.SilentRefresh
import BymaxAuth.Ticket.Lifetime
import BymaxAuth.Testing.Refinement
import BymaxAuth.Axum.RateLimit
import BymaxAuth.Guarantees.SessionCap
import BymaxAuth.Password.Budget
import BymaxAuth.SingleUse.Recovery.Spending
import BymaxAuth.Guarantees.Enrolment
import BymaxAuth.Client.Presented
import BymaxAuth.Token.Genuine
import BymaxAuth.Client.Provider
import BymaxAuth.Edge.RoleRules
import BymaxAuth.Edge.CookieRelay
import BymaxAuth.Token.ApiKey
import BymaxAuth.Client.Routes
import BymaxAuth.Password.CommonPassword
import BymaxAuth.Mfa.Provisioning
import BymaxAuth.Email.Html
import BymaxAuth.Identity.AccountStatus
