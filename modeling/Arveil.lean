import Arveil.Proofs.Revocation
import Arveil.Proofs.Devices
import Arveil.Proofs.Attribution
import Arveil.Proofs.Requests
import Arveil.Proofs.InPerson
import Arveil.Proofs.Publish
import Arveil.Proofs.Capabilities
import Arveil.Proofs.FanOut
import Arveil.Proofs.Committer
import Arveil.Proofs.Redirects
import Arveil.Proofs.Guard
import Arveil.Proofs.Notices
import Arveil.Proofs.Rollback
import Arveil.Proofs.Archive
import Arveil.Proofs.Order
import Arveil.Proofs.Sessions
import Arveil.Proofs.Commands
import Arveil.Proofs.Manifests
import Arveil.Proofs.Offers
import Arveil.Proofs.Pages
import Arveil.Proofs.Frames
import Arveil.Proofs.Encodings
import Arveil.Proofs.Codec
import Arveil.Proofs.Padding
import Arveil.Proofs.Fragments
import Arveil.Proofs.Envelope
import Arveil.Proofs.Linking
import Arveil.Proofs.Admission
import Arveil.Proofs.OpenSessions
import Arveil.Proofs.Selection
import Arveil.Proofs.Realms
import Arveil.Proofs.Wakeups
import Arveil.Proofs.Invitations
import Arveil.Proofs.KeyPackages
import Arveil.Proofs.RequestKeys
import Arveil.Proofs.WatchKeys
import Arveil.Proofs.Chain
import Arveil.Proofs.Consequences
import Arveil.Proofs.Pairing
import Arveil.Proofs.Uploads
import Arveil.Proofs.Quota
import Arveil.Proofs.Migration
import Arveil.Proofs.Limits
import Arveil.Proofs.SignerLedger
import Arveil.Proofs.Progress
import Arveil.Proofs.Validity
import Arveil.Proofs.Mailboxes
import Arveil.Proofs.Redemption
import Arveil.Proofs.Endpoints
import Arveil.Proofs.Storage
import Arveil.Proofs.Schema
import Arveil.Proofs.ReadMarkers
import Arveil.Proofs.History
import Arveil.Proofs.Expiry
import Arveil.Proofs.Downloads
import Arveil.Proofs.FileNames
import Arveil.Proofs.Learning
import Arveil.Proofs.Transfers
import Arveil.Proofs.Settling
import Arveil.Proofs.Executor
import Arveil.Proofs.Watch
import Arveil.Proofs.Updates
import Arveil.Proofs.UpdateSigner
import Arveil.Proofs.Enrolled
import Arveil.Proofs.Approvals
import Arveil.Proofs.Grants
import Arveil.Proofs.Custody
import Arveil.Proofs.Carrier
import Arveil.Proofs.Supply
