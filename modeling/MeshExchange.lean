import MeshExchange.Json.Record
import MeshExchange.Logging.Filter
import MeshExchange.Session.Basic
import MeshExchange.Settings.Environment
import MeshExchange.Tracker.Run
import MeshExchange.Proofs.Mesh.Course
import MeshExchange.Proofs.Script.Refinement
import MeshExchange.Proofs.System.Linger
import MeshExchange.Proofs.System.Parties
import MeshExchange.Proofs.System.Race
import MeshExchange.Proofs.System.Accounting
import MeshExchange.Proofs.System.Announcements
import MeshExchange.Proofs.Tracker.Grammar
import MeshExchange.Proofs.Tracker.Records
import MeshExchange.Proofs.System.Refusals
import MeshExchange.Proofs.System.Clock
import MeshExchange.Proofs.Mesh.MeshRequest
import MeshExchange.Proofs.Mesh.Exchange
import MeshExchange.Proofs.Mesh.Succession
import MeshExchange.Proofs.Frame.Codec
import MeshExchange.Proofs.System.Finality
import MeshExchange.Proofs.Budget.Bounded
import MeshExchange.Proofs.System.Latching
import MeshExchange.Proofs.System.Strays
import MeshExchange.Proofs.System.Retries
import MeshExchange.Proofs.Settings.Provenance
import MeshExchange.Proofs.System.Audience
import MeshExchange.Proofs.System.Transport
import MeshExchange.Proofs.Mesh.Deliveries
import MeshExchange.Proofs.Logging.Precedence
import MeshExchange.Proofs.Logging.Flags
import MeshExchange.Proofs.Json.Data
import MeshExchange.Proofs.System.Standstill
