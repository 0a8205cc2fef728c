import SkPqc.Foundations.Outcome
import SkPqc.Foundations.Mut
import SkPqc.Foundations.PrefixCode
import SkPqc.Foundations.Bytes
import SkPqc.Foundations.Text
import SkPqc.Foundations.Base64
import SkPqc.Foundations.Base64Url
import SkPqc.Foundations.Float
import SkPqc.Foundations.Decimal
import SkPqc.Foundations.Hex
import SkPqc.Foundations.Json
import SkPqc.Foundations.JsonMap
import SkPqc.Foundations.JsonParser
import SkPqc.Foundations.Words
import SkPqc.Foundations.StateMachine
import SkPqc.Foundations.RoundCounter
import SkPqc.Foundations.NumberedStore
import SkPqc.Primitives
import SkPqc.IdealPrimitives
import SkPqc.Kem
import SkPqc.Ratchet
import SkPqc.GroupRatchet
import SkPqc.EpochWraps
import SkPqc.DmSession.Model
import SkPqc.DmSession.Rejection
import SkPqc.DmSession.ErrorOracle
import SkPqc.DmSession.Token
import SkPqc.DmSession.Codec
import SkPqc.DmSession.Lifecycle
import SkPqc.DmSession.Snapshot
import SkPqc.DmSession.RestoredKam
import SkPqc.DmSession.EpochKey
import SkPqc.DmSession.Link
import SkPqc.DmSession.Delivery
import SkPqc.DmSession.Integrity
import SkPqc.Pqdm
import SkPqc.Malleability
import SkPqc.Pqroute.Canonical
import SkPqc.Pqroute.Envelope
import SkPqc.DomainSeparation
import SkPqc.AadParity
import SkPqc.Suites
import SkPqc.Report.Model
import SkPqc.Report.Honesty
import SkPqc.Report.HybridNotes
import SkPqc.Foundations.Traced
import SkPqc.Foundations.Transducer
import SkPqc.DmSession.FailedRekey
import SkPqc.Foundations.SortOn
import SkPqc.Suites.Listing
import SkPqc.Report.TopClaim
import SkPqc.Pqroute.HeaderRewrite
import SkPqc.AnonQueue.Address
import SkPqc.Foundations.Hmac
import SkPqc.AnonQueue.Authenticator
import SkPqc.DmSession.Reflection
import SkPqc.DmSession.Oversize
import SkPqc.DmSession.CursorSafety
import SkPqc.IndexSafety
import SkPqc.Foundations.JsonOrder
import SkPqc.Foundations.JsonText
import SkPqc.Pqroute.CanonicalForm
import SkPqc.DmSession.Coherence
import SkPqc.DmSession.StoreHistory
import SkPqc.DmSession.Convergence
import SkPqc.DmSession.Noninterference
import SkPqc.DmSession.Wire
import SkPqc.BothLegs
import SkPqc.GroupEpoch
import SkPqc.AnonQueue.QueuePair
import SkPqc.DmSession.Durability
import SkPqc.Pqroute.Tamper
import SkPqc.Foundations.JsonPretty
import SkPqc.Report.Json
import SkPqc.DmSession.EpochIndependence
import SkPqc.DmSession.Outbox
