import TrustGate.Lib.Rollback
import TrustGate.Lib.Custody
import TrustGate.Contract.Escrow
import TrustGate.Contract.Effects
import TrustGate.Contract.Settlement
import TrustGate.Contract.Solvency
import TrustGate.Contract.Lifetime
import TrustGate.Lib.Resumption
import TrustGate.Market.Values
import TrustGate.Market.Store
import TrustGate.Market.Services
import TrustGate.Market.Worker
import TrustGate.Market.Calls
import TrustGate.Market.WorkerCalls
import TrustGate.Market.Effects
import TrustGate.Market.Identity
import TrustGate.Market.Forward
import TrustGate.Market.Recorded
import TrustGate.Market.Payouts
import TrustGate.Market.Handled
import TrustGate.Market.Bids
import TrustGate.Market.Winner
import TrustGate.Market.Outbox
import TrustGate.Market.Copies
import TrustGate.Market.Requested
import TrustGate.Contract.Registry
import TrustGate.Market.Admitted
import TrustGate.Market.Denied
import TrustGate.Market.Picked
import TrustGate.Market.Delivered
import TrustGate.Market.Attempts
import TrustGate.Lib.StableSort
import TrustGate.Market.Retries
import TrustGate.Lib.History
import TrustGate.Market.Entries
import TrustGate.Market.Stranded
import TrustGate.Market.Paused
import TrustGate.Api.Requests
import TrustGate.Api.Store
import TrustGate.Api.Middlewares
import TrustGate.Api.Routes
import TrustGate.Api.Calls
import TrustGate.Api.Effects
import TrustGate.Api.Nonces
import TrustGate.Api.Replays
import TrustGate.Api.Answers
import TrustGate.Api.Records
import TrustGate.Api.Idempotency
import TrustGate.Api.Owners
import TrustGate.Contract.Shares
import TrustGate.Lib.Solo
import TrustGate.Market.Alone
import TrustGate.Market.Confiscation
import TrustGate.Market.Selection
import TrustGate.Market.Collateral
import TrustGate.Market.Sweep
import TrustGate.Market.Completion
import TrustGate.Api.Actors
import TrustGate.Lib.Base64
import TrustGate.Api.Client
import TrustGate.Lib.Replies
import TrustGate.Market.Retry
import TrustGate.Market.Webhook
import TrustGate.Market.Hooked
import TrustGate.Market.Waits
import TrustGate.Api.Charge
import TrustGate.Api.Fees
import TrustGate.Market.Canonical
import TrustGate.Market.Results
import TrustGate.Market.Published
import TrustGate.Market.Wire
import TrustGate.Lib.Guard
import TrustGate.Market.Guards
import TrustGate.Market.RetryCount
import TrustGate.Api.Signed
import TrustGate.Lib.Upkeep
import TrustGate.Api.Expiry
import TrustGate.Db.Migrate
import TrustGate.Db.Applied
import TrustGate.Api.Charged
import TrustGate.Market.Paid
import TrustGate.Api.Verdict
import TrustGate.Api.Limits
import TrustGate.Api.Lockout
import TrustGate.Contract.Drain
import TrustGate.Market.Listed
import TrustGate.Market.Announced
import TrustGate.Lib.Observer
import TrustGate.Market.Authors
import TrustGate.Market.Audit
import TrustGate.Market.Pipeline
import TrustGate.Lib.Backlog
import TrustGate.Market.Backlog
import TrustGate.Api.Gates
import TrustGate.Market.Safety
import TrustGate.Lib.JsString
import TrustGate.Market.Kept
