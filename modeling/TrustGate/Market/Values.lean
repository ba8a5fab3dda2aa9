import Mathlib.Tactic

set_option autoImplicit false

/-! # The marketplace's data

`src/models`, `src/presenters` and `src/utils/money.ts`, the JSON values that outbox events and
HTTP responses carry, and the errors the services throw. Points in time are milliseconds since
the epoch. -/

namespace TrustGate.Market

/-! ## JSON -/

/-- A JSON value over a type of strings. A number is kept as JavaScript prints it. -/
inductive Json (σ : Type := String) where
  | null
  | bool (b : Bool)
  | num (text : String)
  | str (s : σ)
  | arr (xs : List (Json σ))
  | obj (fields : List (σ × Json σ))

def Json.isNull : Json → Bool
  | .null => true
  | _ => false

/-- `v.key`, where `v` is not `null`: `none` stands for `undefined`. -/
def Json.field (key : String) : Json → Option Json
  | .obj fields => fields.lookup key
  | _ => none

/-- `String(v)` for a field `v` that is not `undefined` or `null`. An array prints as its elements
joined by commas, a plain object without its contents. -/
def Json.toText : Json → String
  | .null => "null"
  | .bool b => toString b
  | .num text => text
  | .str s => s
  | .arr xs => ",".intercalate (texts xs)
  | .obj _ => "[object Object]"
where
  texts : List Json → List String
    | [] => []
    | .null :: xs => "" :: texts xs
    | x :: xs => x.toText :: texts xs

/-- `String(v.key ?? '')`. -/
def Json.text (key : String) (v : Json) : String :=
  match v.field key with
  | none | some .null => ""
  | some x => x.toText

/-! ## Errors -/

inductive TaskStatus where
  | open | assigned | completing | completed | expired
  deriving DecidableEq, Repr

def TaskStatus.text : TaskStatus → String
  | .open => "OPEN"
  | .assigned => "ASSIGNED"
  | .completing => "COMPLETING"
  | .completed => "COMPLETED"
  | .expired => "EXPIRED"

/-- What the services throw. The classes callers test for have a constructor of their own. -/
inductive JsError where
  | taskNotFound (taskId : String)
  | taskNotOpen (status : TaskStatus)
  | noBids (taskId : String)
  | executorNotAllowed (executorPublicKey : String)
  | insufficientBalance (message : String)
  | other (message : String)
  deriving DecidableEq, Repr

def JsError.message : JsError → String
  | .taskNotFound taskId => "Task not found: " ++ taskId
  | .taskNotOpen status => status.text
  | .noBids taskId => "No pending bids for task: " ++ taskId
  | .executorNotAllowed key => "Executor " ++ key ++ " is not on the Registry allow-list"
  | .insufficientBalance message => message
  | .other message => message

/-! ## Money -/

def USDC_DECIMALS : Nat := 7

/-- The characters `String.prototype.trim` removes. -/
def isJsSpace (c : Char) : Bool :=
  let n := c.toNat
  (9 ≤ n && n ≤ 13) || n = 0x20 || n = 0xA0 || n = 0x1680 || (0x2000 ≤ n && n ≤ 0x200A)
    || n = 0x2028 || n = 0x2029 || n = 0x202F || n = 0x205F || n = 0x3000 || n = 0xFEFF

def jsTrim (cs : List Char) : List Char :=
  ((cs.dropWhile isJsSpace).reverse.dropWhile isJsSpace).reverse

def digitsValue (cs : List Char) : Nat :=
  cs.foldl (fun n c => 10 * n + (c.toNat - '0'.toNat)) 0

/-- `parseUsdcDecimalToStroops`: digits, then possibly a point and at most seven digits. -/
def parseUsdcDecimalToStroops (value : String) : Except JsError Nat :=
  let trimmed := jsTrim value.toList
  let whole := trimmed.takeWhile Char.isDigit
  let units (frac : List Char) : Except JsError Nat :=
    if USDC_DECIMALS < frac.length then .error (.other "too many decimal places (max 7)")
    else .ok (digitsValue (whole ++ frac ++ List.replicate (USDC_DECIMALS - frac.length) '0'))
  if whole.isEmpty then .error (.other "invalid decimal")
  else match trimmed.drop whole.length with
    | [] => units []
    | '.' :: frac =>
        if frac.isEmpty || !frac.all Char.isDigit then .error (.other "invalid decimal")
        else units frac
    | _ => .error (.other "invalid decimal")

/-- `formatUsdcStroopsToDecimal`. Amounts are never negative here. -/
def formatUsdcStroopsToDecimal (stroops : Nat) : String :=
  let s := (toString stroops).toList
  let padded := List.replicate (USDC_DECIMALS + 1 - s.length) '0' ++ s
  let whole := padded.take (padded.length - USDC_DECIMALS)
  let frac := ((padded.drop (padded.length - USDC_DECIMALS)).reverse.dropWhile (· = '0')).reverse
  if frac.isEmpty then String.ofList whole
  else String.ofList (whole ++ '.' :: frac)

/-! ## Tasks and bids -/

structure Task where
  id : String
  requesterPublicKey : String
  reservePriceStroops : Nat
  description : String
  deadline : Nat
  status : TaskStatus
  deriving DecidableEq, Repr

inductive BidStatus where
  | pending | selected | rejected
  deriving DecidableEq, Repr

def BidStatus.text : BidStatus → String
  | .pending => "PENDING"
  | .selected => "SELECTED"
  | .rejected => "REJECTED"

structure Bid where
  id : String
  taskId : String
  executorPublicKey : String
  amountStroops : Nat
  collateralStroops : Nat
  escrowId : String
  status : BidStatus
  createdAt : Nat
  deriving DecidableEq, Repr

/-- A point in time as it appears in JSON. The source prints it as an ISO 8601 string. -/
def dateJson (ms : Nat) : Json := .num (toString ms)

def toTaskDto (task : Task) : Json := .obj [
  ("id", .str task.id),
  ("requesterPublicKey", .str task.requesterPublicKey),
  ("reservePrice", .str (formatUsdcStroopsToDecimal task.reservePriceStroops)),
  ("reservePriceStroops", .str (toString task.reservePriceStroops)),
  ("description", .str task.description),
  ("deadline", dateJson task.deadline),
  ("status", .str task.status.text)]

def toBidDto (bid : Bid) : Json := .obj [
  ("id", .str bid.id),
  ("taskId", .str bid.taskId),
  ("executorPublicKey", .str bid.executorPublicKey),
  ("amount", .str (formatUsdcStroopsToDecimal bid.amountStroops)),
  ("amountStroops", .str (toString bid.amountStroops)),
  ("collateral", .str (formatUsdcStroopsToDecimal bid.collateralStroops)),
  ("collateralStroops", .str (toString bid.collateralStroops)),
  ("escrowId", .str bid.escrowId),
  ("status", .str bid.status.text),
  ("createdAt", dateJson bid.createdAt)]

/-- `find((bid) => bid.status === 'SELECTED')`. -/
def winningBid (bids : List Bid) : Option Bid := bids.find? fun bid => bid.status = .selected

def pendingBids (bids : List Bid) : List Bid := bids.filter fun bid => bid.status = .pending

/-- The bid `selectWinner` prefers of two: the cheaper one, of equally cheap ones the older one,
and else the one it has. -/
def better (lowest bid : Bid) : Bid :=
  if bid.amountStroops < lowest.amountStroops then bid
  else if bid.amountStroops = lowest.amountStroops ∧ bid.createdAt < lowest.createdAt then bid
  else lowest

/-- `pendingBids.reduce(..)`, for the list `first :: rest`. -/
def lowestBid (first : Bid) (rest : List Bid) : Bid := rest.foldl better first

/-! ## Results of external calls -/

structure ReleaseResult where
  success : Bool
  transactionHash : String
  amountReleased : String
  receiver : String
  deriving DecidableEq, Repr

def ReleaseResult.json (r : ReleaseResult) : Json := .obj [
  ("success", .bool r.success),
  ("transactionHash", .str r.transactionHash),
  ("amountReleased", .num r.amountReleased),
  ("receiver", .str r.receiver)]

/-- What `confiscate` reports, without the shares, which nothing reads but the log. -/
structure ConfiscateResult where
  success : Bool
  disputeId : String
  status : String
  deriving DecidableEq, Repr

/-! ## HTTP -/

structure Response where
  status : Nat
  body : Json

/-- The outcome of a schema's `safeParse`; a failure carries `error.flatten()`. -/
abbrev Parsed (α : Type) := Except Json α

/-- The value thrown is reported as `{ error, detail: err.message }`. -/
def failureResponse (status : Nat) (error : String) (detail : JsError) : Response :=
  ⟨status, .obj [("error", .str error), ("detail", .str detail.message)]⟩

def errorResponse (status : Nat) (error : String) : Response :=
  ⟨status, .obj [("error", .str error)]⟩

def invalidRequest (detail : Json) : Response :=
  ⟨400, .obj [("error", .str "invalid request"), ("detail", detail)]⟩

end TrustGate.Market
