import TrustGate.Market.Worker

set_option autoImplicit false

/-! # Requests to the API

What the middlewares see of an HTTP request once `express.json` has run, and what they use of
Node and the Stellar SDK. -/

namespace TrustGate.Api

open Market

/-- A `Buffer`, as its bytes. -/
abbrev Buffer := List UInt8

/-- `Buffer.from(s)`: UTF-8. -/
def bufferOf (s : String) : Buffer := s.toUTF8.data.toList

theorem bufferOf_inj {s s' : String} (h : bufferOf s = bufferOf s') : s = s' := by
  have hdata : s.toUTF8.data = s'.toUTF8.data := Array.toList_inj.mp h
  exact String.toByteArray_inj.mp (ByteArray.ext hdata)

/-- The number that a decimal numeral stands for. -/
def decimal (s : String) : Option Nat :=
  if s ≠ "" ∧ s.toList.all Char.isDigit then some (digitsValue s.toList) else none

theorem decimal_toString (n : Nat) : decimal (toString n) = some n := by
  have hlist : (toString n).toList = Nat.toDigits 10 n := by
    rw [Nat.toString_eq_ofList_toDigits, String.toList_ofList]
  have hdigits : (toString n).toList.all Char.isDigit = true := by
    rw [hlist, List.all_eq_true]
    exact fun c hc => Nat.isDigit_of_mem_toDigits (by omega) (by omega) hc
  have hne : toString n ≠ "" := by
    intro heq
    rw [heq] at hlist
    exact Nat.toDigits_ne_nil hlist.symm
  unfold decimal
  rw [if_pos ⟨hne, hdigits⟩, hlist]
  have hvalue := Nat.ofDigitChars_ten_toDigits (n := n)
  rw [Nat.ofDigitChars_eq_foldl] at hvalue
  exact congrArg some hvalue

/-! ## Requests -/

structure Request where
  method : String
  /-- The methods that Node's parser lets pass are in capitals. -/
  method_known : ∀ c ∈ method.toList, c.toUpper = c ∧ c ≠ '\n'
  originalUrl : String
  /-- What `getClientIp` finds; empty where the connection has no address. -/
  ip : String
  /-- Header names in lower case, as Node keeps them. -/
  headers : List (String × String)
  /-- The bytes `express.json` has seen; none where it read no body. -/
  rawBody : Option Buffer
  /-- `req.body`; none stands for `undefined`. -/
  body : Option Json
  /-- It keeps the bytes of every body that it reads. -/
  rawBody_of_body : body.isSome = true → rawBody.isSome = true

theorem post_known : ∀ c ∈ "POST".toList, c.toUpper = c ∧ c ≠ '\n' := by simp

namespace Request

/-- `String(req.header(name) ?? '')`. -/
def header (req : Request) (name : String) : String := (req.headers.lookup name).getD ""

def publicKey (req : Request) : String := req.header "x-tg-public-key"

def timestamp (req : Request) : String := req.header "x-tg-timestamp"

def nonce (req : Request) : String := req.header "x-tg-nonce"

def signature (req : Request) : String := req.header "x-tg-signature"

def idempotencyKey (req : Request) : String := req.header "idempotency-key"

/-- `req.method.toUpperCase()`. -/
def upperMethod (req : Request) : String := String.ofList (req.method.toList.map Char.toUpper)

theorem upperMethod_eq (req : Request) : req.upperMethod = req.method := by
  have hmap : req.method.toList.map Char.toUpper = req.method.toList.map id :=
    List.map_congr_left fun c hc => (req.method_known c hc).1
  rw [upperMethod, hmap, List.map_id, String.ofList_toList]

/-- `getRequestPath`: up to the first question mark. -/
def path (req : Request) : String :=
  String.ofList (req.originalUrl.toList.takeWhile fun c => c ≠ '?')

/-- `(req.body ?? {})[key]`. -/
def bodyField (req : Request) (key : String) : Option Json := req.body.bind (Json.field key)

/-- The same, where it is a string. -/
def bodyString (req : Request) (key : String) : Option String :=
  match req.bodyField key with
  | some (.str s) => some s
  | _ => none

end Request

/-! ## Node and the Stellar SDK -/

/-- The functions of Node and of the SDK that the middlewares call. -/
structure Platform where
  /-- `createHash('sha256').update(buf).digest('hex')`. -/
  sha256Hex : Buffer → String
  /-- A digest has no line feed. -/
  sha256Hex_line : ∀ buf, '\n' ∉ (sha256Hex buf).toList
  /-- `JSON.stringify`. -/
  stringify : Json → String
  /-- `Number(s)`, where it is finite. -/
  number : String → Option Rat
  /-- Points in time are far below 2^53, up to where decimal numerals are read exactly. -/
  number_date : ∀ t : Nat, number (toString t) = some (t : Rat)
  /-- `Date.parse(s)`, where it is not `NaN`. -/
  dateParse : String → Option Int
  /-- `Buffer.from(s, 'hex')` and `Buffer.from(s, 'base64')`. -/
  fromHex : String → Buffer
  fromBase64 : String → Buffer
  /-- `Keypair.fromPublicKey(key)` does not throw. -/
  fromPublicKey : String → Bool
  /-- It checks that `key` is the canonical spelling of a 32-byte Ed25519 key. -/
  isStrkey_of_fromPublicKey : ∀ key, fromPublicKey key = true → isStrkey 'G' key = true
  /-- `Keypair.fromPublicKey(key).verify(data, signature)`, which throws on a signature of the
  wrong length. -/
  verify : String → Buffer → Buffer → Except JsError Bool

/-- The two hexadecimal digits of a byte. -/
def hexByte (b : UInt8) : List Char := [Nat.digitChar (b.toNat / 16), Nat.digitChar (b.toNat % 16)]

theorem hexByte_line (b : UInt8) : '\n' ∉ hexByte b := by
  have hdigit : ∀ n < 16, Nat.digitChar n ≠ '\n' := by decide
  have hlt := b.toNat_lt
  simp only [hexByte, List.mem_cons, List.not_mem_nil, or_false, not_or]
  exact ⟨(hdigit _ (by omega)).symm, (hdigit _ (by omega)).symm⟩

/-- For runs on fixed inputs: a digest is the text in hexadecimal, a signature the text itself. -/
def echoPlatform : Platform where
  sha256Hex buf := String.ofList (buf.flatMap hexByte)
  sha256Hex_line buf h := by
    rw [String.toList_ofList, List.mem_flatMap] at h
    obtain ⟨b, -, hb⟩ := h
    exact hexByte_line b hb
  stringify _ := "{}"
  number s := (decimal s).map fun n => (n : Rat)
  number_date t := by rw [decimal_toString]; rfl
  dateParse s := (decimal s).map fun n => (n : Int)
  fromHex := bufferOf
  fromBase64 := bufferOf
  fromPublicKey := isStrkey 'G'
  isStrkey_of_fromPublicKey _ h := h
  verify _ data sig := .ok (data = sig)

/-- `parseSignature`. -/
def Platform.parseSignature (p : Platform) (sig : String) : Buffer :=
  let trimmed := jsTrim sig.toList
  let isHex (c : Char) : Bool :=
    c.isDigit || ('a' ≤ c && c ≤ 'f') || ('A' ≤ c && c ≤ 'F')
  if !trimmed.isEmpty && trimmed.all isHex && trimmed.length % 2 = 0 then
    p.fromHex (String.ofList trimmed)
  else p.fromBase64 (String.ofList trimmed)

/-- The body hash of `signatureAuth` and of `idempotency`. -/
def Platform.bodyHash (p : Platform) (req : Request) : String :=
  p.sha256Hex (req.rawBody.getD (bufferOf (p.stringify (req.body.getD (.obj [])))))

/-- What a request's signature is over. -/
def Platform.signedPayload (p : Platform) (req : Request) : Buffer :=
  bufferOf (req.upperMethod ++ "\n" ++ req.path ++ "\n" ++ req.timestamp ++ "\n" ++ req.nonce
    ++ "\n" ++ p.bodyHash req)

/-- What `idempotency` compares requests by. -/
def Platform.requestHash (p : Platform) (req : Request) : String :=
  p.sha256Hex (bufferOf (req.upperMethod ++ "\n" ++ req.path ++ "\n" ++ p.bodyHash req))

/-- The environment of an API process. -/
structure Settings extends Market.Settings, Platform where
  /-- `NETWORK` is not set: `loadStellarConfig` takes the network to be local, `NETWORK` is not
  `'local'`. -/
  networkUnset : Bool := false
  /-- `NODE_ENV === 'test'`. -/
  nodeEnvTest : Bool := false
  /-- `TG_ALLOW_CLIENT_NONCE === 'true'`. -/
  allowClientNonce : Bool := false
  adminSecret : Option String := none

/-- `config.network === 'local'`. -/
def Settings.configLocal (cfg : Settings) : Bool := cfg.networkLocal || cfg.networkUnset

end TrustGate.Api
