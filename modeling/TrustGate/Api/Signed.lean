import TrustGate.Api.Client

set_option autoImplicit false

/-! # What the signed and the hashed string stand for

`signatureAuth` signs method, path, timestamp, nonce and body digest, one on each line, and
`idempotency` hashes method, path and body digest. HTTP lets none of them have a line feed, so that
each can be told from the string. -/

namespace TrustGate.Api

open Market Lines

/-- No line feed where the strings are put together from. -/
structure Request.OneLine (req : Request) : Prop where
  path : '\n' ∉ req.path.toList
  timestamp : '\n' ∉ req.timestamp.toList
  nonce : '\n' ∉ req.nonce.toList

/-- The bytes of the body; those of `{}` where none was read. -/
def Request.bodyBytes (req : Request) : Buffer := req.rawBody.getD (bufferOf "{}")

/-- The requests agree in what `idempotency` compares. -/
structure EqualHashed (req req' : Request) : Prop where
  method : req.upperMethod = req'.upperMethod
  path : req.path = req'.path
  body : req.bodyBytes = req'.bodyBytes

/-- The requests agree in what is signed. -/
structure EqualSigned (req req' : Request) : Prop extends EqualHashed req req' where
  timestamp : req.timestamp = req'.timestamp
  nonce : req.nonce = req'.nonce

/-- A signature verifies one message. -/
def Platform.Binds (p : Platform) : Prop :=
  ∀ key data data' sig, p.verify key data sig = .ok true → p.verify key data' sig = .ok true →
    data = data'

section

variable {p : Platform} {req req' : Request}

/-- `JSON.stringify(req.body ?? {})` is for bodies that were not read. -/
theorem hashedBody_eq (hempty : p.stringify (.obj []) = "{}") (req : Request) :
    p.hashedBody req = req.bodyBytes := by
  unfold Platform.hashedBody Request.bodyBytes
  cases hraw : req.rawBody with
  | some buf => rfl
  | none =>
      have hbody : req.body = none := by
        by_contra hsome
        have := req.rawBody_of_body (Option.isSome_iff_ne_none.mpr hsome)
        rw [hraw] at this
        cases this
      rw [hbody]
      exact congrArg bufferOf hempty

theorem body_of_digest (hash : Function.Injective p.sha256Hex)
    (hempty : p.stringify (.obj []) = "{}") (h : p.bodyHash req = p.bodyHash req') :
    req.bodyBytes = req'.bodyBytes := by
  have hbytes : p.hashedBody req = p.hashedBody req' := hash h
  rwa [hashedBody_eq hempty, hashedBody_eq hempty] at hbytes

theorem upperMethod_line (req : Request) : '\n' ∉ req.upperMethod.toList := by
  rw [req.upperMethod_eq]
  exact fun hm => (req.method_known _ hm).2 rfl

def signedLines (p : Platform) (req : Request) : List (List Char) :=
  [req.upperMethod.toList, req.path.toList, req.timestamp.toList, req.nonce.toList,
    (p.bodyHash req).toList]

theorem signedPayload_lines (p : Platform) (req : Request) :
    p.signedPayload req = bufferOf (String.ofList (['\n'].intercalate (signedLines p req))) := by
  have htext : ['\n'].intercalate (signedLines p req) = (req.upperMethod ++ "\n" ++ req.path ++ "\n" ++
      req.timestamp ++ "\n" ++ req.nonce ++ "\n" ++ p.bodyHash req).toList := by
    simp only [signedLines, List.intercalate_cons_cons, List.intercalate_singleton,
      String.toList_append, List.append_assoc]
    rfl
  rw [htext, String.ofList_toList]
  rfl

theorem signedPayload_inj (hash : Function.Injective p.sha256Hex)
    (hempty : p.stringify (.obj []) = "{}") (hline : req.OneLine) (hline' : req'.OneLine)
    (h : p.signedPayload req = p.signedPayload req') : EqualSigned req req' := by
  have line {req : Request} (hline : req.OneLine) : ∀ a ∈ signedLines p req, '\n' ∉ a := by
    simp only [signedLines, List.mem_cons, List.not_mem_nil, or_false]
    rintro a (rfl | rfl | rfl | rfl | rfl)
    · exact upperMethod_line req
    · exact hline.path
    · exact hline.timestamp
    · exact hline.nonce
    · exact p.sha256Hex_line _
  rw [signedPayload_lines, signedPayload_lines] at h
  have hlines := intercalate_inj (by simp [signedLines]) (by simp [signedLines]) (line hline)
    (line hline') (String.ofList_injective (bufferOf_inj h))
  simp only [signedLines, List.cons.injEq, String.toList_inj, and_true] at hlines
  obtain ⟨hmethod, hpath, htimestamp, hnonce, hdigest⟩ := hlines
  exact ⟨⟨hmethod, hpath, body_of_digest hash hempty hdigest⟩, htimestamp, hnonce⟩

end

/-- **Signed and hashed strings are unambiguous.** -/
theorem signed_strings_unambiguous (p : Platform) (hash : Function.Injective p.sha256Hex)
    (hempty : p.stringify (.obj []) = "{}") (req req' : Request) (hline : req.OneLine)
    (hline' : req'.OneLine) :
    (p.signedPayload req = p.signedPayload req' → EqualSigned req req') ∧
    (p.requestHash req = p.requestHash req' → EqualHashed req req') ∧
    (p.Binds → ∀ key sig, p.verify key (p.signedPayload req) sig = .ok true →
      p.verify key (p.signedPayload req') sig = .ok true → EqualSigned req req') := by
  refine ⟨signedPayload_inj hash hempty hline hline', fun h => ?_, fun hbinds key sig h h' => ?_⟩
  · obtain ⟨hmethod, hpath, hdigest⟩ := requestHash_inj hash h
    refine ⟨?_, hpath, body_of_digest hash hempty hdigest⟩
    rw [req.upperMethod_eq, req'.upperMethod_eq, hmethod]
  · exact signedPayload_inj hash hempty hline hline' (hbinds key _ _ sig h h')

theorem smokeRequest_oneLine : smokeRequest.OneLine :=
  ⟨by decide +kernel, by decide +kernel, by decide +kernel⟩

theorem taskRequest_oneLine : (taskRequest "5" "n").OneLine :=
  ⟨by decide +kernel, by decide +kernel, by decide +kernel⟩

theorem smoke_signature_no_task :
    echoPlatform.verify smokeKey (echoPlatform.signedPayload smokeRequest)
      (bufferOf smokeRequest.signature) = .ok true ∧
    echoPlatform.verify smokeKey (echoPlatform.signedPayload (taskRequest "5" "n"))
      (bufferOf smokeRequest.signature) ≠ .ok true := by
  have hbinds : echoPlatform.Binds := fun _ _ _ _ h h' => by
    have heq := of_decide_eq_true (Except.ok.inj h)
    have heq' := of_decide_eq_true (Except.ok.inj h')
    exact heq.trans heq'.symm
  have hsigned : echoPlatform.verify smokeKey (echoPlatform.signedPayload smokeRequest)
      (bufferOf smokeRequest.signature) = .ok true := by decide +kernel
  refine ⟨hsigned, fun htask => ?_⟩
  have hsame := (signed_strings_unambiguous echoPlatform echoPlatform_inj rfl smokeRequest
    (taskRequest "5" "n") smokeRequest_oneLine taskRequest_oneLine).2.2 hbinds smokeKey _ hsigned htask
  exact absurd hsame.path (by decide +kernel)

end TrustGate.Api
