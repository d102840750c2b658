import Ledger.Framework.Text

/-! # The Request Context

    How a request gets its tenant (`api/middleware/request_context.py` and
    `api/deps.py`).

    * **Digest**: `Hmac`, the keyed digest, and the comparison of digests.
    * **Middleware**: `verifyTenant` and `dispatch`.
    * **Dependency**: `currentTenant`, and `answered`, how a request ends
      before its handler runs.
-/

namespace Ledger

/-! ## Digests -/

/-- HMAC-SHA256 as `hexdigest` gives it: a function of the secret and of the
    message to 64 lower-case hexadecimal digits. -/
structure Hmac where
  hexdigest : String → String → String
  length_hexdigest : ∀ secret message, (hexdigest secret message).toList.length = 64
  hex : ∀ secret message, ∀ c ∈ (hexdigest secret message).toList,
    c ∈ "0123456789abcdef".toList

/-- `TypeError`. -/
structure TypeError where
  msg : String
  deriving DecidableEq

/-- `hmac.compare_digest` of two strings. -/
def compareDigest (a b : String) : Except TypeError Bool :=
  if Text.isascii a && Text.isascii b then .ok (a = b)
  else .error ⟨"comparing strings with non-ASCII characters is not supported"⟩

/-! ## Middleware -/

/-- Verify a `Bearer <tenant>.<sig>` token; return tenant or `none`. -/
def verifyTenant (hmac : Hmac) (authSecret : String) (authHeader : Option String) :
    Except TypeError (Option String) :=
  match authHeader with
  | none => .ok none
  | some header =>
    if header = "" || !Text.startswith header "Bearer " then .ok none
    else
      let token := Text.removeprefix header "Bearer "
      let tenant := (Text.partition token '.').1
      let sig := (Text.partition token '.').2.2
      if tenant = "" || sig = "" || authSecret = "" then .ok none
      else
        let expected := hmac.hexdigest authSecret tenant
        do
          let same ← compareDigest expected sig
          return if same then some tenant else none

/-- How a request ends, or goes on, before its handler runs. -/
inductive Answered where
  /-- The handler runs, for the tenant it acts for, if its route asks for one. -/
  | handled (tenantId : Option String)
  | httpException (statusCode : Nat) (detail : String)
  /-- An exception of the middleware. -/
  | serverError (e : TypeError)
  deriving DecidableEq

/-- Return the tenant id resolved by the request-context middleware. -/
def currentTenant (tenantId : Option String) : Answered :=
  match tenantId with
  | none => .httpException 401 "No tenant in context"
  | some t => if t = "" then .httpException 401 "No tenant in context" else .handled (some t)

/-- A request to a route, which may be public. -/
def answered (hmac : Hmac) (authSecret : String) (isPublic : Bool) (authHeader : Option String) :
    Answered :=
  match verifyTenant hmac authSecret authHeader with
  | .error e => .serverError e
  | .ok tenantId => if isPublic then .handled none else currentTenant tenantId

end Ledger
