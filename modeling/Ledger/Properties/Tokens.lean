import Ledger.Api.RequestContext

/-! # Session Tokens

    A token is a tenant and its signature.  The signature is compared by a
    primitive that takes ASCII only, and the header is whatever a client sent.

    * **Soundness**: `Signed`, what a verified header is; `verified_iff`.
    * **Totality**: `Incomparable`, the headers whose signature reaches the
      comparison and does not fit it; `raises_iff`.
    * **Result**: `token_verification_iff`, over both.
-/

namespace Ledger

/-- The header is the tenant's token. -/
def Signed (hmac : Hmac) (authSecret tenant : String) (header : Option String) : Prop :=
  tenant ≠ "" ∧ authSecret ≠ "" ∧
    header = some ("Bearer " ++ (tenant ++ "." ++ hmac.hexdigest authSecret tenant))

/-- The header has a tenant and, after the first dot, a signature that is not
    ASCII, and the service has a secret to check it with. -/
def Incomparable (authSecret : String) (header : Option String) : Prop :=
  authSecret ≠ "" ∧ ∃ tenant sig, header = some ("Bearer " ++ (tenant ++ "." ++ sig)) ∧
    tenant ≠ "" ∧ '.' ∉ tenant.toList ∧ Text.isascii sig = false

/-- Verification returns nothing, or the tenant whose token the header is. -/
def Verifies (hmac : Hmac) (authSecret : String) (header : Option String) : Prop :=
  ∃ r, verifyTenant hmac authSecret header = .ok r ∧
    ∀ tenant, r = some tenant → Signed hmac authSecret tenant header

section tokens

variable {hmac : Hmac} {authSecret : String} {header : Option String} {tenant sig : String}

/-- A hexadecimal digest is ASCII. -/
theorem isascii_hexdigest (secret message : String) :
    Text.isascii (hmac.hexdigest secret message) = true := by
  have hall : ("0123456789abcdef".toList.all fun c => decide (c.toNat < 128)) = true := by
    decide +kernel
  have hdigits : ∀ c ∈ "0123456789abcdef".toList, c.toNat < 128 := by
    simpa only [List.all_eq_true, decide_eq_true_eq] using hall
  unfold Text.isascii
  rw [List.all_eq_true]
  intro c hc
  exact decide_eq_true (hdigits c (hmac.hex secret message c hc))

theorem hexdigest_ne_empty (secret message : String) : hmac.hexdigest secret message ≠ "" := by
  intro h
  have hlen := hmac.length_hexdigest secret message
  rw [h] at hlen
  cases hlen

/-- What happens to a header that has the form of a token. -/
theorem verifyTenant_token (hsecret : authSecret ≠ "") (htenant : tenant ≠ "")
    (hdot : '.' ∉ tenant.toList) (hsig : sig ≠ "") :
    verifyTenant hmac authSecret (some ("Bearer " ++ (tenant ++ "." ++ sig))) =
      (compareDigest (hmac.hexdigest authSecret tenant) sig).map fun same =>
        if same then some tenant else none := by
  have hpartition : Text.partition (tenant ++ "." ++ sig) '.' = (tenant, ".", sig) :=
    Text.partition_append sig (by simp) hdot
  have hstart := Text.startswith_append "Bearer " (tenant ++ "." ++ sig)
  have hfull : "Bearer " ++ (tenant ++ "." ++ sig) ≠ "" := by
    intro h
    rw [h] at hstart
    cases hstart
  unfold verifyTenant
  simp only [hfull, hstart, Text.removeprefix_append, hpartition, htenant, hsig, hsecret,
    decide_false, Bool.not_true, Bool.or_false, Bool.false_eq_true, if_false]
  cases compareDigest (hmac.hexdigest authSecret tenant) sig <;> rfl

/-- Any other header is no token. -/
theorem verifyTenant_cases (hmac : Hmac) (authSecret : String) (header : Option String) :
    verifyTenant hmac authSecret header = .ok none ∨
      ∃ tenant sig, header = some ("Bearer " ++ (tenant ++ "." ++ sig)) ∧ authSecret ≠ "" ∧
        tenant ≠ "" ∧ '.' ∉ tenant.toList ∧ sig ≠ "" := by
  cases header with
  | none => exact .inl rfl
  | some header =>
    by_cases hstart : Text.startswith header "Bearer " = true
    · have hheader := Text.append_removeprefix hstart
      have hdot := Text.notMem_partition (Text.removeprefix header "Bearer ") '.'
      have hjoin := Text.partition_join (Text.removeprefix header "Bearer ")
        (show ".".toList = ['.'] by simp)
      unfold verifyTenant
      dsimp only
      generalize Text.removeprefix header "Bearer " = token at hheader hdot hjoin ⊢
      generalize Text.partition token '.' = parts at hdot hjoin ⊢
      by_cases hmissing : (parts.1 = "" || parts.2.2 = "" || authSecret = "") = true
      · left
        simp only [hmissing, if_true, ite_self]
      · -- the three parts are there, and make up the header
        right
        simp only [Bool.or_eq_true, decide_eq_true_eq, not_or] at hmissing
        obtain ⟨⟨htenant, hsig⟩, hsecret⟩ := hmissing
        refine ⟨parts.1, parts.2.2, ?_, hsecret, htenant, hdot, hsig⟩
        rw [← hheader, ← hjoin hsig]
    · left
      unfold verifyTenant
      simp [hstart]

/-- **Soundness and completeness**: a tenant is verified exactly by its token. -/
theorem verified_iff : verifyTenant hmac authSecret header = .ok (some tenant) ↔
    Signed hmac authSecret tenant header ∧ '.' ∉ tenant.toList := by
  constructor
  · intro h
    rcases verifyTenant_cases hmac authSecret header with hnone |
      ⟨t, sig, rfl, hsecret, htenant, hdot, hsig⟩
    · rw [hnone] at h
      cases h
    · rw [verifyTenant_token hsecret htenant hdot hsig] at h
      unfold compareDigest at h
      split at h
      · by_cases hsame : hmac.hexdigest authSecret t = sig
        · simp only [Except.map, hsame, decide_true, if_true, Except.ok.injEq,
            Option.some.injEq] at h
          subst h
          exact ⟨⟨htenant, hsecret, by rw [hsame]⟩, hdot⟩
        · simp [Except.map, hsame] at h
      · cases h
  · rintro ⟨⟨htenant, hsecret, rfl⟩, hdot⟩
    rw [verifyTenant_token hsecret htenant hdot (hexdigest_ne_empty _ _)]
    simp [compareDigest, isascii_hexdigest, Except.map]

/-- **Totality** fails exactly on a signature that is not ASCII. -/
theorem raises_iff (hmac : Hmac) : (∃ e, verifyTenant hmac authSecret header = .error e) ↔
    Incomparable authSecret header := by
  constructor
  · rintro ⟨e, h⟩
    rcases verifyTenant_cases hmac authSecret header with hnone |
      ⟨t, sig, rfl, hsecret, htenant, hdot, hsig⟩
    · rw [hnone] at h
      cases h
    · refine ⟨hsecret, t, sig, rfl, htenant, hdot, ?_⟩
      rw [verifyTenant_token hsecret htenant hdot hsig] at h
      unfold compareDigest at h
      split at h
      · cases h
      · rename_i hascii
        simpa [isascii_hexdigest] using hascii
  · rintro ⟨hsecret, t, sig, rfl, htenant, hdot, hascii⟩
    have hsig : sig ≠ "" := by
      rintro rfl
      cases hascii
    rw [verifyTenant_token hsecret htenant hdot hsig]
    simp [compareDigest, hascii, Except.map]

/-- **Token verification** returns nothing or the tenant whose token the header
    is, and no request ends in a server error for it, unless the header has a
    signature that cannot be compared. -/
theorem token_verification_iff (hmac : Hmac) (authSecret : String) (header : Option String) :
    (Verifies hmac authSecret header ↔ ¬ Incomparable authSecret header) ∧
      ∀ isPublic, (∃ e, answered hmac authSecret isPublic header = .serverError e) ↔
        Incomparable authSecret header := by
  constructor
  · rw [← raises_iff hmac]
    constructor
    · rintro ⟨r, hr, -⟩ ⟨e, he⟩
      rw [hr] at he
      cases he
    · intro hno
      cases hr : verifyTenant hmac authSecret header with
      | error e => exact absurd ⟨e, hr⟩ hno
      | ok r =>
        refine ⟨r, hr, fun tenant htenant => ?_⟩
        subst htenant
        exact (verified_iff.mp hr).1
  · intro isPublic
    rw [← raises_iff hmac]
    unfold answered
    cases verifyTenant hmac authSecret header with
    | error e => simp
    | ok r =>
      cases isPublic with
      | true => simp
      | false =>
        unfold currentTenant
        cases r with
        | none => simp
        | some t => by_cases ht : t = "" <;> simp [ht]

end tokens

/-- The digest of the sample tenant under the sample secret. -/
def sampleDigest : String := "14d787460c7d2f49521a6586440c1f179518f4c70577088f814f1508cfac6591"

theorem length_sampleDigest : sampleDigest.toList.length = 64 := by decide +kernel

theorem hex_sampleDigest : ∀ c ∈ sampleDigest.toList, c ∈ "0123456789abcdef".toList := by
  have hall : (sampleDigest.toList.all fun c => "0123456789abcdef".toList.contains c) = true := by
    decide +kernel
  simpa only [List.all_eq_true, List.contains_iff_mem] using hall

theorem hex_zero : '0' ∈ "0123456789abcdef".toList := by decide +kernel

/-- A digest that is exact on the sample secret and tenant. -/
def sampleHmac : Hmac where
  hexdigest secret message :=
    if secret = "test-secret" ∧ message = "acme" then sampleDigest
    else String.ofList (List.replicate 64 '0')
  length_hexdigest secret message := by
    split
    · exact length_sampleDigest
    · simp
  hex secret message := by
    split
    · exact hex_sampleDigest
    · intro c hc
      rw [String.toList_ofList] at hc
      exact List.eq_of_mem_replicate hc ▸ hex_zero

/-- The sample tenant's token, with an accent for the signature. -/
theorem token_raises : ¬ ∀ hmac authSecret header, Verifies hmac authSecret header := by
  intro hall
  obtain ⟨r, hr, -⟩ := hall sampleHmac "test-secret" (some "Bearer acme.é")
  have hraise : (verifyTenant sampleHmac "test-secret" (some "Bearer acme.é")).isOk = false := by
    decide +kernel
  rw [hr] at hraise
  cases hraise

end Ledger
