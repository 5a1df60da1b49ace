import Intellibiz.Delimited
import Intellibiz.HexPairs
import Intellibiz.Db.Template

/-!
# License keys of the native addon

Model of `generate_license_key` / `verify_license_key` of `crates/crypto/src/lib.rs` and of the
fallback for them in `packages/core/src/native/bridge.ts`.  SHA-256 is a parameter.

* `generateLicenseKey` / `verifyLicenseKey` — the functions of the addon.
* `Fallback.cryptoGenerateLicense` / `Fallback.cryptoVerifyLicense` — those of the fallback.
* `Shifted` — text moved between tenant and plan, across a colon.

Principal results: `cryptoGenerateLicense_eq` (both make the same keys), `generateLicenseKey_inj`
and `license_fits_iff`.
-/

namespace Intellibiz.Core

open HexPairs
open Db (Text toUpperCase upperChar)

structure Sha256 where
  hex : String → String
  hex_digest : ∀ input, LowerHex 64 (hex input)

/-- `{tenant_id}:{plan}:{secret}` -/
def licensePayload (tenantId plan secret : Text) : Text := tenantId ++ ':' :: (plan ++ ':' :: secret)

/-- The first 16 digits of the digest. -/
def Sha256.truncated (S : Sha256) (payload : Text) : Text :=
  (S.hex (String.ofList payload)).toList.take 16

/-- `chunks(4)` -/
def chunks : Text → List Text
  | a :: b :: c :: d :: rest => [a, b, c, d] :: chunks rest
  | [] => []
  | short => [short]

def generateLicenseKey (S : Sha256) (tenantId plan secret : Text) : Text :=
  ['-'].intercalate ((chunks (S.truncated (licensePayload tenantId plan secret))).map toUpperCase)

def verifyLicenseKey (S : Sha256) (tenantId plan secret key : Text) : Bool :=
  generateLicenseKey S tenantId plan secret == key

/-- The characters that a `.` does not match. -/
def isLineTerminator (c : Char) : Bool := c ∈ ['\n', '\r', '\u2028', '\u2029']

/-- `match(/.{4}/g)` -/
def matchFours : Text → List Text
  | a :: b :: c :: d :: rest =>
    if [a, b, c, d].any isLineTerminator then matchFours (b :: c :: d :: rest)
    else [a, b, c, d] :: matchFours rest
  | _ => []

def Fallback.cryptoGenerateLicense (S : Sha256) (tenantId plan secret : Text) : Text :=
  ['-'].intercalate
    (matchFours (toUpperCase (S.truncated (licensePayload tenantId plan secret))))

def Fallback.cryptoVerifyLicense (S : Sha256) (tenantId plan secret key : Text) : Bool :=
  Fallback.cryptoGenerateLicense S tenantId plan secret == key

/-! ## Groups of four -/

theorem flatten_chunks (s : Text) : (chunks s).flatten = s := by
  induction s using chunks.induct with
  | case1 a b c d rest ih => rw [chunks, List.flatten_cons, ih]; rfl
  | case2 => rfl
  | case3 short hlong hnil => rw [chunks, List.flatten_singleton] <;> assumption

/-- Four characters at a time: the groups of the addon are the matches of the fallback. -/
theorem matchFours_eq {s : Text} (hlength : s.length % 4 = 0)
    (h : ∀ c ∈ s, isLineTerminator c = false) : matchFours s = chunks s := by
  induction s using chunks.induct with
  | case1 a b c d rest ih =>
    simp only [List.forall_mem_cons] at h
    obtain ⟨ha, hb, hc, hd, hrest⟩ := h
    have hlength' : rest.length % 4 = 0 := by
      simp only [List.length_cons] at hlength
      omega
    rw [matchFours, if_neg (by simp [ha, hb, hc, hd]), chunks, ih hlength' hrest]
  | case2 => rfl
  | case3 short hlong hnil =>
    match short, hlong, hnil with
    | [], _, hnil => exact absurd rfl hnil
    | [a], _, _ => simp at hlength
    | [a, b], _, _ => simp at hlength
    | [a, b, c], _, _ => simp at hlength
    | a :: b :: c :: d :: rest, hlong, _ => exact absurd rfl (hlong a b c d rest)

theorem chunks_map (f : Char → Char) (s : Text) : chunks (s.map f) = (chunks s).map (·.map f) := by
  induction s using chunks.induct with
  | case1 a b c d rest ih => exact congrArg ([a, b, c, d].map f :: ·) ih
  | case2 => rfl
  | case3 short hlong hnil =>
    match short, hlong, hnil with
    | [], _, hnil => exact absurd rfl hnil
    | [a], _, _ => rfl
    | [a, b], _, _ => rfl
    | [a, b, c], _, _ => rfl
    | a :: b :: c :: d :: rest, hlong, _ => exact absurd rfl (hlong a b c d rest)

/-! ## Keys -/

/-- The upper case of a digit. -/
theorem upper_digit {c : Char} (h : c ∈ digits) :
    upperChar c = [c.toUpper] ∧ c.toUpper.toLower = c ∧ c.toUpper ≠ '-' ∧
      isLineTerminator c.toUpper = false := by
  simp only [digits, List.mem_cons, List.not_mem_nil, or_false] at h
  rcases h with rfl | rfl | rfl | rfl | rfl | rfl | rfl | rfl | rfl | rfl | rfl | rfl | rfl | rfl |
    rfl | rfl <;> exact ⟨rfl, rfl, by decide, rfl⟩

theorem toUpperCase_digits {s : Text} (h : ∀ c ∈ s, c ∈ digits) :
    toUpperCase s = s.map Char.toUpper := by
  rw [toUpperCase, List.flatMap_congr fun c hc => (upper_digit (h c hc)).1]
  exact List.flatMap_pure_eq_map _ s

theorem truncated_spec (S : Sha256) (payload : Text) :
    (S.truncated payload).length = 16 ∧ ∀ c ∈ S.truncated payload, c ∈ digits := by
  have hdigest := S.hex_digest (String.ofList payload)
  constructor
  · rw [Sha256.truncated, List.length_take, hdigest.1]
    rfl
  · exact fun c hc => hdigest.2 c (List.mem_of_mem_take hc)

theorem generateLicenseKey_eq (S : Sha256) (tenantId plan secret : Text) :
    generateLicenseKey S tenantId plan secret = ['-'].intercalate
      (chunks ((S.truncated (licensePayload tenantId plan secret)).map Char.toUpper)) := by
  have hdigits := (truncated_spec S (licensePayload tenantId plan secret)).2
  rw [generateLicenseKey, chunks_map]
  refine congrArg _ (List.map_congr_left fun group hgroup => toUpperCase_digits fun c hc => ?_)
  refine hdigits c ?_
  rw [← flatten_chunks (S.truncated _)]
  exact List.mem_flatten_of_mem hgroup hc

/-- **The fallback makes the same keys.** -/
theorem cryptoGenerateLicense_eq (S : Sha256) (tenantId plan secret : Text) :
    Fallback.cryptoGenerateLicense S tenantId plan secret =
      generateLicenseKey S tenantId plan secret := by
  obtain ⟨hlength, hdigits⟩ := truncated_spec S (licensePayload tenantId plan secret)
  rw [generateLicenseKey_eq, Fallback.cryptoGenerateLicense, toUpperCase_digits hdigits,
    matchFours_eq]
  · rw [List.length_map, hlength]
  · intro c hc
    obtain ⟨d, hd, rfl⟩ := List.mem_map.1 hc
    exact (upper_digit (hdigits d hd)).2.2.2

/-- **A key shows the truncated digest.** -/
theorem generateLicenseKey_inj {S : Sha256} {t p s t' p' s' : Text} :
    generateLicenseKey S t p s = generateLicenseKey S t' p' s' ↔
      S.truncated (licensePayload t p s) = S.truncated (licensePayload t' p' s') := by
  constructor
  · intro h
    have hread : ∀ payload : Text, ((['-'].intercalate
        (chunks ((S.truncated payload).map Char.toUpper))).filter (· ≠ '-')).map Char.toLower =
          S.truncated payload := by
      intro payload
      have hdigits := (truncated_spec S payload).2
      rw [Delimited.filter_intercalate, flatten_chunks, List.map_map]
      · exact (List.map_congr_left fun c hc => (upper_digit (hdigits c hc)).2.1).trans
          (List.map_id' _)
      · intro group hgroup hdash
        have hmem := List.mem_flatten_of_mem hgroup hdash
        rw [flatten_chunks] at hmem
        obtain ⟨c, hc, hupper⟩ := List.mem_map.1 hmem
        exact (upper_digit (hdigits c hc)).2.2.1 hupper
    rw [← hread, ← hread (licensePayload t' p' s'), ← generateLicenseKey_eq, h,
      generateLicenseKey_eq]
  · intro h
    rw [generateLicenseKey, generateLicenseKey, h]

/-! ## Tenant and plan -/

/-- The truncated digest has no collision on two payloads. -/
def Sha256.NoCollision (S : Sha256) (payload payload' : Text) : Prop :=
  S.truncated payload = S.truncated payload' → payload = payload'

instance (S : Sha256) (payload payload' : Text) : Decidable (S.NoCollision payload payload') :=
  inferInstanceAs (Decidable (_ → _))

/-- What stands before a colon of the plan is moved behind the tenant. -/
def Shifted (t p t' p' : Text) : Prop := ∃ moved, t' = t ++ ':' :: moved ∧ p = moved ++ ':' :: p'

theorem Shifted.ne {t p t' p' : Text} (h : Shifted t p t' p') : ¬ (t' = t ∧ p' = p) := by
  obtain ⟨moved, rfl, rfl⟩ := h
  intro heq
  simpa using heq.1

/-- Nothing is moved behind a tenant without a colon. -/
theorem not_shifted_of_no_colon {t p t' p' : Text} (h : ':' ∉ t') : ¬ Shifted t p t' p' := by
  rintro ⟨moved, rfl, -⟩
  simp at h

/-- The payloads of two tenants and plans. -/
theorem licensePayload_eq_iff {t p t' p' secret : Text} :
    licensePayload t p secret = licensePayload t' p' secret ↔
      (t' = t ∧ p' = p) ∨ Shifted t p t' p' ∨ Shifted t' p' t p := by
  have hpayload : ∀ t p : Text, licensePayload t p secret = (t ++ ':' :: p) ++ ':' :: secret := by
    intro t p
    rw [licensePayload, List.append_assoc, List.cons_append]
  rw [hpayload, hpayload, List.append_cancel_right_eq, Delimited.append_cons_eq_iff,
    eq_comm (a := t'), eq_comm (a := p')]
  rfl

theorem verifyLicenseKey_eq_true {S : Sha256} {t p t' p' secret : Text}
    (h : S.NoCollision (licensePayload t p secret) (licensePayload t' p' secret)) :
    verifyLicenseKey S t' p' secret (generateLicenseKey S t p secret) = true ↔
      (t' = t ∧ p' = p) ∨ Shifted t p t' p' ∨ Shifted t' p' t p := by
  rw [verifyLicenseKey, beq_iff_eq, generateLicenseKey_inj, ← licensePayload_eq_iff]
  constructor
  · exact fun heq => h heq.symm
  · intro heq
    rw [heq]

/-- **A key fits only its tenant and plan** unless text is moved between the two. -/
theorem license_fits_iff (S : Sha256) (t p t' p' secret : Text)
    (h : S.NoCollision (licensePayload t p secret) (licensePayload t' p' secret)) :
    ((verifyLicenseKey S t' p' secret (generateLicenseKey S t p secret) = true ↔
        t' = t ∧ p' = p) ↔ ¬ Shifted t p t' p' ∧ ¬ Shifted t' p' t p) ∧
      ((Fallback.cryptoVerifyLicense S t' p' secret
          (Fallback.cryptoGenerateLicense S t p secret) = true ↔ t' = t ∧ p' = p) ↔
        ¬ Shifted t p t' p' ∧ ¬ Shifted t' p' t p) := by
  have hnative : (verifyLicenseKey S t' p' secret (generateLicenseKey S t p secret) = true ↔
      t' = t ∧ p' = p) ↔ ¬ Shifted t p t' p' ∧ ¬ Shifted t' p' t p := by
    rw [verifyLicenseKey_eq_true h]
    constructor
    · intro hiff
      constructor
      · exact fun hshifted => hshifted.ne (hiff.1 (.inr (.inl hshifted)))
      · intro hshifted
        obtain ⟨ht, hp⟩ := hiff.1 (.inr (.inr hshifted))
        exact hshifted.ne ⟨ht.symm, hp.symm⟩
    · rintro ⟨hnot, hnot'⟩
      constructor
      · rintro (heq | hshifted | hshifted)
        · exact heq
        · exact absurd hshifted hnot
        · exact absurd hshifted hnot'
      · exact .inl
  refine ⟨hnative, ?_⟩
  rw [Fallback.cryptoVerifyLicense, cryptoGenerateLicense_eq, cryptoGenerateLicense_eq]
  exact hnative

/-- Digests of sample payloads. -/
def sampleSha256 : Sha256 where
  hex := recorded 64
    [("org_123:pro:secret", "a7ff1aaef82ad1503ec5270c3f8967451852dd77653722906b19110a9df732d4"),
      ("org_456:pro:secret", "fdf5e04e1b748e78d56ce812058722e95be79dbe4d317f4340725368476ca5dd"),
      ("a:b:c:secret", "402935fe574698a16f2a9eea1e1c5ae7ac9211c4c3c36d4ff48252299b697ff9")]
  hex_digest := lowerHex_recorded (by decide +kernel)

theorem license_fits_one_tenant :
    verifyLicenseKey sampleSha256 "org_456".toList "pro".toList "secret".toList
        (generateLicenseKey sampleSha256 "org_123".toList "pro".toList "secret".toList) = true ↔
      "org_456".toList = "org_123".toList ∧ "pro".toList = "pro".toList :=
  (license_fits_iff sampleSha256 "org_123".toList "pro".toList "org_456".toList "pro".toList
    "secret".toList (by decide)).1.2
    ⟨not_shifted_of_no_colon (by decide), not_shifted_of_no_colon (by decide)⟩

/-- **The key of tenant `a:b` with plan `c`** fits tenant `a` with plan `b:c`. -/
theorem shifted_license_fits :
    sampleSha256.NoCollision (licensePayload "a:b".toList "c".toList "secret".toList)
        (licensePayload "a".toList "b:c".toList "secret".toList) ∧
      (verifyLicenseKey sampleSha256 "a".toList "b:c".toList "secret".toList
          (generateLicenseKey sampleSha256 "a:b".toList "c".toList "secret".toList) = true ∧
        Fallback.cryptoVerifyLicense sampleSha256 "a".toList "b:c".toList "secret".toList
          (Fallback.cryptoGenerateLicense sampleSha256 "a:b".toList "c".toList "secret".toList) =
            true) ∧
      ¬ ("a".toList = "a:b".toList ∧ "b:c".toList = "c".toList) := by
  decide

end Intellibiz.Core
