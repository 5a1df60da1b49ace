import Intellibiz.Commerce.Signature
import Intellibiz.Db.Placeholder
import Intellibiz.JsNumber

/-!
# Stripe signatures

Model of `verifyWebhookSignature` of `packages/commerce/src/providers/stripe.ts`.  The clock is an
argument, in milliseconds; `webhookToleranceSeconds` is any number of JavaScript.

* `seconds` / `age` — the numbers that the code computes from the clock and a timestamp.
* `Fresh` — what is asked of a timestamp.
* `verifyWebhookSignature` — the check of a notification.

Principal results: `age_of_digits` (no rounding for timestamps in whole seconds),
`verifyWebhookSignature_eq_true` and `acceptance_iff`.
-/

namespace Intellibiz.Commerce.StripeProvider

open HexPairs Extended JsNumber HeaderPart
open Db (Text trim)

structure StripeConfig where
  webhookSecret : Option Text
  webhookToleranceSeconds : Option Extended

/-- `webhookToleranceSeconds ?? 300` -/
def StripeConfig.tolerance (config : StripeConfig) : Extended :=
  config.webhookToleranceSeconds.getD (finite 300)

/-- `Number(timestamp)` -/
def signedAt (timestamp : Text) : Extended := ofText (trim timestamp)

/-- `Math.floor(Date.now() / 1000)` -/
def seconds (now : ℤ) : Extended :=
  (binary64.div (finite now) (finite 1000)).map fun q => (⌊q⌋ : ℤ)

/-- `Math.abs(Math.floor(Date.now() / 1000) - signedAt)` -/
def age (now : ℤ) (signedAt : Extended) : Extended := (binary64.sub (seconds now) signedAt).abs

/-- The timestamp is no number, or too old. -/
def rejectsTime (tolerance : Extended) (now : ℤ) (timestamp : Text) : Bool :=
  if finite 0 < tolerance then
    match signedAt timestamp with
    | finite q => tolerance < age now (finite q)
    | _ => true
  else false

def verifyWebhookSignature (crypto : NodeCrypto) (config : StripeConfig) (now : ℤ)
    (body signature : Text) : Bool :=
  match config.webhookSecret with
  | none => false
  | some secret =>
    if secret = [] ∨ signature = [] then false
    else
      let parsed := parseStripeSignatureHeader signature
      match parsed.timestamp with
      | none => false
      | some timestamp =>
        if parsed.signatures = [] then false
        else if rejectsTime config.tolerance now timestamp then false
        else
          let expected := crypto.hmacSha256Hex (String.ofList secret)
            (String.ofList (timestamp ++ '.' :: body))
          parsed.signatures.any fun candidate =>
            timingSafeEqualHex (String.ofList candidate) expected

/-! ## Time -/

/-- Numeric, and within the tolerance, when there is one. -/
def Fresh (tolerance : Extended) (now : ℤ) (timestamp : Text) : Prop :=
  finite 0 < tolerance →
    ∃ q, signedAt timestamp = finite q ∧ age now (finite q) ≤ tolerance

theorem age_ne_nan (now : ℤ) (q : ℚ) : age now (finite q) ≠ nan := by
  unfold age seconds
  rw [Format.div_result (by norm_num), Format.result]
  split
  · exact Extended.noConfusion
  · have hne := Format.result_ne_nan (F := binary64)
      ((⌊binary64.round ((now : ℚ) / 1000)⌋ : ℤ) + -q)
    show (binary64.result _).abs ≠ nan
    cases hresult : binary64.result ((⌊binary64.round ((now : ℚ) / 1000)⌋ : ℤ) + -q) with
    | nan => exact absurd hresult hne
    | finite p => exact Extended.noConfusion
    | infinity negative => exact Extended.noConfusion

theorem rejectsTime_eq_false {tolerance : Extended} {now : ℤ} {timestamp : Text} :
    rejectsTime tolerance now timestamp = false ↔ Fresh tolerance now timestamp := by
  unfold rejectsTime Fresh
  split
  · rename_i hpositive
    have htolerance : tolerance ≠ nan := by
      rintro rfl
      exact hpositive
    cases signedAt timestamp with
    | finite q =>
      rw [decide_eq_false_iff_not, not_lt_iff_le (age_ne_nan now q) htolerance]
      simp [hpositive]
    | infinity negative => simp [hpositive]
    | nan => simp [hpositive]
  · rename_i hpositive
    simp [hpositive]

/-- The clock in whole seconds. -/
theorem seconds_eq {now : ℤ} (h0 : 0 ≤ now) (h : now < 2 ^ 53) :
    seconds now = finite ((now / 1000 : ℤ) : ℚ) := by
  have hfits := binary64_fits_div h0 h (by norm_num : (0 : ℤ) < 1000) (by norm_num)
  have hfloor := floor_round_div h0 h (by norm_num : (0 : ℤ) < 1000) (by norm_num)
  rw [Int.cast_ofNat] at hfits hfloor
  rw [seconds, Format.div_finite (by norm_num) hfits, map_finite, hfloor]

theorem signedAt_digits {timestamp : Text} (hne : timestamp ≠ [])
    (h : ∀ c ∈ timestamp, c.isDigit = true) (hsmall : Numeral.natural timestamp ≤ 2 ^ 53) :
    signedAt timestamp = finite (Numeral.natural timestamp : ℤ) := by
  have hspace : ∀ c ∈ timestamp, Db.isJsSpace c = false := by
    intro c hc
    by_contra hspace
    rw [Bool.not_eq_false] at hspace
    have hdigit := (Db.space_spec hspace).2
    rw [h c hc] at hdigit
    cases hdigit
  have htrimmed : Trimmed timestamp :=
    ⟨fun c hc => hspace c (List.mem_of_mem_head? hc),
      fun c hc => hspace c (List.mem_of_mem_getLast? hc)⟩
  have hint : |((Numeral.natural timestamp : ℕ) : ℤ)| ≤ 2 ^ 53 := by
    rw [Nat.abs_cast]
    exact_mod_cast hsmall
  rw [signedAt, trim_eq_self htrimmed, ofText_digits hne h, ← binary64_int hint, Int.cast_natCast]

/-- **The age of a timestamp in whole seconds** is exact. -/
theorem age_of_digits {now : ℤ} (h0 : 0 ≤ now) (h : now < 2 ^ 53) {timestamp : Text}
    (hne : timestamp ≠ []) (hdigits : ∀ c ∈ timestamp, c.isDigit = true)
    (hsmall : Numeral.natural timestamp ≤ 2 ^ 53) :
    age now (signedAt timestamp) =
      finite ((|now / 1000 - (Numeral.natural timestamp : ℤ)| : ℤ) : ℚ) := by
  have hdiv : now / 1000 ≤ now := Int.ediv_le_self 1000 h0
  have hdiv0 : 0 ≤ now / 1000 := Int.ediv_nonneg h0 (by norm_num)
  have hle : |now / 1000 - (Numeral.natural timestamp : ℤ)| ≤ 2 ^ 53 := by
    rw [abs_le]
    omega
  have hsub : binary64.sub (finite ((now / 1000 : ℤ) : ℚ))
      (finite ((Numeral.natural timestamp : ℤ) : ℚ)) =
      finite ((now / 1000 - (Numeral.natural timestamp : ℤ) : ℤ) : ℚ) := by
    rw [← binary64_int hle, Int.cast_sub, sub_eq_add_neg]
    rfl
  rw [age, seconds_eq h0 h, signedAt_digits hne hdigits hsmall, hsub, Extended.abs, Int.cast_abs]

/-! ## Acceptance -/

/-- The bytes of the digest that Stripe sends along. -/
def digest (crypto : NodeCrypto) (secret timestamp body : Text) : List UInt8 :=
  bytes (crypto.hmacSha256Hex (String.ofList secret)
    (String.ofList (timestamp ++ '.' :: body))).toList

/-- **Acceptance**, for every header. -/
theorem verifyWebhookSignature_eq_true {crypto : NodeCrypto} {config : StripeConfig} {now : ℤ}
    {body signature : Text} {parsed : ParsedStripeSignature}
    (h : parseStripeSignatureHeader signature = parsed) :
    verifyWebhookSignature crypto config now body signature = true ↔
      ∃ secret, config.webhookSecret = some secret ∧ secret ≠ [] ∧
        ∃ timestamp, parsed.timestamp = some timestamp ∧ Fresh config.tolerance now timestamp ∧
          ∃ candidate ∈ parsed.signatures, bytes candidate = digest crypto secret timestamp body := by
  subst h
  have hempty : signature = [] → (parseStripeSignatureHeader signature).timestamp = none := by
    rintro rfl
    rfl
  unfold verifyWebhookSignature
  cases config.webhookSecret with
  | none => simp
  | some secret =>
    simp only [Option.some.injEq, exists_eq_left']
    by_cases hguard : secret = [] ∨ signature = []
    · rw [if_pos hguard]
      refine iff_of_false Bool.false_ne_true ?_
      rintro ⟨hsecret, timestamp, htimestamp, _⟩
      rcases hguard with hnil | hnil
      · exact hsecret hnil
      · rw [hempty hnil] at htimestamp
        cases htimestamp
    · rw [if_neg hguard]
      rw [not_or] at hguard
      cases (parseStripeSignatureHeader signature).timestamp with
      | none => simp
      | some timestamp =>
        simp only [Option.some.injEq, exists_eq_left', ← rejectsTime_eq_false]
        have hany : (parseStripeSignatureHeader signature).signatures.any (fun candidate =>
            timingSafeEqualHex (String.ofList candidate) (crypto.hmacSha256Hex
              (String.ofList secret) (String.ofList (timestamp ++ '.' :: body)))) = true ↔
            ∃ candidate ∈ (parseStripeSignatureHeader signature).signatures,
              bytes candidate = digest crypto secret timestamp body := by
          have hdigest := crypto.hmacSha256Hex_digest (String.ofList secret)
            (String.ofList (timestamp ++ '.' :: body))
          simp only [List.any_eq_true, timingSafeEqualHex_bytes hdigest (by decide) (by decide),
            String.toList_ofList, digest]
        rw [← hany]
        cases hsigs : (parseStripeSignatureHeader signature).signatures with
        | nil => simp
        | cons candidate rest =>
          rw [if_neg (List.cons_ne_nil candidate rest)]
          cases rejectsTime config.tolerance now timestamp <;> simp [hguard.1]

/-- **A header of keys and values is accepted** if the last timestamp is fresh and some signature
decodes to the digest. -/
theorem acceptance_iff (crypto : NodeCrypto) (config : StripeConfig) (now : ℤ) (body : Text)
    (parts : List HeaderPart) :
    parseStripeSignatureHeader ([','].intercalate (parts.map render)) =
        ⟨(named "t".toList parts).getLast?, named "v1".toList parts⟩ ∧
      (verifyWebhookSignature crypto config now body ([','].intercalate (parts.map render)) = true ↔
        ∃ secret, config.webhookSecret = some secret ∧ secret ≠ [] ∧
          ∃ timestamp, (named "t".toList parts).getLast? = some timestamp ∧
            Fresh config.tolerance now timestamp ∧
            ∃ candidate ∈ named "v1".toList parts,
              bytes candidate = digest crypto secret timestamp body) :=
  ⟨parseStripeSignatureHeader_render parts,
    verifyWebhookSignature_eq_true (parseStripeSignatureHeader_render parts)⟩

/-- The digest of a sample payload under an empty secret. -/
def samples : NodeCrypto := .recorded []
  [(("", "1.{}"), "a07ac7cfc802ea7629f0933ebf00ef447832d56dcdcab022d121f329249e4ac3")]
  (List.forall_mem_nil _) (by decide +kernel)

/-- A part without white space. -/
def plainPart (key value : Text) (hkey : '=' ∉ key ∧ ',' ∉ key)
    (hvalue : value ≠ [] ∧ ',' ∉ value ∧ Trimmed value) : HeaderPart where
  key := key
  value := value
  key_plain := hkey
  value_plain := hvalue
  pads := ([], [], [], [])
  pads_space := by simp

theorem sample_time : ("1".toList ≠ [] ∧ ',' ∉ "1".toList ∧ Trimmed "1".toList) ∧
    '=' ∉ "t".toList ∧ ',' ∉ "t".toList := by
  refine ⟨⟨by decide, by decide, by simp [Trimmed, Db.isJsSpace]⟩, by decide⟩

def sampleDigest : Text :=
  "a07ac7cfc802ea7629f0933ebf00ef447832d56dcdcab022d121f329249e4ac3".toList

theorem sample_signature : (sampleDigest ≠ [] ∧ ',' ∉ sampleDigest ∧ Trimmed sampleDigest) ∧
    '=' ∉ "v1".toList ∧ ',' ∉ "v1".toList :=
  ⟨⟨by decide, by decide, trimmed_digest (n := 64) (by decide)⟩, by decide⟩

/-- `t=1,v1=...`, signed with an empty secret. -/
def sampleHeader : List HeaderPart :=
  [plainPart "t".toList "1".toList sample_time.2 sample_time.1,
    plainPart "v1".toList sampleDigest sample_signature.2 sample_signature.1]

/-- **An empty secret accepts nothing**, be the signature right. -/
theorem empty_secret_rejects :
    (named "t".toList sampleHeader).getLast? = some "1".toList ∧
      Fresh (finite 300) 1000 "1".toList ∧
      (∃ candidate ∈ named "v1".toList sampleHeader,
        bytes candidate = digest samples [] "1".toList "{}".toList) ∧
      verifyWebhookSignature samples ⟨some [], none⟩ 1000 "{}".toList
        ([','].intercalate (sampleHeader.map render)) = false := by
  refine ⟨by decide, ?_, ⟨sampleDigest, by decide, rfl⟩,
    by decide⟩
  intro _
  have hnatural : Numeral.natural "1".toList = 1 := by decide
  have hdigits : ∀ c ∈ "1".toList, c.isDigit = true := by simp
  have hsigned : signedAt "1".toList = finite ((1 : ℤ) : ℚ) := by
    rw [signedAt_digits (by decide) hdigits (by decide), hnatural]
    rfl
  have hage := @age_of_digits 1000 (by norm_num) (by norm_num) "1".toList (by decide) hdigits
    (by decide)
  rw [hsigned, hnatural] at hage
  refine ⟨((1 : ℤ) : ℚ), hsigned, ?_⟩
  rw [hage]
  exact finite_le_finite (by norm_num)

end Intellibiz.Commerce.StripeProvider
