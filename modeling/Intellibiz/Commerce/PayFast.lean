import Intellibiz.Commerce.Providers
import Intellibiz.Commerce.Signature
import Intellibiz.Delimited
import Intellibiz.FormUrlencoded
import Mathlib.Logic.Relation

/-!
# PayFast signatures

Model of the signature check of `packages/commerce/src/providers/payfast.ts`, from the form body
on.

* `encodePayFastValue` — `encodeURIComponent` and the two rewrites of its escapes; `phpUrlencode`
  is what it stands for.
* `urlSearchParams` / `fields` — the posted fields, and those that are signed.
* `signedString` — the fields and the passphrase as they are hashed, under an encoding of values.
* `verifyWebhookSignature` / `readWebhookEvent` — the check of a notification and its event.

Principal results: `encodePayFastValue_eq` and `phpUrlencode_eq` (both encoders character by
character), `verifyWebhookSignature_eq_true`, `signature_binds_fields_iff` and
`php_signatures_accepted_iff`.
-/

namespace Intellibiz.Commerce.PayFastProvider

open HexPairs FormUrlencoded
open Db (Text trim)

/-! ## Encoding -/

/-- The characters that `encodeURIComponent` leaves alone. -/
def unreserved (c : Char) : Bool :=
  c.isAlphanum || c ∈ ['-', '_', '.', '!', '~', '*', '\'', '(', ')']

def encodeURIComponent (value : Text) : Text := value.flatMap (escape unreserved)

/-- `replace(/%20/g, '+')` -/
def replaceSpaces : Text → Text :=
  replaceEscapes fun a b => if a = '2' ∧ b = '0' then some ['+'] else none

/-- `replace(/%[0-9a-f]{2}/gi, match => match.toUpperCase())` -/
def upperEscapes : Text → Text :=
  replaceEscapes fun a b => if IsHex a ∧ IsHex b then some ['%', a.toUpper, b.toUpper] else none

def encodePayFastValue (value : Text) : Text :=
  upperEscapes (replaceSpaces (encodeURIComponent value))

/-- The characters that PHP's `urlencode` leaves alone. -/
def phpKept (c : Char) : Bool := c.isAlphanum || c ∈ ['-', '_', '.']

def phpByte (b : UInt8) : Text :=
  if b.toNat < 128 ∧ phpKept (Char.ofNat b.toNat) then [Char.ofNat b.toNat]
  else if b = 0x20 then ['+']
  else percent b

/-- PHP's `urlencode`, byte by byte. -/
def phpUrlencode (value : Text) : Text := (Utf8.encode value).flatMap phpByte

theorem isAlphanum_ascii {c : Char} (h : c.isAlphanum = true) : c.toNat ≤ 127 := by
  have hvalue : c.toNat = c.val.toNat := rfl
  simp [Char.isAlphanum, Char.isAlpha, Char.isUpper, Char.isLower, Char.isDigit,
    UInt32.le_iff_toNat_le] at h
  omega

theorem phpKept_ascii {c : Char} (h : phpKept c = true) : c.toNat ≤ 127 := by
  simp only [phpKept, Bool.or_eq_true, decide_eq_true_eq, List.mem_cons, List.not_mem_nil,
    or_false] at h
  rcases h with h | rfl | rfl | rfl
  · exact isAlphanum_ascii h
  all_goals decide

theorem unreserved_plain : Plain unreserved := plain_of_not_kept (by simp [unreserved])

theorem phpKept_plain : Plain phpKept := plain_of_not_kept (by simp [phpKept])

/-- Only the escape of a space is replaced. -/
theorem replaceSpaces_escape (c : Char) (rest : Text) :
    replaceSpaces (escape unreserved c ++ rest) = formEscape unreserved c ++ replaceSpaces rest := by
  unfold replaceSpaces formEscape escape
  split
  · rename_i hkeep
    obtain ⟨_, hpercent, _, _, hspace⟩ := unreserved_plain.ne hkeep
    rw [if_neg hspace]
    exact replaceEscapes_cons hpercent _ _
  · rw [replaceEscapes_escapes]
    split
    · rename_i hspace
      subst hspace
      rfl
    · rename_i hspace
      refine congrArg (· ++ _) (List.flatMap_congr fun b hb => ?_)
      rw [replaced, if_neg, Option.getD_none]
      rintro ⟨hhigh, hlow⟩
      have hbyte : b = 0x20 := by
        rw [← byteOf_upperDigits b, hhigh, hlow]
        decide
      have hc := Utf8.eq_of_mem_utf8EncodeChar (by rw [hbyte]; decide) hb
      rw [hbyte] at hc
      exact hspace (Char.toNat_inj.1 hc)

/-- The escapes are in upper case already. -/
theorem upperEscapes_formEscape (c : Char) (rest : Text) :
    upperEscapes (formEscape unreserved c ++ rest) =
      formEscape unreserved c ++ upperEscapes rest := by
  unfold upperEscapes formEscape escape
  split
  · exact replaceEscapes_cons (by decide) _ _
  · split
    · rename_i hkeep
      exact replaceEscapes_cons (unreserved_plain.ne hkeep).2.1 _ _
    · rw [replaceEscapes_escapes]
      refine congrArg (· ++ _) (List.flatMap_congr fun b _ => ?_)
      obtain ⟨hhigh, hlow⟩ := percent_digits b
      have hupper : ∀ d ∈ upperDigits, d.toUpper = d := by simp [upperDigits]
      rw [replaced, if_pos ⟨(upperDigit_spec hhigh).1, (upperDigit_spec hlow).1⟩,
        hupper _ (upperDigit_spec hhigh).2.2, hupper _ (upperDigit_spec hlow).2.2]
      rfl

theorem encodePayFastValue_eq (value : Text) :
    encodePayFastValue value = value.flatMap (formEscape unreserved) := by
  have hspaces : replaceSpaces (encodeURIComponent value) =
      value.flatMap (formEscape unreserved) := by
    unfold encodeURIComponent
    induction value with
    | nil => rfl
    | cons c value ih =>
      rw [List.flatMap_cons, replaceSpaces_escape, ih, List.flatMap_cons]
  rw [encodePayFastValue, hspaces]
  clear hspaces
  induction value with
  | nil => rfl
  | cons c value ih => rw [List.flatMap_cons, upperEscapes_formEscape, ih]

example : encodePayFastValue "50% off".toList = "50%25+off".toList := by decide +kernel

theorem phpByte_char (c : Char) :
    (String.utf8EncodeChar c).flatMap phpByte = formEscape phpKept c := by
  by_cases hascii : c.toNat ≤ 127
  · have hbyte : (UInt8.ofNat c.toNat).toNat = c.toNat := Utf8.toNat_ofNat (by omega)
    have hbytes : String.utf8EncodeChar c = [UInt8.ofNat c.toNat] := by
      rw [Utf8.utf8EncodeChar_eq, Utf8.sequence, if_pos hascii]
    have hspace : UInt8.ofNat c.toNat = 0x20 ↔ c = ' ' := by
      rw [← UInt8.toNat_inj, hbyte, ← Char.toNat_inj]
      rfl
    rw [hbytes, List.flatMap_singleton, phpByte, hbyte, Char.ofNat_toNat, formEscape, escape, hbytes]
    by_cases hkeep : phpKept c = true
    · obtain ⟨_, _, _, _, hne⟩ := phpKept_plain.ne hkeep
      rw [if_pos ⟨by omega, hkeep⟩, if_neg hne, if_pos hkeep]
    · rw [if_neg fun h => hkeep h.2, if_neg hkeep, List.flatMap_singleton]
      simp only [hspace]
  · have hbyte : ∀ b ∈ String.utf8EncodeChar c, phpByte b = percent b := by
      intro b hb
      have hge : 128 ≤ b.toNat := Utf8.le_of_mem_sequence (Nat.lt_of_not_le hascii) hb
      rw [phpByte, if_neg (by omega), if_neg]
      rintro rfl
      exact absurd hge (by decide)
    have hspace : c ≠ ' ' := by
      rintro rfl
      exact hascii (by decide)
    have hkeep : ¬ phpKept c = true := fun h => hascii (phpKept_ascii h)
    rw [List.flatMap_congr hbyte, formEscape, if_neg hspace, escape, if_neg hkeep]

theorem phpUrlencode_eq (value : Text) :
    phpUrlencode value = value.flatMap (formEscape phpKept) := by
  rw [phpUrlencode, Utf8.encode, List.flatMap_assoc]
  exact List.flatMap_congr fun c _ => phpByte_char c

/-! ## Where the encoders differ -/

/-- None of the characters that `encodeURIComponent` keeps and `urlencode` escapes. -/
def FreeOfMarks (value : Text) : Prop := ∀ c ∈ value, c ∉ ['!', '~', '*', '\'', '(', ')']

instance (value : Text) : Decidable (FreeOfMarks value) := List.decidableBAll _ _

theorem formEscape_of_not_mark {c : Char} (h : c ∉ ['!', '~', '*', '\'', '(', ')']) :
    formEscape unreserved c = formEscape phpKept c := by
  have hkeep : unreserved c = phpKept c := by
    simp only [List.mem_cons, List.not_mem_nil, or_false, not_or] at h
    simp [unreserved, phpKept, h]
  rw [formEscape, formEscape, escape, escape, hkeep]

theorem formEscape_of_mark {c : Char} (h : c ∈ ['!', '~', '*', '\'', '(', ')']) :
    formEscape unreserved c = [c] ∧ (formEscape phpKept c).head? = some '%' ∧ c ≠ '%' := by
  simp only [List.mem_cons, List.not_mem_nil, or_false] at h
  rcases h with rfl | rfl | rfl | rfl | rfl | rfl <;> exact ⟨rfl, rfl, by decide⟩

/-- **The encoders agree** on the values without such a character only. -/
theorem encodePayFastValue_eq_php_iff (value : Text) :
    encodePayFastValue value = phpUrlencode value ↔ FreeOfMarks value := by
  rw [encodePayFastValue_eq, phpUrlencode_eq]
  unfold FreeOfMarks
  induction value with
  | nil => simp
  | cons c value ih =>
    rw [List.flatMap_cons, List.flatMap_cons, List.forall_mem_cons, ← ih]
    by_cases hmark : c ∈ ['!', '~', '*', '\'', '(', ')']
    · obtain ⟨hkept, hescaped, hne⟩ := formEscape_of_mark hmark
      obtain ⟨rest, hrest⟩ := List.head?_eq_some_iff.1 hescaped
      refine iff_of_false ?_ fun h => h.1 hmark
      rw [hkept, hrest]
      intro h
      exact hne (List.cons.inj h).1
    · rw [formEscape_of_not_mark hmark, List.append_cancel_left_eq]
      exact (and_iff_right hmark).symm

/-! ## Notifications -/

/-- The entries of `new URLSearchParams(body)`. -/
def urlSearchParams (body : Text) : List (Text × Text) :=
  parse (match body with
    | '?' :: rest => rest
    | body => body)

/-- Every field except `signature`. -/
def fields (params : List (Text × Text)) : List (Text × Text) :=
  params.filter fun p => p.1 ≠ "signature".toList

/-- `key=value` -/
def part (encode : Text → Text) (field : Text × Text) : Text := field.1 ++ '=' :: encode field.2

def joined (encode : Text → Text) (params : List (Text × Text)) : Text :=
  ['&'].intercalate (params.map (part encode))

def buildPayFastSigningString (params : List (Text × Text)) : Text :=
  joined encodePayFastValue (fields params)

/-- What is hashed: the fields and the passphrase. -/
def signedString (encode : Text → Text) (passphrase : Text) (params : List (Text × Text)) : String :=
  String.ofList (joined encode (fields params) ++
    '&' :: ("passphrase=".toList ++ encode passphrase))

/-- `(signature || params.get('signature') || '').trim()` -/
def provided (body signature : Text) : Text :=
  trim (if signature ≠ [] then signature
    else ((urlSearchParams body).lookup "signature".toList).getD [])

def verifyWebhookSignature (crypto : NodeCrypto) (passphrase body signature : Text) : Bool :=
  if provided body signature = [] then false
  else
    let expected := crypto.md5Hex (String.ofList (buildPayFastSigningString (urlSearchParams body) ++
      '&' :: ("passphrase=".toList ++ encodePayFastValue passphrase)))
    timingSafeEqualHex (String.ofList (provided body signature)) expected

/-- `parseWebhookEvent`, from the body on. -/
def readWebhookEvent (body : Text) (input : ParserInput) : WebhookEvent :=
  parseWebhookEvent
    ((urlSearchParams body).map fun p => (String.ofList p.1, String.ofList p.2)) input

/-- The digest that the adapter expects. -/
def expected (crypto : NodeCrypto) (passphrase body : Text) : String :=
  crypto.md5Hex (signedString encodePayFastValue passphrase (urlSearchParams body))

/-- **Acceptance.** -/
theorem verifyWebhookSignature_eq_true {crypto : NodeCrypto} {passphrase body signature : Text} :
    verifyWebhookSignature crypto passphrase body signature = true ↔
      (leading (provided body signature)).map Char.toLower =
        (expected crypto passphrase body).toList := by
  have hdigest : LowerHex 32 (expected crypto passphrase body) := crypto.md5Hex_digest _
  rw [← String.toList_ofList (l := provided body signature),
    ← timingSafeEqualHex_digest hdigest (by decide) (by decide)]
  unfold verifyWebhookSignature
  split
  · rename_i hnone
    rw [hnone]
    refine iff_of_false (by decide) ?_
    rw [timingSafeEqualHex_eq_true]
    exact fun h => h.1 rfl
  · rfl

theorem provided_digest {n : Nat} {digest : String} (h : LowerHex n digest) (hn : n ≠ 0)
    (body : Text) : provided body digest.toList = digest.toList := by
  have hne : digest.toList ≠ [] := by
    intro hnil
    have hlength := h.1
    rw [hnil] at hlength
    exact hn hlength.symm
  rw [provided, if_pos hne, trim_eq_self (trimmed_digest h)]

/-- The digest that is expected is accepted. -/
theorem verify_of_provided {crypto : NodeCrypto} {passphrase body signature : Text}
    (h : provided body signature = (expected crypto passphrase body).toList) :
    verifyWebhookSignature crypto passphrase body signature = true := by
  have hdigest : LowerHex 32 (expected crypto passphrase body) := crypto.md5Hex_digest _
  rw [verifyWebhookSignature_eq_true, h, leading_eq_self_iff.2 (hdigest.evenHex (by decide)),
    hdigest.map_toLower]

/-- MD5 has no collision on two payloads. -/
def NoCollision (crypto : NodeCrypto) (payload payload' : String) : Prop :=
  crypto.md5Hex payload = crypto.md5Hex payload' → payload = payload'

instance (crypto : NodeCrypto) (payload payload' : String) :
    Decidable (NoCollision crypto payload payload') := inferInstanceAs (Decidable (_ → _))

/-! ## Fields written into keys -/

/-- A field is written into the key of the field after it. -/
inductive Moved : List (Text × Text) → List (Text × Text) → Prop where
  | intro (before : List (Text × Text)) (field : Text × Text) (key value : Text)
      (after : List (Text × Text)) :
      Moved (before ++ field :: (key, value) :: after)
        (before ++ (part encodePayFastValue field ++ '&' :: key, value) :: after)

/-- Different lists of fields from which the same list arises by such moves. -/
def Regrouped (params params' : List (Text × Text)) : Prop :=
  params ≠ params' ∧ Relation.Join (Relation.ReflTransGen Moved) params params'

theorem separator_not_mem_encode {d : Char} (hd : d ∈ ['&', '=']) (value : Text) :
    d ∉ encodePayFastValue value := by
  rw [encodePayFastValue_eq]
  exact separator_not_mem unreserved_plain hd value

theorem separator_not_mem_php {d : Char} (hd : d ∈ ['&', '=']) (value : Text) :
    d ∉ phpUrlencode value := by
  rw [phpUrlencode_eq]
  exact separator_not_mem phpKept_plain hd value

/-- A field is read off its text at the last `=`. -/
theorem part_injective : Function.Injective (part encodePayFastValue) := by
  rintro ⟨key, value⟩ ⟨key', value'⟩ h
  have hvalue := separator_not_mem_encode (List.mem_cons_of_mem '&' (List.mem_singleton_self '='))
  obtain ⟨hkey, hencoded⟩ := Delimited.append_cons_inj_last (hvalue value) (hvalue value') h
  dsimp only at hkey hencoded
  rw [encodePayFastValue_eq, encodePayFastValue_eq] at hencoded
  rw [hkey, formEscape_injective unreserved_plain hencoded]

theorem joined_moved {params params' : List (Text × Text)} (h : Moved params params') :
    joined encodePayFastValue params = joined encodePayFastValue params' := by
  obtain ⟨before, field, key, value, after⟩ := h
  have hpart : part encodePayFastValue (part encodePayFastValue field ++ '&' :: key, value) =
      part encodePayFastValue field ++ '&' :: part encodePayFastValue (key, value) := by
    simp [part]
  simp only [joined, List.map_append, List.map_cons]
  rw [hpart, Delimited.intercalate_merge]

theorem joined_reaches {params params' : List (Text × Text)}
    (h : Relation.ReflTransGen Moved params params') :
    joined encodePayFastValue params = joined encodePayFastValue params' := by
  induction h with
  | refl => rfl
  | tail _ hmove ih => exact ih.trans (joined_moved hmove)

/-- All fields are moved into the key of the last one. -/
theorem reaches_one (field : Text × Text) (rest : List (Text × Text)) :
    ∃ one, Relation.ReflTransGen Moved (field :: rest) [one] := by
  induction rest generalizing field with
  | nil => exact ⟨field, .refl⟩
  | cons next rest ih =>
    obtain ⟨one, hone⟩ := ih (part encodePayFastValue field ++ '&' :: next.1, next.2)
    exact ⟨one, .head (.intro [] field next.1 next.2 rest) hone⟩

theorem joined_ne_nil (encode : Text → Text) (field : Text × Text) (rest : List (Text × Text)) :
    joined encode (field :: rest) ≠ [] := by
  unfold joined
  cases rest with
  | nil => simp [part]
  | cons next rest => simp [List.intercalate_cons_cons]

/-- **Equal texts**: the lists of fields lead to the same list. -/
theorem joined_eq_iff {params params' : List (Text × Text)} :
    joined encodePayFastValue params = joined encodePayFastValue params' ↔
      Relation.Join (Relation.ReflTransGen Moved) params params' := by
  constructor
  · intro h
    match params, params' with
    | [], [] => exact ⟨[], .refl, .refl⟩
    | [], field :: rest => exact absurd h.symm (joined_ne_nil _ field rest)
    | field :: rest, [] => exact absurd h (joined_ne_nil _ field rest)
    | field :: rest, field' :: rest' =>
      obtain ⟨one, hone⟩ := reaches_one field rest
      obtain ⟨one', hone'⟩ := reaches_one field' rest'
      have hparts : part encodePayFastValue one = part encodePayFastValue one' := by
        simpa [joined] using (joined_reaches hone).symm.trans (h.trans (joined_reaches hone'))
      rw [part_injective hparts] at hone
      exact ⟨[one'], hone, hone'⟩
  · rintro ⟨common, hleft, hright⟩
    exact (joined_reaches hleft).trans (joined_reaches hright).symm

/-- Fields whose keys contain no `&` cannot be regrouped. -/
theorem not_regrouped_of_keys {params params' : List (Text × Text)}
    (h : ∀ field ∈ params, '&' ∉ field.1) (h' : ∀ field ∈ params', '&' ∉ field.1) :
    ¬ Regrouped params params' := by
  rintro ⟨hne, hjoin⟩
  have hparts : ∀ fs : List (Text × Text), (∀ field ∈ fs, '&' ∉ field.1) →
      ∀ x ∈ fs.map (part encodePayFastValue), '&' ∉ x := by
    intro fs hfs x hx
    obtain ⟨field, hfield, rfl⟩ := List.mem_map.1 hx
    have hvalue := separator_not_mem_encode (List.mem_cons_self (a := '&') (l := ['='])) field.2
    simp [part, hfs field hfield, hvalue]
  have hjoined := joined_eq_iff.2 hjoin
  match params, params' with
  | [], [] => exact hne rfl
  | [], field :: rest => exact absurd hjoined.symm (joined_ne_nil _ field rest)
  | field :: rest, [] => exact absurd hjoined (joined_ne_nil _ field rest)
  | field :: rest, field' :: rest' =>
    have hmaps := Delimited.intercalate_inj_of_not_mem (hparts _ h) (hparts _ h') (by simp)
      (by simp) hjoined
    exact hne (List.map_injective_iff.2 part_injective hmaps)

/-! ## What a signature binds -/

theorem fields_cons (p : Text × Text) (params : List (Text × Text)) :
    fields (p :: params) =
      if p.1 = "signature".toList then fields params else p :: fields params := by
  unfold fields
  rw [List.filter_cons]
  by_cases h : p.1 = "signature".toList
  · rw [if_pos h, decide_eq_false fun hne => hne h]
    rfl
  · rw [if_neg h, decide_eq_true h]
    rfl

/-- The event is read off the signed fields. -/
theorem lookup_strings {key : String} (hkey : key ≠ "signature") (params : List (Text × Text)) :
    (params.map fun p => (String.ofList p.1, String.ofList p.2)).lookup key =
      ((fields params).lookup key.toList).map String.ofList := by
  induction params with
  | nil => rfl
  | cons p params ih =>
    have hbeq : (key == String.ofList p.1) = (key.toList == p.1) := by
      rw [Bool.eq_iff_iff, beq_iff_eq, beq_iff_eq, ← String.toList_inj, String.toList_ofList]
    rw [List.map_cons, List.lookup_cons, hbeq, fields_cons]
    by_cases hp : p.1 = "signature".toList
    · have hother : (key.toList == p.1) = false := by
        rw [hp, beq_eq_false_iff_ne]
        exact fun h => hkey (String.toList_inj.1 h)
      rw [if_pos hp, hother]
      exact ih
    · rw [if_neg hp, List.lookup_cons]
      cases key.toList == p.1 with
      | true => rfl
      | false => exact ih

theorem readWebhookEvent_same {body body' : Text}
    (h : fields (urlSearchParams body) = fields (urlSearchParams body')) (input : ParserInput) :
    (readWebhookEvent body input).Same (readWebhookEvent body' input) := by
  simp only [WebhookEvent.Same, readWebhookEvent, parseWebhookEvent, true_and]
  rw [lookup_strings (by decide), lookup_strings (by decide), lookup_strings (by decide),
    lookup_strings (by decide), h]
  exact ⟨rfl, rfl⟩

/-- Bodies accepted under one signature value have the same fields and the same event. -/
def Binds (crypto : NodeCrypto) (passphrase body body' : Text) : Prop :=
  ∀ signature signature', verifyWebhookSignature crypto passphrase body signature = true →
    verifyWebhookSignature crypto passphrase body' signature' = true →
    provided body signature = provided body' signature' →
    fields (urlSearchParams body) = fields (urlSearchParams body') ∧
      ∀ input, (readWebhookEvent body input).Same (readWebhookEvent body' input)

theorem signedString_eq_iff {passphrase : Text} {params params' : List (Text × Text)} :
    signedString encodePayFastValue passphrase params =
        signedString encodePayFastValue passphrase params' ↔
      Relation.Join (Relation.ReflTransGen Moved) (fields params) (fields params') := by
  rw [← joined_eq_iff, signedString, signedString, String.ofList_inj, List.append_cancel_right_eq]

/-- **A signature binds the posted fields** unless fields are regrouped. -/
theorem signature_binds_fields_iff (crypto : NodeCrypto) (passphrase body body' : Text)
    (h : NoCollision crypto (signedString encodePayFastValue passphrase (urlSearchParams body))
      (signedString encodePayFastValue passphrase (urlSearchParams body'))) :
    Binds crypto passphrase body body' ↔
      ¬ Regrouped (fields (urlSearchParams body)) (fields (urlSearchParams body')) := by
  constructor
  · rintro hbinds ⟨hne, hjoin⟩
    -- the digest of the first body is that of the second one
    have hexpected : expected crypto passphrase body = expected crypto passphrase body' :=
      congrArg crypto.md5Hex (signedString_eq_iff.2 hjoin)
    have hdigest : LowerHex 32 (expected crypto passphrase body) := crypto.md5Hex_digest _
    have hprovided := provided_digest hdigest (by decide)
    have haccepted := verify_of_provided (hprovided body)
    have haccepted' := verify_of_provided ((hprovided body').trans (by rw [hexpected]))
    exact hne (hbinds _ _ haccepted haccepted' ((hprovided body).trans (hprovided body').symm)).1
  · intro hnot signature signature' haccepted haccepted' hprovided
    rw [verifyWebhookSignature_eq_true] at haccepted haccepted'
    rw [hprovided, haccepted', String.toList_inj] at haccepted
    have hjoin := signedString_eq_iff.1 (h haccepted.symm)
    have hfields : fields (urlSearchParams body) = fields (urlSearchParams body') := by
      by_contra hne
      exact hnot ⟨hne, hjoin⟩
    exact ⟨hfields, readWebhookEvent_same hfields⟩

/-- Digests of sample payloads. -/
def samples : NodeCrypto := .recorded
  [("a=1&passphrase=jt7NOE43FZPn", "c2172222e604e8a2d9f852cdd4adbfb7"),
    ("a=2&passphrase=jt7NOE43FZPn", "b05a27c833b0905d813f6b1f4e1c9309"),
    ("m_payment_id=1&payment_status=COMPLETE&passphrase=jt7NOE43FZPn",
      "212dd3611af08c742b0c46fb71cfadb2"),
    ("name=O'Brien&passphrase=jt7NOE43FZPn", "ec98a1dbc85674a8df989c618782ddb7"),
    ("name=O%27Brien&passphrase=jt7NOE43FZPn", "4cd2a77a513757df8a401d55a0169c8c")]
  [] (by decide +kernel) (List.forall_mem_nil _)

theorem signature_binds_one_field :
    Binds samples "jt7NOE43FZPn".toList "a=1".toList "a=2".toList :=
  (signature_binds_fields_iff samples "jt7NOE43FZPn".toList "a=1".toList "a=2".toList
    (by decide)).2 (not_regrouped_of_keys (by decide) (by decide))

/-- **A completed payment rewritten into a failed one**, under the same signature. -/
theorem rewritten_notification_accepted :
    let body := "m_payment_id=1&payment_status=COMPLETE".toList
    let body' := "m_payment_id%3D1%26payment_status=COMPLETE".toList
    NoCollision samples
        (signedString encodePayFastValue "jt7NOE43FZPn".toList (urlSearchParams body))
        (signedString encodePayFastValue "jt7NOE43FZPn".toList (urlSearchParams body')) ∧
      ((readWebhookEvent body ⟨[], 0⟩).type = "payment.completed" ∧
        (readWebhookEvent body' ⟨[], 0⟩).type = "payment.failed") ∧
      ¬ Binds samples "jt7NOE43FZPn".toList body body' := by
  refine ⟨by decide, by decide, fun h => ?_⟩
  have hsame := h "212dd3611af08c742b0c46fb71cfadb2".toList "212dd3611af08c742b0c46fb71cfadb2".toList
    (by decide) (by decide) (by decide)
  exact absurd hsame.1 (by decide)

/-! ## What PayFast signs -/

theorem signedString_php_iff {passphrase : Text} {params : List (Text × Text)} :
    signedString encodePayFastValue passphrase params =
        signedString phpUrlencode passphrase params ↔
      FreeOfMarks passphrase ∧ ∀ field ∈ fields params, FreeOfMarks field.2 := by
  have hand : '&' ∈ ['&', '='] := List.mem_cons_self
  simp only [← encodePayFastValue_eq_php_iff]
  constructor
  · intro h
    rw [signedString, signedString, String.ofList_inj] at h
    obtain ⟨hjoined, hpass⟩ := Delimited.append_cons_inj_last
      (by simp [separator_not_mem_encode hand]) (by simp [separator_not_mem_php hand]) h
    refine ⟨List.append_cancel_left hpass, fun field hfield => ?_⟩
    have hcounts : List.Forall₂ (fun x y : Text => x.count '&' = y.count '&')
        ((fields params).map (part encodePayFastValue))
        ((fields params).map (part phpUrlencode)) := by
      rw [List.forall₂_map_left_iff, List.forall₂_map_right_iff, List.forall₂_same]
      intro f _
      have hleft := List.count_eq_zero_of_not_mem (separator_not_mem_encode hand f.2)
      have hright := List.count_eq_zero_of_not_mem (separator_not_mem_php hand f.2)
      simp [part, List.count_append, hleft, hright]
    have hparts := Delimited.intercalate_inj hcounts hjoined
    have hpart := List.map_inj_left.1 hparts field hfield
    exact (List.cons.inj (List.append_cancel_left hpart)).2
  · rintro ⟨hpass, hfields⟩
    have hjoined : joined encodePayFastValue (fields params) =
        joined phpUrlencode (fields params) := by
      refine congrArg _ (List.map_congr_left fun field hfield => ?_)
      rw [part, part, hfields field hfield]
    rw [signedString, signedString, hjoined, hpass]

/-- **Values are encoded as PHP does** if they are free of the marks that only `urlencode`
escapes, and what PayFast signs is accepted if all values are. -/
theorem php_signatures_accepted_iff (value : Text) (crypto : NodeCrypto)
    (passphrase body signature : Text) :
    (encodePayFastValue value = phpUrlencode value ↔ FreeOfMarks value) ∧
      (NoCollision crypto (signedString encodePayFastValue passphrase (urlSearchParams body))
        (signedString phpUrlencode passphrase (urlSearchParams body)) →
      provided body signature =
        (crypto.md5Hex (signedString phpUrlencode passphrase (urlSearchParams body))).toList →
      (verifyWebhookSignature crypto passphrase body signature = true ↔
        FreeOfMarks passphrase ∧
          ∀ field ∈ fields (urlSearchParams body), FreeOfMarks field.2)) := by
  refine ⟨encodePayFastValue_eq_php_iff value, ?_⟩
  intro hcollision hsigned
  rw [← signedString_php_iff]
  constructor
  · intro haccepted
    have hdigest := crypto.md5Hex_digest
      (signedString phpUrlencode passphrase (urlSearchParams body))
    rw [verifyWebhookSignature_eq_true, hsigned, leading_eq_self_iff.2 (hdigest.evenHex (by decide)),
      hdigest.map_toLower, String.toList_inj] at haccepted
    exact hcollision haccepted.symm
  · intro heq
    refine verify_of_provided ?_
    rw [hsigned, expected, heq]

theorem apostrophe_rejected :
    ¬ verifyWebhookSignature samples "jt7NOE43FZPn".toList "name=O%27Brien".toList
      "4cd2a77a513757df8a401d55a0169c8c".toList = true := by
  rw [(php_signatures_accepted_iff "O'Brien".toList samples "jt7NOE43FZPn".toList
    "name=O%27Brien".toList "4cd2a77a513757df8a401d55a0169c8c".toList).2 (by decide)
    (by decide)]
  decide

theorem apostrophe_kept :
    encodePayFastValue "O'Brien".toList = "O'Brien".toList ∧
      phpUrlencode "O'Brien".toList = "O%27Brien".toList ∧
      encodePayFastValue "O'Brien".toList ≠ phpUrlencode "O'Brien".toList := by
  decide

end Intellibiz.Commerce.PayFastProvider
