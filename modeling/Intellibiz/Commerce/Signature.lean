import Intellibiz.HexPairs
import Intellibiz.Db.Template

/-!
# Signature primitives

Model of `packages/commerce/src/webhooks/signature.ts`.  The digests of `node:crypto` are a
parameter; a `Buffer.from(s, 'hex')` holds the bytes of the digit pairs that `s` begins with.

* `NodeCrypto` — `md5Hex` and `hmacSha256Hex`, whose results are lower-case hexadecimal.
* `timingSafeEqualHex` — the comparison of two digests; `SameDigest` is what it should say.
* `parseStripeSignatureHeader` — the parser of the `Stripe-Signature` header.

Principal results: `timingSafeEqualHex_eq_true`, `timingSafeEqualHex_exact_iff` and
`timingSafeEqualHex_digest` (the comparison with a digest of `node:crypto`).
-/

namespace Intellibiz.Commerce

open HexPairs Db

/-! ## Trimmed texts -/

/-- No white space at either end. -/
def Trimmed (s : Text) : Prop :=
  (∀ c ∈ s.head?, isJsSpace c = false) ∧ ∀ c ∈ s.getLast?, isJsSpace c = false

theorem dropWhile_spaces {s : Text} (h : ∀ c ∈ s.head?, isJsSpace c = false) :
    s.dropWhile isJsSpace = s := by
  cases s with
  | nil => rfl
  | cons c s =>
    have hc : isJsSpace c = false := h c rfl
    rw [List.dropWhile_cons_of_neg (by simp [hc])]

theorem trim_eq_self {s : Text} (hs : Trimmed s) : trim s = s := by
  unfold trim List.rdropWhile
  rw [dropWhile_spaces hs.1, dropWhile_spaces, List.reverse_reverse]
  rw [List.head?_reverse]
  exact hs.2

/-- White space around a text is dropped. -/
theorem trim_padded {before after : Text} (hbefore : ∀ c ∈ before, isJsSpace c = true)
    (hafter : ∀ c ∈ after, isJsSpace c = true) (s : Text) :
    trim (before ++ s ++ after) = trim s := by
  have hright : ∀ t : Text, (t ++ after).rdropWhile isJsSpace = t.rdropWhile isJsSpace := by
    intro t
    have hreverse : ∀ c ∈ after.reverse, isJsSpace c = true := by simpa using hafter
    rw [List.rdropWhile, List.reverse_append, List.dropWhile_append_of_pos hreverse,
      List.rdropWhile]
  unfold trim
  rw [List.append_assoc, List.dropWhile_append_of_pos hbefore, List.dropWhile_append]
  split
  · rename_i hnil
    rw [List.isEmpty_iff.1 hnil, List.dropWhile_eq_nil_iff.2 hafter]
  · exact hright _

/-! ## Digests -/

structure NodeCrypto where
  md5Hex : String → String
  hmacSha256Hex : (secret payload : String) → String
  md5Hex_digest : ∀ payload, LowerHex 32 (md5Hex payload)
  hmacSha256Hex_digest : ∀ secret payload, LowerHex 64 (hmacSha256Hex secret payload)

/-- Digests from tables. -/
def NodeCrypto.recorded (md5 : List (String × String)) (hmac : List ((String × String) × String))
    (hmd5 : ∀ e ∈ md5, LowerHex 32 e.2) (hhmac : ∀ e ∈ hmac, LowerHex 64 e.2) : NodeCrypto where
  md5Hex := HexPairs.recorded 32 md5
  hmacSha256Hex secret payload := HexPairs.recorded 64 hmac (secret, payload)
  md5Hex_digest := lowerHex_recorded hmd5
  hmacSha256Hex_digest _ _ := lowerHex_recorded hhmac _

def timingSafeEqualHex (a b : String) : Bool :=
  let bufA := bytes a.toList
  let bufB := bytes b.toList
  if bufA.length = 0 ∨ bufA.length ≠ bufB.length then false else bufA == bufB

/-- Two digests that are equal but for case. -/
def SameDigest (a b : String) : Prop :=
  (a ≠ "" ∧ b ≠ "") ∧ (EvenHex a.toList ∧ EvenHex b.toList) ∧
    a.toList.length = b.toList.length ∧ EqIgnoringCase a.toList b.toList

/-- The comparison sees the leading digit pairs only. -/
theorem timingSafeEqualHex_eq_true {a b : String} :
    timingSafeEqualHex a b = true ↔
      leading a.toList ≠ [] ∧ EqIgnoringCase (leading a.toList) (leading b.toList) := by
  rw [← bytes_eq_iff, Ne, ← bytes_eq_nil_iff]
  unfold timingSafeEqualHex
  dsimp only
  split
  · rename_i h
    simp only [Bool.false_eq_true, false_iff, not_and]
    intro hne heq
    rcases h with h | h
    · exact hne (List.eq_nil_of_length_eq_zero h)
    · exact h (congrArg List.length heq)
  · rename_i h
    rw [not_or] at h
    rw [beq_iff_eq]
    refine (and_iff_right ?_).symm
    intro hnil
    exact h.1 (congrArg List.length hnil)

theorem trimmed_digest {n : Nat} {s : String} (h : LowerHex n s) : Trimmed s.toList := by
  have hdigits : ∀ c ∈ digits, isJsSpace c = false := by simp [digits, isJsSpace]
  constructor
  · intro c hc
    exact hdigits c (h.2 c (List.mem_of_mem_head? hc))
  · intro c hc
    exact hdigits c (h.2 c (List.mem_of_mem_getLast? hc))

theorem toList_ne_nil {s : String} : s.toList ≠ [] ↔ s ≠ "" := by
  rw [Ne, Ne, ← String.toList_inj]
  rfl

/-- With a digest, the bytes are compared. -/
theorem timingSafeEqualHex_bytes {n : Nat} {candidate expected : String}
    (h : LowerHex n expected) (hn : n % 2 = 0) (hpos : 0 < n) :
    timingSafeEqualHex candidate expected = true ↔
      bytes candidate.toList = bytes expected.toList := by
  rw [timingSafeEqualHex_eq_true, bytes_eq_iff]
  refine and_iff_right_of_imp ?_
  intro heq hnil
  rw [hnil, EqIgnoringCase, leading_eq_self_iff.2 (h.evenHex hn), h.map_toLower] at heq
  have hlength := h.1
  rw [← heq] at hlength
  simp only [List.map_nil, List.length_nil] at hlength
  omega

/-- **Digests are compared exactly if** both texts are digit pairs throughout, or the pairs that
they begin with are none or differ. -/
theorem timingSafeEqualHex_exact_iff (a b : String) :
    (timingSafeEqualHex a b = true ↔ SameDigest a b) ↔
      (EvenHex a.toList ∧ EvenHex b.toList) ∨ leading a.toList = [] ∨
        ¬ EqIgnoringCase (leading a.toList) (leading b.toList) := by
  rw [timingSafeEqualHex_eq_true]
  constructor
  · intro h
    by_cases htrue : leading a.toList ≠ [] ∧
        EqIgnoringCase (leading a.toList) (leading b.toList)
    · exact .inl (h.1 htrue).2.1
    · rw [Decidable.not_and_iff_not_or_not, not_not] at htrue
      exact .inr htrue
  · rintro (⟨ha, hb⟩ | h)
    · have hlengths : EqIgnoringCase a.toList b.toList → a.toList.length = b.toList.length := by
        intro heq
        simpa using congrArg List.length heq
      rw [leading_eq_self_iff.2 ha, leading_eq_self_iff.2 hb]
      constructor
      · rintro ⟨hne, heq⟩
        have hne' : b.toList ≠ [] := by
          intro hnil
          rw [hnil] at heq
          exact hne (List.map_eq_nil_iff.1 heq)
        exact ⟨⟨toList_ne_nil.1 hne, toList_ne_nil.1 hne'⟩, ⟨ha, hb⟩, hlengths heq, heq⟩
      · rintro ⟨⟨hne, _⟩, _, _, heq⟩
        exact ⟨toList_ne_nil.2 hne, heq⟩
    · -- neither side holds
      refine iff_of_false (fun htrue => ?_) ?_
      · rcases h with h | h
        · exact htrue.1 h
        · exact h htrue.2
      · rintro ⟨⟨hne, _⟩, ⟨ha, hb⟩, _, heq⟩
        rw [leading_eq_self_iff.2 ha, leading_eq_self_iff.2 hb] at h
        rcases h with h | h
        · exact toList_ne_nil.2 hne h
        · exact h heq

/-- **Trailing characters are not seen.** -/
theorem trailing_characters_equal :
    timingSafeEqualHex "aazz" "aa" = true ∧ ¬ SameDigest "aazz" "aa" := by
  refine ⟨by decide, fun h => ?_⟩
  exact absurd h.2.2.1 (by decide)

/-- A text is accepted for a digest if the pairs that it begins with are the digest, but for
case. -/
theorem timingSafeEqualHex_digest {n : Nat} {candidate expected : String}
    (h : LowerHex n expected) (hn : n % 2 = 0) (hpos : 0 < n) :
    timingSafeEqualHex candidate expected = true ↔
      (leading candidate.toList).map Char.toLower = expected.toList := by
  rw [timingSafeEqualHex_bytes h hn hpos, bytes_eq_iff, leading_eq_self_iff.2 (h.evenHex hn),
    EqIgnoringCase, h.map_toLower]

/-! ## The `Stripe-Signature` header -/

structure ParsedStripeSignature where
  timestamp : Option Text
  signatures : List Text
  deriving DecidableEq

/-- One round of the loop over the parts of the header. -/
def readPart (parsed : ParsedStripeSignature) (part : Text) : ParsedStripeSignature :=
  if '=' ∉ part then parsed
  else
    let key := trim (part.takeWhile (· ≠ '='))
    let value := trim ((part.dropWhile (· ≠ '=')).drop 1)
    if value = [] then parsed
    else if key = "t".toList then { parsed with timestamp := some value }
    else if key = "v1".toList then { parsed with signatures := parsed.signatures ++ [value] }
    else parsed

def parseStripeSignatureHeader (header : Text) : ParsedStripeSignature :=
  (header.splitOn ',').foldl readPart ⟨none, []⟩

/-- A key and a value with white space around them. -/
structure HeaderPart where
  key : Text
  value : Text
  key_plain : '=' ∉ key ∧ ',' ∉ key
  value_plain : value ≠ [] ∧ ',' ∉ value ∧ Trimmed value
  pads : Text × Text × Text × Text
  pads_space : ∀ pad ∈ [pads.1, pads.2.1, pads.2.2.1, pads.2.2.2], ∀ c ∈ pad, isJsSpace c = true

namespace HeaderPart

def render (p : HeaderPart) : Text :=
  (p.pads.1 ++ p.key ++ p.pads.2.1) ++ '=' :: (p.pads.2.2.1 ++ p.value ++ p.pads.2.2.2)

/-- The values under a key, but for white space around the key. -/
def named (key : Text) (parts : List HeaderPart) : List Text :=
  (parts.filter fun p => trim p.key = key).map value

theorem named_snoc (key : Text) (parts : List HeaderPart) (p : HeaderPart) :
    named key (parts ++ [p]) = named key parts ++ if trim p.key = key then [p.value] else [] := by
  rw [named, named, List.filter_append, List.map_append]
  by_cases h : trim p.key = key <;> simp [h]

theorem separator_not_mem {c : Char} (hc : isJsSpace c = false) (p : HeaderPart) :
    (c ∉ p.key → c ∉ p.pads.1 ++ p.key ++ p.pads.2.1) ∧
      (c ∉ p.value → c ∉ p.pads.2.2.1 ++ p.value ++ p.pads.2.2.2) := by
  have hpads : ∀ pad ∈ [p.pads.1, p.pads.2.1, p.pads.2.2.1, p.pads.2.2.2], c ∉ pad := by
    intro pad hpad hmem
    rw [p.pads_space pad hpad c hmem] at hc
    cases hc
  simp only [List.forall_mem_cons] at hpads
  simp only [List.mem_append, not_or]
  exact ⟨fun h => ⟨⟨hpads.1, h⟩, hpads.2.1⟩, fun h => ⟨⟨hpads.2.2.1, h⟩, hpads.2.2.2.1⟩⟩

theorem comma_not_mem (p : HeaderPart) : ',' ∉ p.render := by
  obtain ⟨hkey, hvalue⟩ := separator_not_mem (c := ',') (by simp [isJsSpace]) p
  rw [render, List.mem_append, List.mem_cons, not_or, not_or]
  exact ⟨hkey p.key_plain.2, by decide, hvalue p.value_plain.2.1⟩

/-- A rendered part is read. -/
theorem readPart_render (parsed : ParsedStripeSignature) (p : HeaderPart) :
    readPart parsed p.render =
      if trim p.key = "t".toList then { parsed with timestamp := some p.value }
      else if trim p.key = "v1".toList then
        { parsed with signatures := parsed.signatures ++ [p.value] }
      else parsed := by
  have hplain := (separator_not_mem (c := '=') (by simp [isJsSpace]) p).1 p.key_plain.1
  have hall : ∀ c ∈ p.pads.1 ++ p.key ++ p.pads.2.1, decide (c ≠ '=') = true := by
    rintro c hc
    refine decide_eq_true ?_
    rintro rfl
    exact hplain hc
  have hspaces := p.pads_space
  simp only [List.forall_mem_cons] at hspaces
  have hkey := trim_padded hspaces.1 hspaces.2.1 p.key
  have hvalue := trim_padded hspaces.2.2.1 hspaces.2.2.2.1 p.value
  rw [trim_eq_self p.value_plain.2.2] at hvalue
  have hmem : '=' ∈ p.render := by simp [render]
  rw [readPart, if_neg (not_not.2 hmem), render, List.takeWhile_append_of_pos hall,
    List.dropWhile_append_of_pos hall, List.takeWhile_cons_of_neg (by simp), List.append_nil,
    List.dropWhile_cons_of_neg (by simp)]
  dsimp only
  rw [List.drop_one, List.tail_cons, hkey, hvalue, if_neg p.value_plain.1]

end HeaderPart

open HeaderPart

/-- **The header is parsed**: the last timestamp and all signatures, in order. -/
theorem parseStripeSignatureHeader_render (parts : List HeaderPart) :
    parseStripeSignatureHeader ([','].intercalate (parts.map render)) =
      ⟨(named "t".toList parts).getLast?, named "v1".toList parts⟩ := by
  have hfold : (parts.map render).foldl readPart ⟨none, []⟩ =
      ⟨(named "t".toList parts).getLast?, named "v1".toList parts⟩ := by
    induction parts using List.reverseRecOn with
    | nil => rfl
    | append_singleton parts p ih =>
      rw [List.map_append, List.map_singleton, List.foldl_append, ih, List.foldl_cons,
        List.foldl_nil, readPart_render, named_snoc, named_snoc]
      by_cases ht : trim p.key = "t".toList
      · have hv : trim p.key ≠ "v1".toList := by
          rw [ht]
          decide
        rw [if_pos ht, if_pos ht, if_neg hv, List.getLast?_concat, List.append_nil]
      · rw [if_neg ht, if_neg ht, List.append_nil]
        by_cases hv : trim p.key = "v1".toList
        · rw [if_pos hv, if_pos hv]
        · rw [if_neg hv, if_neg hv, List.append_nil]
  unfold parseStripeSignatureHeader
  by_cases hnil : parts = []
  · subst hnil
    rfl
  · rw [List.splitOn_intercalate, hfold]
    · intro l hl
      obtain ⟨p, _, rfl⟩ := List.mem_map.1 hl
      exact p.comma_not_mem
    · simpa using hnil

end Intellibiz.Commerce
