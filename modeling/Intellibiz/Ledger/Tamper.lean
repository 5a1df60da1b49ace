import Intellibiz.Ledger.Writer

/-!
# What the chain protects

`verify_chain` recomputes every hash and compares every `previous_hash`.  Two questions about
entries that were changed after the fact, for a digest without collisions, and one about entries
that were left out or moved:

* `edit_detected_iff` — a single edited field is detected at every position of every accepted
  list if and only if it is one of the fields that `compute_hash` receives; `tenant_id` and
  `state` are not.
* `head_commits_iff` — two accepted lists of the same length with the same last hash agree on
  every hashed field at every position if and only if corresponding fields contain the delimiter
  of the payload equally often; `:` is not escaped.
* `verifyChain_iff_segment` — of the entries a run has drained, exactly the contiguous segments are
  accepted, provided the hashes differ.
-/

namespace Intellibiz.Ledger

open LedgerWriter HashChain

/-! ## Single-field edits -/

/-- One field of an entry replaced, the stored hashes untouched. -/
inductive Edit where
  | id (v : String)
  | traceId (v : String)
  | tenantId (v : String)
  | accountDebit (v : String)
  | accountCredit (v : String)
  | amount (v : String)
  | currency (v : String)
  | state (v : EntryState)
  | timestamp (v : UInt64)
  | previousHash (v : String)
  deriving DecidableEq, Repr

def Edit.apply (e : LedgerEntry) : Edit → LedgerEntry
  | .id v => { e with id := v }
  | .traceId v => { e with traceId := v }
  | .tenantId v => { e with tenantId := v }
  | .accountDebit v => { e with accountDebit := v }
  | .accountCredit v => { e with accountCredit := v }
  | .amount v => { e with amount := v }
  | .currency v => { e with currency := v }
  | .state v => { e with state := v }
  | .timestamp v => { e with timestamp := v }
  | .previousHash v => { e with previousHash := v }

/-- The edited field is one of the arguments of `compute_hash`. -/
def Edit.hashed : Edit → Bool
  | .tenantId _ | .state _ => false
  | _ => true

@[simp] theorem Edit.apply_hash (e : LedgerEntry) (ed : Edit) : (ed.apply e).hash = e.hash := by
  cases ed <;> rfl

/-- A hashed field that changes changes the payload. -/
theorem Edit.payload_ne {e : LedgerEntry} {ed : Edit} (hh : ed.hashed = true)
    (hne : ed.apply e ≠ e) : (ed.apply e).payload ≠ e.payload := by
  intro hp
  apply hne
  rw [← String.toList_inj] at hp
  obtain ⟨id, traceId, tenantId, debit, credit, amount, currency, state, timestamp, prev, hash⟩ := e
  cases ed with
  | tenantId v => cases hh
  | state v => cases hh
  | timestamp v =>
    have hdigits : Nat.toDigits 10 v.toNat = Nat.toDigits 10 timestamp.toNat := by
      simpa [apply, LedgerEntry.payload, payload] using hp
    have hrepr : v.toNat.repr = timestamp.toNat.repr := by simp [Nat.repr, hdigits]
    simp [apply, UInt64.toNat_inj.1 (Nat.repr_inj.1 hrepr)]
  | _ => simpa [apply, LedgerEntry.payload, payload, String.toList_inj] using hp

theorem Edit.payload_eq {e : LedgerEntry} {ed : Edit} (hh : ed.hashed = false) :
    (ed.apply e).payload = e.payload ∧ (ed.apply e).previousHash = e.previousHash := by
  cases ed with
  | tenantId v => exact ⟨rfl, rfl⟩
  | state v => exact ⟨rfl, rfl⟩
  | _ => cases hh

variable {C : Crates}

/-- Replacing an entry by one that shows the same links and the same validity changes nothing
for `verify_chain`. -/
theorem verifyChain_set {es : List LedgerEntry} {i : Nat} (hi : i < es.length) {e : LedgerEntry}
    (hv : e.verify C = true) (hprev : e.previousHash = es[i].previousHash)
    (hhash : e.hash = es[i].hash) (h : verifyChain C es = true) :
    verifyChain C (es.set i e) = true := by
  obtain ⟨hall, hlink⟩ := verifyChain_iff.1 h
  refine verifyChain_iff.2 ⟨?_, ?_⟩
  · intro x hx
    rcases List.mem_or_eq_of_mem_set hx with hx | rfl
    · exact hall x hx
    · exact hv
  · unfold Linked at hlink ⊢
    rw [List.isChain_iff_getElem] at hlink ⊢
    intro j hj
    have hj' : j + 1 < es.length := by simpa using hj
    have := hlink j hj'
    simp only [List.getElem_set, entryLinks] at this ⊢
    split
    · rename_i hij; subst hij
      split
      · omega
      · rw [hprev]; exact this
    · split
      · rename_i hij; subst hij; rw [hhash]; exact this
      · exact this

/-- **Exactly the edits of hashed fields are detected.** -/
theorem edit_detected_iff (hinj : Function.Injective C.sha256Hex) {es : List LedgerEntry}
    (h : verifyChain C es = true) {i : Nat} (hi : i < es.length) (ed : Edit)
    (hne : ed.apply es[i] ≠ es[i]) :
    verifyChain C (es.set i (ed.apply es[i])) = false ↔ ed.hashed = true := by
  have hvi : es[i].hash = C.sha256Hex es[i].payload :=
    (LedgerEntry.verify_iff C _).1 ((verifyChain_iff.1 h).1 _ (List.getElem_mem hi))
  cases hh : ed.hashed with
  | true =>
    refine ⟨fun _ => rfl, fun _ => Bool.eq_false_iff.2 fun hacc => ?_⟩
    have hmem : ed.apply es[i] ∈ es.set i (ed.apply es[i]) := List.mem_set hi _
    have hve := (LedgerEntry.verify_iff C _).1 ((verifyChain_iff.1 hacc).1 _ hmem)
    rw [Edit.apply_hash, hvi] at hve
    exact Edit.payload_ne hh hne (hinj hve).symm
  | false =>
    obtain ⟨hpay, hprev⟩ := Edit.payload_eq (e := es[i]) hh
    have hve : (ed.apply es[i]).verify C = true := by
      rw [LedgerEntry.verify_iff, Edit.apply_hash, hpay, hvi]
    simp [verifyChain_set hi hve hprev (by simp) h]

/-! ### A digest for concrete runs -/

/-- A collision-free digest that has the value of SHA-256 on `samplePayload`. -/
def samplePayload : String := "GENESIS:led_1:trc_1:cash:eu:revenue:10.00:USD:1700000000"

def sampleDigest : String := "adb0ac5ac8376c321e7c4e9ea8d1cc8a862ad0bbe3f89b70b4d62c68253ff47f"

def sampleCrates : Crates where
  sha256Hex := Equiv.swap samplePayload sampleDigest
  isDecimal s := s == "10.00"

theorem sampleCrates_injective : Function.Injective sampleCrates.sha256Hex :=
  (Equiv.swap samplePayload sampleDigest).injective

def sampleEntry : LedgerEntry where
  id := "led_1"
  traceId := "trc_1"
  tenantId := "org_a"
  accountDebit := "cash:eu"
  accountCredit := "revenue"
  amount := "10.00"
  currency := "USD"
  state := .pending
  timestamp := 1700000000
  previousHash := "GENESIS"
  hash := sampleDigest

theorem sampleEntry_accepted : verifyChain sampleCrates [sampleEntry] = true := by decide

theorem edit_detected_iff_amount :
    verifyChain sampleCrates [{ sampleEntry with amount := "99.00" }] = false ↔
      (Edit.amount "99.00").hashed = true :=
  edit_detected_iff sampleCrates_injective sampleEntry_accepted (i := 0) (by decide)
    (.amount "99.00") (by decide)

/-- An entry moved to another tenant still verifies. -/
theorem tenantId_edit_accepted :
    Function.Injective sampleCrates.sha256Hex ∧ verifyChain sampleCrates [sampleEntry] = true ∧
      (Edit.tenantId "org_b").apply sampleEntry ≠ sampleEntry ∧
      verifyChain sampleCrates [(Edit.tenantId "org_b").apply sampleEntry] = true :=
  ⟨sampleCrates_injective, by decide, by decide, by decide⟩

/-! ## The head hash -/

/-- **The head hash commits to the records exactly up to moved delimiters.** -/
theorem head_commits_iff (hinj : Function.Injective C.sha256Hex) {l m : List LedgerEntry}
    (hl : verifyChain C l = true) (hm : verifyChain C m = true) (hlen : l.length = m.length)
    (hlast : l.getLast?.map LedgerEntry.hash = m.getLast?.map LedgerEntry.hash) :
    List.Forall₂ SameRecord l m ↔ List.Forall₂ SameColons l m := by
  obtain ⟨hvl, hll⟩ := verifyChain_iff.1 hl
  obtain ⟨hvm, hlm⟩ := verifyChain_iff.1 hm
  refine ⟨fun h => h.imp fun _ _ hab => hab.sameColons, fun hc => ?_⟩
  have hR : List.Forall₂ (fun a b => entryLinks.hash a = entryLinks.hash b →
      SameRecord a b ∧ entryLinks.prev a = entryLinks.prev b) l m := by
    rw [List.forall₂_iff_get] at hc ⊢
    refine ⟨hlen, fun i hi hi' hhash => ?_⟩
    have ha := (LedgerEntry.verify_iff C _).1 (hvl _ (List.getElem_mem hi))
    have hb := (LedgerEntry.verify_iff C _).1 (hvm _ (List.getElem_mem hi'))
    have hpay : (l.get ⟨i, hi⟩).payload = (m.get ⟨i, hi'⟩).payload :=
      hinj (ha.symm.trans (hhash.trans hb))
    have hrec := fields_of_payload_eq (hc.2 i hi hi') hpay
    exact ⟨hrec, hrec.previousHash⟩
  exact (commit hll hlm hlast hR).imp fun _ _ hab => hab.2.1

theorem head_commits_iff_self :
    List.Forall₂ SameRecord [sampleEntry] [sampleEntry] ↔
      List.Forall₂ SameColons [sampleEntry] [sampleEntry] :=
  head_commits_iff sampleCrates_injective sampleEntry_accepted sampleEntry_accepted rfl rfl

/-- The same posting with the delimiter of the debit account moved into the credit account. -/
def movedEntry : LedgerEntry :=
  { sampleEntry with accountDebit := "cash", accountCredit := "eu:revenue" }

/-- Two accepted chains with the same head hash that book to different accounts. -/
theorem moved_delimiter_accepted :
    Function.Injective sampleCrates.sha256Hex ∧ verifyChain sampleCrates [sampleEntry] = true ∧
      verifyChain sampleCrates [movedEntry] = true ∧ movedEntry.hash = sampleEntry.hash ∧
      ¬ List.Forall₂ SameRecord [sampleEntry] [movedEntry] := by
  refine ⟨sampleCrates_injective, by decide, by decide, rfl, ?_⟩
  intro h
  cases h with
  | cons h _ => exact absurd h.accountDebit (by decide)

/-! ## Selections of entries -/

theorem drained_anchored (ops : List Op) :
    Anchored entryLinks "GENESIS" (runOps C ops).drained :=
  (runOps_inv ops).anchored.left_of_append

theorem drained_verify (ops : List Op) : ∀ e ∈ (runOps C ops).drained, e.verify C = true :=
  fun e he => (runOps_inv ops).verify e (List.mem_append_left _ he)

/-- Valid entries are accepted exactly if they are linked. -/
theorem verifyChain_iff_linked {entries : List LedgerEntry}
    (h : ∀ e ∈ entries, e.verify C = true) :
    verifyChain C entries = true ↔ Linked entryLinks entries := by
  rw [verifyChain_iff]
  exact and_iff_right h

variable (C) in
/-- **`verify_chain` accepts exactly the contiguous segments of the drained history**, of all
selections in any order.  So an entry missing between two others, or a history in another order,
is detected. -/
theorem verifyChain_iff_segment (ops : List Op)
    (hnodup : ((runOps C ops).drained.map LedgerEntry.hash).Nodup)
    (hgenesis : "GENESIS" ∉ (runOps C ops).drained.map LedgerEntry.hash) :
    (∀ entries ⊆ (runOps C ops).drained,
      verifyChain C entries = true ↔ entries <:+: (runOps C ops).drained) ∧
    (∀ before after : List LedgerEntry, ∀ e, (runOps C ops).drained = before ++ e :: after →
      before ≠ [] → after ≠ [] → verifyChain C (before ++ after) = false) ∧
    ∀ entries, entries.Perm (runOps C ops).drained → verifyChain C entries = true →
      entries = (runOps C ops).drained := by
  have hdistinct : Distinct entryLinks "GENESIS" (runOps C ops).drained := ⟨hnodup, hgenesis⟩
  have hsegment : ∀ entries ⊆ (runOps C ops).drained,
      verifyChain C entries = true ↔ entries <:+: (runOps C ops).drained := by
    intro entries hsub
    rw [verifyChain_iff_linked fun e he => drained_verify ops e (hsub he)]
    exact (drained_anchored ops).linked_iff_segment hdistinct hsub
  refine ⟨hsegment, ?_, ?_⟩
  · intro before after e hall hbefore hafter
    have hsub : before ++ after ⊆ (runOps C ops).drained := by
      rw [hall]
      simp
    rw [Bool.eq_false_iff, ne_eq, hsegment _ hsub, hall]
    exact gap_not_segment (hall ▸ hdistinct.nodup_blocks) hbefore hafter
  · intro entries hperm haccepted
    have hinfix := (hsegment entries hperm.subset).1 haccepted
    exact hinfix.eq_of_length hperm.length_eq

/-- Three postings of one trace. -/
def tracePosting (id : String) : WriteArgs :=
  ⟨id, "trc_1", "org_a", "cash:eu", "revenue", "10.00", "USD"⟩

def traceRun : List Op :=
  [.write (tracePosting "led_1") 1700000000, .flush, .write (tracePosting "led_2") 1700000000,
    .write (tracePosting "led_3") 1700000000, .flush]

def secondDigest : String := "9a150dbf6fd1289db3c440dd7bc0461b2f1f8ec2c781d3851cb6cc14d53970ef"

def thirdDigest : String := "d8101b1d92fba0d73c20a22e6f998b11b42b706bbd9735e185ed0c48bd1e9595"

/-- The values of SHA-256 on the payloads of these postings. -/
def traceCrates : Crates where
  sha256Hex s :=
    let posting (id : String) := ":" ++ id ++ ":trc_1:cash:eu:revenue:10.00:USD:1700000000"
    if s = samplePayload then sampleDigest
    else if s = sampleDigest ++ posting "led_2" then secondDigest
    else if s = secondDigest ++ posting "led_3" then thirdDigest
    else s
  isDecimal s := s == "10.00"

theorem traceRun_hashes : (runOps traceCrates traceRun).drained.map LedgerEntry.hash =
    [sampleDigest, secondDigest, thirdDigest] := by decide

/-- Without the second posting the trace is not accepted. -/
theorem verifyChain_iff_segment_gap : ∃ first second third : LedgerEntry,
    (runOps traceCrates traceRun).drained = [first, second, third] ∧
      verifyChain traceCrates [first, third] = false ∧
      verifyChain traceCrates [second, third] = true := by
  have h := verifyChain_iff_segment traceCrates traceRun
    (by rw [traceRun_hashes]; decide) (by rw [traceRun_hashes]; decide)
  refine ⟨_, _, _, rfl, ?_, ?_⟩
  · exact h.2.1 [_] [_] _ rfl (List.cons_ne_nil _ _) (List.cons_ne_nil _ _)
  · exact (h.1 _ (List.subset_cons_self _ _)).2 ⟨[_], [], rfl⟩

end Intellibiz.Ledger
