import Mathlib.Algebra.Group.Nat.Defs
import Mathlib.Data.Nat.Init
import Intellibiz.Machine
import Intellibiz.Commerce.Transaction

/-!
# License keys of several transactions

Any number of transactions run beside each other on one clock, each issuing any number of licenses.
A key holds the last eight characters of the journal id of its transaction, an id the clock.

* `Start` — what a transaction starts from.
* `Desk` / `licenses` — the transactions, with the licenses they returned.
* `Start.keyPart` — what of its start the keys of a transaction show.

Principal results: `lastDigits_inj` and `exists_toDigits_eq` (the last digits of a number),
`licenseKey_eq_iff`, and `distinct_iff`.
-/

namespace Intellibiz.Commerce

/-! ## The last digits of a number -/

/-- The last `k` decimal digits, zeros included. -/
def lastDigits : Nat → Nat → List Char
  | 0, _ => []
  | k + 1, n => lastDigits k (n / 10) ++ [Nat.digitChar (n % 10)]

@[simp] theorem length_lastDigits (k n : Nat) : (lastDigits k n).length = k := by
  induction k generalizing n with
  | zero => rfl
  | succ k ih => simp [lastDigits, ih]

theorem isDigit_of_mem_lastDigits {k n : Nat} {c : Char} (h : c ∈ lastDigits k n) :
    c.isDigit = true := by
  induction k generalizing n with
  | zero => cases h
  | succ k ih =>
    rcases List.mem_append.1 h with h | h
    · exact ih h
    · rw [List.mem_singleton.1 h, Nat.isDigit_digitChar]
      exact decide_eq_true (Nat.mod_lt n (by omega))

theorem digitChar_inj {m n : Nat} (hm : m < 10) (hn : n < 10)
    (h : Nat.digitChar m = Nat.digitChar n) : m = n := by
  have hall : ∀ m < 10, ∀ n < 10, Nat.digitChar m = Nat.digitChar n → m = n := by decide
  exact hall m hm n hn h

theorem lastDigits_inj {k m n : Nat} :
    lastDigits k m = lastDigits k n ↔ m % 10 ^ k = n % 10 ^ k := by
  induction k generalizing m n with
  | zero => simp [lastDigits, Nat.mod_one]
  | succ k ih =>
    have hm := Nat.mod_lt m (show 10 > 0 by omega)
    have hn := Nat.mod_lt n (show 10 > 0 by omega)
    rw [lastDigits, lastDigits, Nat.pow_succ', Nat.mod_mul, Nat.mod_mul]
    constructor
    · intro h
      obtain ⟨hhigh, hlow⟩ := List.append_inj' h rfl
      have hdigit := digitChar_inj hm hn (List.singleton_inj.1 hlow)
      rw [ih.1 hhigh, hdigit]
    · intro h
      have hlow : m % 10 = n % 10 := by omega
      have hhigh : m / 10 % 10 ^ k = n / 10 % 10 ^ k := by omega
      rw [ih.2 hhigh, hlow]

/-- A number of more than `k` digits ends in its last `k + 1` digits. -/
theorem exists_toDigits_eq {k n : Nat} (h : 10 ^ k ≤ n) :
    ∃ high, Nat.toDigits 10 n = high ++ lastDigits (k + 1) n := by
  induction k generalizing n with
  | zero =>
    by_cases hlt : n < 10
    · refine ⟨[], ?_⟩
      rw [Nat.toDigits_of_lt_base hlt]
      simp [lastDigits, Nat.mod_eq_of_lt hlt]
    · refine ⟨Nat.toDigits 10 (n / 10), ?_⟩
      rw [Nat.toDigits_of_base_le (by omega) (by omega)]
      rfl
  | succ k ih =>
    have hle : 10 ^ k ≤ n / 10 := by
      rw [Nat.le_div_iff_mul_le (by omega), ← Nat.pow_succ]
      exact h
    have hpos : 0 < 10 ^ k := Nat.pow_pos (by omega)
    obtain ⟨high, hhigh⟩ := ih hle
    refine ⟨high, ?_⟩
    rw [Nat.toDigits_of_base_le (by omega) (by omega), hhigh, List.append_assoc]
    rfl

/-! ## Runs -/

structure Start where
  tenantId : String
  traceId : String
  now : Nat
  deriving DecidableEq

def Start.journalId (s : Start) : String :=
  "ibiz_txn_" ++ s.tenantId ++ "_" ++ s.traceId ++ "_" ++ toString s.now

/-- A returned license, with the start of its transaction and the clock reading of its id. -/
structure IssuedLicense where
  start : Start
  now : Nat
  result : LicenseResult
  deriving DecidableEq

structure Desk (σ Params Err : Type) where
  world : World σ Params Err
  transactions : List (Start × Txn)
  issued : List IssuedLicense

inductive LicenseEvent where
  | start (tenantId traceId : String)
  | issue (k : Nat) (params : LicenseIssueParams)
  | grant (k : Nat) (params : LicenseIssueParams)

section Runs

variable {σ Params Err : Type}

/-- A call of transaction `k` that returns a license. -/
def Desk.license (s : Desk σ Params Err) (k : Nat)
    (call : Txn → World σ Params Err → LicenseResult × Txn × World σ Params Err) :
    Option (Desk σ Params Err) :=
  s.transactions[k]?.map fun (start, t) =>
    let (result, t, world) := call t s.world
    { world
      transactions := s.transactions.set k (start, t)
      issued := s.issued ++ [⟨start, s.world.dateNow.1, result⟩] }

def Desk.step (s : Desk σ Params Err) : LicenseEvent → Option (Desk σ Params Err)
  | .start tenantId traceId =>
    let (t, world) := Txn.start tenantId traceId s.world
    some { s with
      world
      transactions := s.transactions ++ [(⟨tenantId, traceId, s.world.dateNow.1⟩, t)] }
  | .issue k params => s.license k (issue params)
  | .grant k params => s.license k (grant params)

/-- All transactions of a process, from a world with any clock. -/
def licenses (w : World σ Params Err) : Machine (Desk σ Params Err) LicenseEvent where
  init := ⟨w, [], []⟩
  step := Desk.step

/-- The keys and ids are what the starts and the clock say. -/
structure DeskInv (s : Desk σ Params Err) : Prop where
  journal : ∀ x ∈ s.transactions, x.2.journalId = x.1.journalId
  key : ∀ x ∈ s.issued, x.result.key = licenseKey x.start.journalId
  id : ∀ x ∈ s.issued, x.result.id = "ibiz_lic_" ++ toString x.now

theorem DeskInv.license {s s' : Desk σ Params Err} (hs : DeskInv s) {k : Nat}
    {params : LicenseIssueParams} (h : s.license k (issue params) = some s') : DeskInv s' := by
  obtain ⟨⟨start, t⟩, hk, rfl⟩ := Option.map_eq_some_iff.1 h
  have hjournal := hs.journal _ (List.mem_of_getElem? hk)
  refine ⟨?_, ?_, ?_⟩
  · intro x hx
    rcases List.mem_or_eq_of_mem_set hx with hx | rfl
    · exact hs.journal x hx
    · exact hjournal
  · intro x hx
    rcases List.mem_append.1 hx with hx | hx
    · exact hs.key x hx
    · rw [List.mem_singleton.1 hx]
      show licenseKey t.journalId = licenseKey start.journalId
      rw [hjournal]
  · intro x hx
    rcases List.mem_append.1 hx with hx | hx
    · exact hs.id x hx
    · rw [List.mem_singleton.1 hx]
      rfl

theorem DeskInv.step {s s' : Desk σ Params Err} (hs : DeskInv s) {e : LicenseEvent}
    (h : s.step e = some s') : DeskInv s' := by
  cases e with
  | start tenantId traceId =>
    cases h
    refine ⟨?_, hs.key, hs.id⟩
    intro x hx
    rcases List.mem_append.1 hx with hx | hx
    · exact hs.journal x hx
    · rw [List.mem_singleton.1 hx]
      rfl
  | issue k params => exact hs.license h
  | grant k params => exact hs.license h

theorem run_deskInv {w : World σ Params Err} {es : List LicenseEvent} {s : Desk σ Params Err}
    (hrun : (licenses w).run es = some s) : DeskInv s := by
  refine Machine.run_induction (M := licenses w) (P := fun _ s => DeskInv s) ?_ ?_ hrun
  · refine ⟨?_, ?_, ?_⟩ <;> simp [licenses]
  · intro _ s e s' _ hs h
    exact hs.step h

end Runs

/-! ## Keys -/

/-- `journalId.slice(-8).toUpperCase()` -/
def lastEight (journalId : String) : String :=
  (String.ofList (journalId.toList.drop (journalId.length - 8))).toUpper

/-- What the keys of a transaction show of its start: the clock modulo 28 hours, or the end of the
journal id while the clock has less than eight digits. -/
def Start.keyPart (s : Start) : Nat ⊕ String :=
  if 10 ^ 7 ≤ s.now then .inl (s.now % 10 ^ 8) else .inr (lastEight s.journalId)

theorem licenseKey_inj {a b : String} : licenseKey a = licenseKey b ↔ lastEight a = lastEight b := by
  constructor
  · intro h
    have hlist := congrArg String.toList h
    unfold licenseKey at hlist
    rw [String.toList_append, String.toList_append] at hlist
    exact String.toList_inj.1 (List.append_cancel_left hlist)
  · intro h
    show "LIC-" ++ lastEight a = "LIC-" ++ lastEight b
    rw [h]

theorem journalId_toList (s : Start) :
    ∃ front, s.journalId.toList = front ++ '_' :: Nat.toDigits 10 s.now ∧ 8 ≤ front.length := by
  refine ⟨"ibiz_txn_".toList ++ s.tenantId.toList ++ '_' :: s.traceId.toList, ?_, ?_⟩
  · simp [Start.journalId]
  · simp

theorem lastEight_toList (a : String) :
    (lastEight a).toList = (a.toList.drop (a.toList.length - 8)).map Char.toUpper := by
  rw [lastEight, ← String.length_toList]
  simp [String.toUpper]

theorem toUpper_of_isDigit {c : Char} (h : c.isDigit = true) : c.toUpper = c := by
  simp only [Char.isDigit, Bool.and_eq_true, decide_eq_true_eq] at h
  unfold Char.toUpper
  apply dif_neg
  rintro ⟨hlow, -⟩
  exact absurd (UInt32.le_trans hlow h.2) (by decide)

/-- A clock of eight digits is all a key shows. -/
theorem lastEight_of_le {s : Start} (h : 10 ^ 7 ≤ s.now) :
    (lastEight s.journalId).toList = lastDigits 8 s.now := by
  obtain ⟨front, hfront, -⟩ := journalId_toList s
  obtain ⟨high, hhigh⟩ := exists_toDigits_eq h
  have hsplit : s.journalId.toList = (front ++ '_' :: high) ++ lastDigits 8 s.now := by
    rw [hfront, hhigh]
    simp
  have hlen : s.journalId.toList.length - 8 = (front ++ '_' :: high).length := by
    rw [hsplit, List.length_append, length_lastDigits]
    omega
  rw [lastEight_toList, hlen, hsplit, List.drop_left]
  calc (lastDigits 8 s.now).map Char.toUpper
      = (lastDigits 8 s.now).map id :=
        List.map_congr_left fun c hc => toUpper_of_isDigit (isDigit_of_mem_lastDigits hc)
    _ = lastDigits 8 s.now := List.map_id _

/-- A shorter clock leaves the separator in front of it in the key. -/
theorem underscore_mem_lastEight {s : Start} (h : s.now < 10 ^ 7) :
    '_' ∈ (lastEight s.journalId).toList := by
  obtain ⟨front, hfront, hlen⟩ := journalId_toList s
  have hdigits : (Nat.toDigits 10 s.now).length ≤ 7 :=
    (Nat.length_toDigits_le_iff (by omega) (by omega)).2 h
  have hle : s.journalId.toList.length - 8 ≤ front.length := by
    rw [hfront, List.length_append, List.length_cons]
    omega
  rw [lastEight_toList, hfront, List.drop_append_of_le_length (by rw [← hfront]; exact hle)]
  apply List.mem_map.2
  exact ⟨'_', by simp, by decide⟩

theorem licenseKey_eq_iff {a b : Start} :
    licenseKey a.journalId = licenseKey b.journalId ↔ a.keyPart = b.keyPart := by
  have hdiffer : ∀ {x y : Start}, 10 ^ 7 ≤ x.now → y.now < 10 ^ 7 →
      lastEight x.journalId ≠ lastEight y.journalId := by
    intro x y hx hy heq
    have hmem := underscore_mem_lastEight hy
    rw [← heq, lastEight_of_le hx] at hmem
    exact absurd (isDigit_of_mem_lastDigits hmem) (by decide)
  rw [licenseKey_inj]
  unfold Start.keyPart
  split
  · rename_i ha
    split
    · rename_i hb
      rw [← String.toList_inj, lastEight_of_le ha, lastEight_of_le hb, lastDigits_inj,
        Sum.inl.injEq]
    · rename_i hb
      exact iff_of_false (hdiffer ha (by omega)) (by simp)
  · rename_i ha
    split
    · rename_i hb
      exact iff_of_false (hdiffer hb (by omega)).symm (by simp)
    · rw [Sum.inr.injEq]

theorem licenseId_inj {m n : Nat} :
    "ibiz_lic_" ++ toString m = "ibiz_lic_" ++ toString n ↔ m = n := by
  constructor
  · intro h
    have hlist := congrArg String.toList h
    rw [String.toList_append, String.toList_append] at hlist
    have hdigits : Nat.toDigits 10 m = Nat.toDigits 10 n := by
      simpa using List.append_cancel_left hlist
    have hread := congrArg (fun ds => Nat.ofDigitChars 10 ds 0) hdigits
    simpa using hread
  · rintro rfl
    rfl

/-- **Keys and ids are distinct exactly when no two licenses share the part of a start that keys
show or a clock reading**; in particular no transaction issues two. -/
theorem distinct_iff {σ Params Err : Type} {w : World σ Params Err} {es : List LicenseEvent}
    {s : Desk σ Params Err} (hrun : (licenses w).run es = some s) :
    (s.issued.Pairwise fun x y => x.result.key ≠ y.result.key ∧ x.result.id ≠ y.result.id) ↔
      s.issued.Pairwise fun x y => x.start.keyPart ≠ y.start.keyPart ∧ x.now ≠ y.now := by
  have hinv := run_deskInv hrun
  apply List.Pairwise.iff_of_mem
  intro x y hx hy
  rw [hinv.key x hx, hinv.key y hy, hinv.id x hx, hinv.id y hy, Ne, licenseKey_eq_iff, Ne,
    licenseId_inj]

/-! ### Concrete runs -/

/-- Two tenants, a license each. -/
def twoTenantsRun : List LicenseEvent :=
  [.start "org_a" "trc_1", .start "org_b" "trc_2", .issue 0 ⟨"pro", none⟩, .grant 1 ⟨"pro", none⟩]

theorem distinct_iff_twoTenantsRun :
    ∃ s, (licenses sampleWorld).run twoTenantsRun = some s ∧ s.issued.length = 2 ∧
      s.issued.Pairwise fun x y => x.result.key ≠ y.result.key ∧ x.result.id ≠ y.result.id := by
  have hrun : (licenses sampleWorld).run twoTenantsRun = some _ := rfl
  exact ⟨_, hrun, rfl, (distinct_iff hrun).2 (by decide)⟩

/-- Two licenses of one transaction. -/
def twoLicensesRun : List LicenseEvent :=
  [.start "org_a" "trc_1", .issue 0 ⟨"pro", none⟩, .issue 0 ⟨"team", none⟩]

theorem twoLicensesRun_same_key :
    ∃ s, (licenses sampleWorld).run twoLicensesRun = some s ∧
      s.issued.map (fun x => x.result.key) = ["LIC-00000000", "LIC-00000000"] ∧
      ¬ s.issued.Pairwise fun x y => x.result.key ≠ y.result.key ∧ x.result.id ≠ y.result.id := by
  have hrun : (licenses sampleWorld).run twoLicensesRun = some _ := rfl
  refine ⟨_, hrun, by decide +kernel, ?_⟩
  rw [List.pairwise_iff_getElem]
  intro hdistinct
  exact (hdistinct 0 1 (by decide) (by decide) (by decide)).1 (by decide +kernel)

end Intellibiz.Commerce
