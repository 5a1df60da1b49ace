import Intellibiz.Core.Config
import Intellibiz.Finance.Money

/-!
# A configuration that is read again

`defineConfig` hands out the configuration with all defaults filled in
(`packages/core/src/config/validate.ts`, `packages/core/src/config/schema.ts`).  What it has handed
out, it takes again and hands out unchanged, with the same warnings.

* `Ascii` — texts whose upper case is as long as they are.

Principal results: `fixes_IntellibizConfigSchema` (section by section: every default passes the
checks of its own field, and the base currency, which is put into upper case behind its check,
passes it again) and `defineConfig_again`.
-/

namespace Intellibiz.Core

open Schema

/-! ## Sections -/

@[simp] theorem minLength_eq_none {n : ℕ} {s : String} :
    minLength n s = none ↔ n ≤ utf16Length s := by
  simp [minLength]

@[simp] theorem positive_eq_none {q : ℚ} : positive q = none ↔ 0 < q := by
  simp [positive]

@[simp] theorem nonnegative_eq_none {q : ℚ} : nonnegative q = none ↔ 0 ≤ q := by
  simp [nonnegative]

@[simp] theorem atMostOne_eq_none {q : ℚ} : atMostOne q = none ↔ q ≤ 1 := by
  simp [atMostOne]

theorem stable_TenancySchema : Stable TenancySchema :=
  stable_object (by simp) (by simp [utf16Length])

theorem stable_AuthSchema : Stable AuthSchema := stable_object (by simp) (by simp)

@[simp] theorem int_eq_none {q : ℚ} :
    int q = none ↔ q.den = 1 ∧ -(2 ^ 53 - 1) ≤ q ∧ q ≤ 2 ^ 53 - 1 := by
  unfold int
  split_ifs with hden hlower hupper
  · exact iff_of_false nofun fun h => hden h.1
  · exact iff_of_false nofun fun h => not_le.2 hlower h.2.1
  · exact iff_of_false nofun fun h => not_le.2 hupper h.2.2
  · exact iff_of_true rfl ⟨not_not.1 hden, not_lt.1 hlower, not_lt.1 hupper⟩

theorem stable_CommerceSchema : Stable CommerceSchema := by
  have hledger : Stable (object [
      ("mode", (enum ["atomic", "background"]).withDefault (.str "atomic"))]) :=
    stable_object (by simp) (by simp)
  have hdedup : Stable (object [
      ("provider", (enum ["memory", "redis"]).withDefault (.str "memory")),
      ("ttlHours", (number [int, positive]).withDefault (.num 24))]) :=
    stable_object (by simp) (by norm_num)
  exact stable_object (by simp) (by simp [hledger, hdedup])

theorem stable_LedgerSchema : Stable LedgerSchema := by
  have hretention : retentionFormat "7y" = none := by decide
  exact stable_object (by simp) (by simp [hretention])

theorem stable_GovernanceSchema : Stable GovernanceSchema := stable_object (by simp) (by simp)

theorem stable_EnvironmentSchema : Stable EnvironmentSchema := stable_object (by simp) (by simp)

theorem stable_EventBusSchema : Stable EventBusSchema := stable_object (by simp) (by norm_num)

theorem stable_InventorySchema : Stable InventorySchema := stable_object (by simp) (by norm_num)

theorem stable_OverridesSchema : Stable OverridesSchema := stable_object (by simp) (by simp)

section Address

variable {readUrl : String → Option String} (hurl : ∀ s t, readUrl s = some t → readUrl t = some t)

include hurl

theorem stable_url : Stable (url readUrl) := by
  refine ⟨fun v w hw => ?_, fun v w hw => ?_⟩
  · unfold url at hw
    split at hw
    · split at hw
      · rename_i t ht
        cases hw
        simp [url, hurl _ t ht]
      · cases hw
    · cases hw
  · unfold url at hw
    split at hw
    · split at hw
      · cases hw
        exact ⟨_, rfl⟩
      · cases hw
    · cases hw

theorem stable_DatabaseSchema : Stable (DatabaseSchema readUrl) := by
  have hpool : Stable (object [
      ("min", (number [int, nonnegative]).withDefault (.num 2)),
      ("max", (number [int, positive]).withDefault (.num 10))]) :=
    stable_object (by simp) (by norm_num)
  refine stable_object (by simp) ?_
  simp only [List.forall_mem_cons, stable_optional (stable_url hurl), stable_optional hpool]
  norm_num

end Address

/-! ## The base currency -/

def Ascii (s : String) : Prop := ∀ c ∈ s.toList, c.toNat < 128

theorem upperChar_ascii {c : Char} (h : c.toNat < 128) : Db.upperChar c = [c.toUpper] := by
  unfold Db.upperChar
  split <;> first | rfl | exact absurd h (by decide)

theorem toUpper_lt {c : Char} (h : c.toNat < 128) : c.toUpper.toNat < 0x10000 := by
  by_cases hlower : c.isLower = true
  · have hupper : c.toUpper.isUpper = true := by
      rw [Char.isUpper_toUpper_eq_isAlpha, Char.isAlpha, hlower, Bool.or_true]
    simp only [Char.isUpper, ge_iff_le, decide_eq_true_eq] at hupper
    have hle : c.toUpper.val.toNat ≤ 'Z'.val.toNat := hupper.2
    exact lt_of_le_of_lt hle (by decide)
  · rw [Char.toUpper_eq_of_not_isLower hlower]
    omega

/-- The upper case of an ASCII text is as long as the text. -/
theorem utf16Length_upperCase {s : String} (h : Ascii s) :
    utf16Length (upperCase s) = utf16Length s := by
  have hlist : ∀ l : List Char, (∀ c ∈ l, c.toNat < 128) →
      ((Db.toUpperCase l).map fun c => if c.toNat < 0x10000 then 1 else 2).sum =
        (l.map fun c => if c.toNat < 0x10000 then 1 else 2).sum := by
    intro l hl
    induction l with
    | nil => rfl
    | cons c l ih =>
      have hc : c.toNat < 128 := hl c List.mem_cons_self
      have hsmall : c.toNat < 0x10000 := by omega
      have htail := ih fun d hd => hl d (List.mem_cons_of_mem _ hd)
      unfold Db.toUpperCase at htail ⊢
      rw [List.flatMap_cons, upperChar_ascii hc, List.map_append, List.sum_append, htail]
      simp [toUpper_lt hc, hsmall]
  unfold utf16Length upperCase
  rw [String.toList_ofList]
  exact hlist s.toList h

theorem upperCase_again (s : String) : upperCase (upperCase s) = upperCase s :=
  Finance.upperCase_upperCase s

theorem hasLength_eq_none {n : ℕ} {s : String} : hasLength n s = none ↔ utf16Length s = n := by
  unfold hasLength
  split_ifs <;> simp <;> omega

/-- **The base currency is read again** although its check stands in front of the upper case. -/
theorem fixes_baseCurrency {v : Option Value} (h : ∀ s, v = some (.str s) → Ascii s) :
    Fixes ((string [hasLength 3]).mapString upperCase) v := by
  intro w hw
  unfold Reader.mapString at hw
  cases hread : string [hasLength 3] v with
  | error issues => rw [hread] at hw; cases hw
  | ok u =>
    rw [hread] at hw
    cases v with
    | none => cases hread
    | some v =>
      cases v with
      | str s =>
        have hlength := accepts_string_iff.1 ⟨u, hread⟩ (hasLength 3) (by simp)
        obtain rfl : u = some (.str s) := checked_eq hread
        cases hw
        have hagain : ∀ check ∈ [hasLength 3], check (upperCase s) = none := by
          rw [List.forall_mem_singleton, hasLength_eq_none, utf16Length_upperCase (h s rfl)]
          exact hasLength_eq_none.1 hlength
        unfold Reader.mapString
        rw [reads_string.2 hagain]
        simp only [Except.map, upperCase_again]
      | _ => cases hread

theorem fixes_FinanceSchema {v : Option Value}
    (h : ∀ s, prop v "baseCurrency" = some (.str s) → Ascii s) : Fixes FinanceSchema v := by
  have htaxation : Stable (object [
      ("provider", (enum ["internal", "external"]).withDefault (.str "internal")),
      ("autoCalculate", boolean.withDefault (.bool true))]) :=
    stable_object (by simp) (by simp)
  have hrates : Stable (object [
      ("provider", (enum ["internal", "openexchangerates", "fixer"]).withDefault
        (.str "internal")),
      ("syncInterval", (enum ["hourly", "daily", "manual"]).withDefault (.str "hourly"))]) :=
    stable_object (by simp) (by simp)
  have hrounding : Stable ((enum ["bankers", "half-up", "truncate"]).withDefault
      (.str "bankers")) := by
    simp
  refine fixes_object (by simp) ?_
  simp only [List.forall_mem_cons]
  exact ⟨fixes_baseCurrency h, hrounding.fixes _, (stable_optional htaxation).fixes _,
    (stable_optional hrates).fixes _, by simp⟩

/-! ## The whole configuration -/

variable {readUrl : String → Option String} {env : Env} {config : Value}

theorem fixes_IntellibizConfigSchema (hurl : ∀ s t, readUrl s = some t → readUrl t = some t)
    (hascii : ∀ s, prop (prop (some config) "finance") "baseCurrency" = some (.str s) → Ascii s) :
    Fixes (IntellibizConfigSchema readUrl) (some config) := by
  have htaxation : Stable (object [
      ("provider", (enum ["internal", "external"]).withDefault (.str "internal")),
      ("defaultRate", (number [nonnegative, atMostOne]).withDefault (.num 0))]) :=
    stable_object (by simp) (by simp)
  refine fixes_object nodup_configShape ?_
  simp only [configShape, List.forall_mem_cons]
  exact ⟨(stable_optional (stable_array (stable_enum _))).fixes _,
    (stable_optional stable_TenancySchema).fixes _, (stable_optional stable_AuthSchema).fixes _,
    fixes_optional (fixes_FinanceSchema hascii), (stable_optional stable_CommerceSchema).fixes _,
    (stable_optional stable_LedgerSchema).fixes _,
    (stable_optional stable_GovernanceSchema).fixes _,
    (stable_optional (stable_DatabaseSchema hurl)).fixes _,
    (stable_optional stable_InventorySchema).fixes _,
    (stable_optional stable_EnvironmentSchema).fixes _,
    (stable_optional stable_EventBusSchema).fixes _, (stable_optional htaxation).fixes _,
    (stable_optional (stable_array stable_any)).fixes _,
    (stable_optional stable_OverridesSchema).fixes _, by simp⟩

/-- **A resolved configuration resolves to itself**: what `defineConfig` hands out passes both
passes again, is handed out unchanged, and is warned of in the same way.  The base currency is an
ASCII text here, as every currency code is, and reading an address that has been read changes
nothing. -/
theorem defineConfig_again (hurl : ∀ s t, readUrl s = some t → readUrl t = some t)
    (hascii : ∀ s, prop (prop (some config) "finance") "baseCurrency" = some (.str s) → Ascii s)
    {defined : Defined} (h : defineConfig readUrl env config = .ok defined) :
    ∃ resolved, defined.config = some resolved ∧
      defineConfig readUrl env resolved = .ok defined := by
  unfold defineConfig at h
  cases hread : IntellibizConfigSchema readUrl (some config) with
  | error issues => rw [hread] at h; cases h
  | ok read =>
    rw [hread] at h
    obtain ⟨resolved, rfl⟩ := eq_obj_of_object hread
    have hagain := fixes_IntellibizConfigSchema hurl hascii _ hread
    cases hfind : DEPENDENCY_RULES.find? fun rule => rule.isViolated env (some (.obj resolved)) with
    | some rule => simp only [hfind] at h; cases h
    | none =>
      simp only [hfind] at h
      cases h
      refine ⟨.obj resolved, rfl, ?_⟩
      unfold defineConfig
      rw [hagain]
      simp only [hfind]

/-- A configuration with few of its fields; its address is one that is handed on as it is. -/
def shopConfig : Value :=
  .obj [("tenancy", .obj [("strategy", .str "column")]),
    ("finance", .obj [("baseCurrency", .str "zar")]),
    ("database", .obj [("url", .str "postgres://localhost/shop")]),
    ("commerce", .obj [("webhookDedup", .obj [])])]

theorem defineConfig_again_shopConfig :
    ∃ defined resolved, defineConfig some (fun _ => none) shopConfig = .ok defined ∧
      defined.config = some resolved ∧
      prop (prop (some resolved) "finance") "baseCurrency" = some (.str "ZAR") ∧
      defineConfig some (fun _ => none) resolved = .ok defined := by
  have hcurrency : prop (prop (some shopConfig) "finance") "baseCurrency" = some (.str "zar") := rfl
  have hascii : ∀ s, prop (prop (some shopConfig) "finance") "baseCurrency" = some (.str s) →
      Ascii s := by
    intro s hs
    rw [hcurrency] at hs
    cases hs
    simp [Ascii]
  cases h : defineConfig some (fun _ => none) shopConfig with
  | error err => cases h
  | ok defined =>
    obtain ⟨resolved, hresolved, hagain⟩ := defineConfig_again (fun _ _ _ => rfl) hascii h
    refine ⟨defined, resolved, rfl, hresolved, ?_, hagain⟩
    cases h
    cases hresolved
    rfl

end Intellibiz.Core
