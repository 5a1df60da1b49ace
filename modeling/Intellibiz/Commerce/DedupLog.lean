import Intellibiz.Commerce.Webhook
import Intellibiz.Finance.Finite

/-!
# The dedup cache and the log of marks

Model of `packages/commerce/src/webhooks/dedup.ts` with lifetimes of any value: a lifetime and an
expiry are JavaScript numbers, which may be fractions, negative, infinite or NaN, and a clock
reading is an integer.

* `evictExpired` / `isDuplicate` / `markProcessed` / `clearWebhookCache` — the cache.
* `Call` / `cacheAfter` — a sequence of calls; `readings` are the clock readings they make.
* `lastMark` — the log: the most recent mark of an id since the last clear.
* `Logged` — what the cache still has of the log.

Principal results: `cacheAfter_logged`, `isDuplicate_iff_log` and `markProcessed_natural` (the
default lifetime).
-/

namespace Intellibiz.Commerce.Dedup

open Extended Finance

/-! ## The cache -/

structure CacheEntry where
  processedAt : ℤ
  expiresAt : Extended
  deriving DecidableEq

abbrev Cache := JsMap String CacheEntry

def evictExpired (now : ℤ) (cache : Cache) : Cache :=
  cache.filter fun _ entry => !decide (entry.expiresAt < finite now)

/-- `evictAt` is the reading inside `evictExpired`, `now` the one of the comparison. -/
def isDuplicate (eventId : String) (evictAt now : ℤ) (cache : Cache) : Bool × Cache :=
  let cache := evictExpired evictAt cache
  match cache.get (cacheKey eventId) with
  | none => (false, cache)
  | some entry => (decide (finite now < entry.expiresAt), cache)

def markProcessed (eventId : String) (ttlMs : Extended) (now : ℤ) (cache : Cache) : Cache :=
  cache.set (cacheKey eventId) ⟨now, numbers.add (finite now) ttlMs⟩

def clearWebhookCache (_ : Cache) : Cache := .empty

/-! ## Calls -/

inductive Call where
  | markProcessed (eventId : String) (ttlMs : Extended) (now : ℤ)
  | isDuplicate (eventId : String) (evictAt now : ℤ)
  | clearWebhookCache

def Call.apply (cache : Cache) : Call → Cache
  | .markProcessed eventId ttlMs now => Dedup.markProcessed eventId ttlMs now cache
  | .isDuplicate eventId evictAt now => (Dedup.isDuplicate eventId evictAt now cache).2
  | .clearWebhookCache => Dedup.clearWebhookCache cache

def cacheAfter (calls : List Call) : Cache := calls.foldl Call.apply .empty

/-- The clock readings of a call, in order. -/
def Call.readings : Call → List ℤ
  | .markProcessed _ _ now => [now]
  | .isDuplicate _ evictAt now => [evictAt, now]
  | .clearWebhookCache => []

def readings (calls : List Call) : List ℤ := calls.flatMap Call.readings

/-! ## The log -/

/-- What a call does to the most recent mark of an id: its time and its lifetime. -/
def Call.mark (eventId : String) (last : Option (ℤ × Extended)) : Call → Option (ℤ × Extended)
  | .markProcessed other ttlMs now => if other = eventId then some (now, ttlMs) else last
  | .isDuplicate _ _ _ => last
  | .clearWebhookCache => none

/-- The most recent mark of an id since the last clear. -/
def lastMark (eventId : String) (calls : List Call) : Option (ℤ × Extended) :=
  calls.foldl (Call.mark eventId) none

theorem cacheAfter_snoc (calls : List Call) (call : Call) :
    cacheAfter (calls ++ [call]) = call.apply (cacheAfter calls) := by
  simp [cacheAfter, List.foldl_append]

theorem lastMark_snoc (eventId : String) (calls : List Call) (call : Call) :
    lastMark eventId (calls ++ [call]) = call.mark eventId (lastMark eventId calls) := by
  simp [lastMark, List.foldl_append]

theorem readings_snoc (calls : List Call) (call : Call) :
    readings (calls ++ [call]) = readings calls ++ call.readings := by
  simp [readings]

theorem isDuplicate_cache (eventId : String) (evictAt now : ℤ) (cache : Cache) :
    (isDuplicate eventId evictAt now cache).2 = evictExpired evictAt cache := by
  unfold isDuplicate
  dsimp only
  split <;> rfl

theorem get_evictExpired (now : ℤ) (cache : Cache) (key : String) :
    (evictExpired now cache).get key =
      (cache.get key).filter fun entry => !decide (entry.expiresAt < finite now) := by
  ext entry
  rw [evictExpired, JsMap.get_filter_eq_some, Option.filter_eq_some_iff]

/-- The entry of a mark. -/
def entryOf (mark : ℤ × Extended) : CacheEntry := ⟨mark.1, numbers.add (finite mark.1) mark.2⟩

/-- What the cache has for an id: the entry of its most recent mark, unless that expired before
one of the readings. -/
def Logged (readings : List ℤ) (last : Option (ℤ × Extended)) (found : Option CacheEntry) : Prop :=
  found = last.map entryOf ∨
    found = none ∧ ∃ mark ∈ last, ∃ r ∈ readings, (entryOf mark).expiresAt < finite r

theorem Logged.mono {rs rs' : List ℤ} {last : Option (ℤ × Extended)} {found : Option CacheEntry}
    (h : Logged rs last found) (hsub : rs ⊆ rs') : Logged rs' last found := by
  rcases h with h | ⟨h, mark, hmark, r, hr, hexpired⟩
  · exact .inl h
  · exact .inr ⟨h, mark, hmark, r, hsub hr, hexpired⟩

/-- An eviction at a reading takes expired entries only. -/
theorem Logged.evict {rs : List ℤ} {last : Option (ℤ × Extended)} {found : Option CacheEntry}
    (h : Logged rs last found) {now : ℤ} (hnow : now ∈ rs) :
    Logged rs last (found.filter fun entry => !decide (entry.expiresAt < finite now)) := by
  rcases h with rfl | ⟨rfl, hexpired⟩
  · cases last with
    | none => exact .inl rfl
    | some mark =>
      rw [Option.map_some]
      by_cases hmark : (entryOf mark).expiresAt < finite now
      · exact .inr ⟨by simp [hmark], mark, rfl, now, hnow, hmark⟩
      · exact .inl (by simp [hmark])
  · exact .inr ⟨rfl, hexpired⟩

/-- **The cache after any calls** has of each id what the log says. -/
theorem cacheAfter_logged (eventId : String) (calls : List Call) :
    Logged (readings calls) (lastMark eventId calls)
      ((cacheAfter calls).get (cacheKey eventId)) := by
  induction calls using List.reverseRecOn with
  | nil => exact .inl rfl
  | append_singleton calls call ih =>
    rw [cacheAfter_snoc, lastMark_snoc, readings_snoc]
    have ih := ih.mono (List.subset_append_left (readings calls) call.readings)
    cases call with
    | markProcessed other ttlMs now =>
      show Logged _ (if other = eventId then some (now, ttlMs) else lastMark eventId calls)
        ((markProcessed other ttlMs now (cacheAfter calls)).get (cacheKey eventId))
      rw [markProcessed, JsMap.get_set]
      by_cases heq : other = eventId
      · rw [if_pos heq, if_pos (congrArg cacheKey heq.symm)]
        exact .inl rfl
      · rw [if_neg heq, if_neg fun h => heq (cacheKey_inj h).symm]
        exact ih
    | isDuplicate other evictAt now =>
      show Logged _ (lastMark eventId calls)
        ((isDuplicate other evictAt now (cacheAfter calls)).2.get (cacheKey eventId))
      rw [isDuplicate_cache, get_evictExpired]
      exact ih.evict (by simp [Call.readings])
    | clearWebhookCache => exact .inl rfl

/-! ## The answer -/

/-- A lookup at `now` finds a mark that has not expired by then. -/
def Alive (eventId : String) (calls : List Call) (now : ℤ) : Prop :=
  ∃ t ttlMs, lastMark eventId calls = some (t, ttlMs) ∧
    finite now < numbers.add (finite t) ttlMs

theorem isDuplicate_iff_alive (eventId : String) {calls : List Call} {evictAt now : ℤ}
    (hclock : ∀ r ∈ readings calls, r ≤ now) (hnow : evictAt ≤ now) :
    (isDuplicate eventId evictAt now (cacheAfter calls)).1 = true ↔ Alive eventId calls now := by
  have hlogged := (cacheAfter_logged eventId calls).mono
    (List.subset_append_left (readings calls) [evictAt])
  have hevicted := hlogged.evict
    (List.mem_append_right (readings calls) (List.mem_singleton_self evictAt))
  rw [← get_evictExpired] at hevicted
  -- what expired before a reading is not alive now
  have hexpired : ∀ r ∈ readings calls ++ [evictAt], ∀ e : Extended, e < finite r →
      ¬ finite now < e := by
    intro r hr e he
    have hr : r ≤ now := by
      rcases List.mem_append.1 hr with hr | hr
      · exact hclock r hr
      · rwa [List.mem_singleton.1 hr]
    exact (he.trans_le (finite_le_finite (by exact_mod_cast hr))).not_gt
  unfold isDuplicate Alive
  dsimp only
  rcases hevicted with hfound | ⟨hfound, ⟨t, ttlMs⟩, hmark, r, hr, hmark_expired⟩
  · rw [hfound]
    cases lastMark eventId calls with
    | none => simp
    | some mark =>
      obtain ⟨t, ttlMs⟩ := mark
      simp [entryOf]
  · rw [hfound]
    simp only [Bool.false_eq_true, false_iff, not_exists, not_and]
    intro t' ttl' hlast halive
    rw [hmark] at hlast
    cases hlast
    exact hexpired r hr _ hmark_expired halive

/-! ### Lookups of other ids -/

def Call.looksUpOther (eventId : String) : Call → Bool
  | .isDuplicate other _ _ => other ≠ eventId
  | _ => false

/-- The calls without the lookups of other ids. -/
def withoutOthers (eventId : String) (calls : List Call) : List Call :=
  calls.filter fun call => !call.looksUpOther eventId

theorem lastMark_withoutOthers (eventId : String) (calls : List Call) :
    lastMark eventId (withoutOthers eventId calls) = lastMark eventId calls := by
  induction calls using List.reverseRecOn with
  | nil => rfl
  | append_singleton calls call ih =>
    rw [withoutOthers, List.filter_append, lastMark_snoc]
    cases hother : call.looksUpOther eventId with
    | false =>
      have hkept : [call].filter (fun call => !call.looksUpOther eventId) = [call] := by
        simp [hother]
      rw [hkept, lastMark_snoc]
      exact congrArg (Call.mark eventId · call) ih
    | true =>
      have hdropped : [call].filter (fun call => !call.looksUpOther eventId) = [] := by
        simp [hother]
      rw [hdropped, List.append_nil]
      cases call with
      | markProcessed other ttlMs now => cases hother
      | isDuplicate other evictAt now => exact ih
      | clearWebhookCache => cases hother

theorem readings_withoutOthers (eventId : String) (calls : List Call) :
    readings (withoutOthers eventId calls) ⊆ readings calls := by
  intro r hr
  obtain ⟨call, hcall, hmem⟩ := List.mem_flatMap.1 hr
  exact List.mem_flatMap.2 ⟨call, List.mem_of_mem_filter hcall, hmem⟩

/-- **The dedup cache refines the log.**  When the clock does not go back, a lookup answers that the
id was marked since the last clear and that its most recent mark has not expired; without the
lookups of other ids it would have answered the same. -/
theorem isDuplicate_iff_log {eventId : String} {calls : List Call} {evictAt now : ℤ}
    (hclock : (readings (calls ++ [.isDuplicate eventId evictAt now])).Pairwise (· ≤ ·)) :
    ((isDuplicate eventId evictAt now (cacheAfter calls)).1 = true ↔
      Alive eventId calls now) ∧
    (isDuplicate eventId evictAt now (cacheAfter (withoutOthers eventId calls))).1 =
      (isDuplicate eventId evictAt now (cacheAfter calls)).1 := by
  rw [readings_snoc, List.pairwise_append] at hclock
  obtain ⟨-, hlast, hbefore⟩ := hclock
  have hnow : evictAt ≤ now := by simpa [Call.readings] using hlast
  have hreadings : ∀ r ∈ readings calls, r ≤ now :=
    fun r hr => hbefore r hr now (by simp [Call.readings])
  have halive := isDuplicate_iff_alive eventId hreadings hnow
  have hothers := isDuplicate_iff_alive eventId
    (fun r hr => hreadings r (readings_withoutOthers eventId calls hr)) hnow
  refine ⟨halive, ?_⟩
  rw [Bool.eq_iff_iff, halive, hothers, Alive, Alive, lastMark_withoutOthers]

/-! ### The default lifetime -/

/-- Whole milliseconds are added exactly. -/
theorem numbers_add_int {a b : ℤ} (h : |a + b| ≤ 2 ^ 53) :
    numbers.add (finite a) (finite b) = finite ((a + b : ℤ) : ℚ) := by
  have hround : numbers.round ((a : ℚ) + (b : ℚ)) = ((a + b : ℤ) : ℚ) := by
    rw [← Int.cast_add]
    exact double_int h
  have hsmall : |((a + b : ℤ) : ℚ)| ≤ 2 ^ 53 := by
    exact_mod_cast h
  have hfits : numbers.Fits ((a : ℚ) + (b : ℚ)) := by
    rw [Format.Fits, hround]
    have hlarge : (2 : ℚ) ^ 53 < 2 ^ 1024 := pow_lt_pow_right₀ (by norm_num) (by norm_num)
    exact decide_eq_false (not_le.2 (hsmall.trans_lt hlarge))
  rw [Format.add_finite hfits, hround]

/-- A lookup one millisecond before the expiry and one at it, after a lookup of another id. -/
def markedOnce : List Call :=
  [.markProcessed "evt_1" (finite 1000) 0, .isDuplicate "evt_2" 500 500]

theorem isDuplicate_iff_log_markedOnce :
    (isDuplicate "evt_1" 999 999 (cacheAfter markedOnce)).1 = true ∧
      (isDuplicate "evt_1" 1000 1000 (cacheAfter markedOnce)).1 = false := by
  have hadd : numbers.add (finite ((0 : ℤ) : ℚ)) (finite 1000) = finite 1000 := by
    have hsum := @numbers_add_int 0 1000 (by decide)
    simpa using hsum
  constructor
  · refine (@isDuplicate_iff_log "evt_1" markedOnce 999 999 (by decide)).1.2 ?_
    refine ⟨0, finite 1000, rfl, ?_⟩
    rw [hadd]
    exact finite_lt_finite.2 (by norm_num)
  · rw [Bool.eq_false_iff]
    intro h
    obtain ⟨t, ttlMs, hmark, halive⟩ :=
      (@isDuplicate_iff_log "evt_1" markedOnce 1000 1000 (by decide)).1.1 h
    cases hmark
    rw [hadd] at halive
    exact absurd (finite_lt_finite.1 halive) (by norm_num)

/-- The cache of whole milliseconds, as a cache of numbers. -/
def ofNatural (cache : Commerce.Cache) : Cache :=
  ⟨cache.entries.map fun p => (p.1, ⟨p.2.processedAt, finite p.2.expiresAt⟩), by
    rw [List.map_map]
    exact cache.nodup⟩

theorem get_ofNatural (cache : Commerce.Cache) (key : String) :
    (ofNatural cache).get key =
      (cache.get key).map fun e => ⟨e.processedAt, finite e.expiresAt⟩ := by
  simp only [JsMap.get, ofNatural, List.find?_map, Option.map_map]
  rfl

/-- **The default lifetime**, within the integers that a number can hold: the two models of the
cache give the same entries and the same answers. -/
theorem markProcessed_natural (eventId : String) {now : Nat} (cache : Commerce.Cache)
    (h : now + DEFAULT_TTL_MS ≤ 2 ^ 53) (key : String) :
    (markProcessed eventId (finite DEFAULT_TTL_MS) now (ofNatural cache)).get key =
      (ofNatural (Commerce.markProcessed eventId now cache)).get key := by
  have hsum : numbers.add (finite ((now : ℤ) : ℚ)) (finite ((DEFAULT_TTL_MS : ℤ) : ℚ)) =
      finite (((now + DEFAULT_TTL_MS : ℤ)) : ℚ) := by
    apply numbers_add_int
    rw [abs_of_nonneg (by omega)]
    exact_mod_cast h
  rw [get_ofNatural, markProcessed, Commerce.markProcessed, JsMap.get_set, JsMap.get_set,
    get_ofNatural]
  split
  · rw [Option.map_some]
    push_cast at hsum ⊢
    rw [hsum]
  · rfl

theorem isDuplicate_natural (eventId : String) (evictAt now : Nat) (cache : Commerce.Cache) :
    (isDuplicate eventId evictAt now (ofNatural cache)).1 =
      (Commerce.isDuplicate eventId evictAt now cache).1 := by
  have hevict : (evictExpired evictAt (ofNatural cache)).get (cacheKey eventId) =
      ((Commerce.evictExpired evictAt cache).get (cacheKey eventId)).map
        fun e => ⟨e.processedAt, finite e.expiresAt⟩ := by
    have hfilter : (Commerce.evictExpired evictAt cache).get (cacheKey eventId) =
        (cache.get (cacheKey eventId)).filter fun e => !decide (e.expiresAt < evictAt) := by
      ext e
      rw [Commerce.evictExpired, JsMap.get_filter_eq_some, Option.filter_eq_some_iff]
    rw [get_evictExpired, get_ofNatural, hfilter]
    cases cache.get (cacheKey eventId) with
    | none => rfl
    | some e => by_cases he : e.expiresAt < evictAt <;> simp [Option.filter, he]
  unfold isDuplicate Commerce.isDuplicate
  dsimp only
  rw [hevict]
  cases (Commerce.evictExpired evictAt cache).get (cacheKey eventId) with
  | none => rfl
  | some e => simp

end Intellibiz.Commerce.Dedup
