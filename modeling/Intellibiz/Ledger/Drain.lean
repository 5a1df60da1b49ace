import Intellibiz.Ledger.Concurrent
import Mathlib.Data.List.Flatten

/-!
# Concurrent flushes

`LedgerWriter::flush` while writes are under way.  `LedgerBuffer::drain` pops the ring entry by
entry, and between two pops any other call can push or pop.

* `Drain` — a call of `drain`: its batch so far, and whether a pop has found the ring empty.
* `drainingWriter` — the machine of any number of writes and flushes, their steps in any order.
* `accepted`, `popped` — the entries pushed and popped along a run, in order.
* `Serial` — a flush starts when every earlier one has returned.

Principal results: `step_effect` and `act_cases` (what one action does to the ring, the batches and
the calls), `Accounted` and `act_accounted`, from them `flushed_once` (no interleaving loses an
acknowledged entry or hands it out twice), `flushed_before_return` (a flush that returns leaves
nothing behind), and for serial flushes `serial_flushes_chained`.
-/

namespace Intellibiz.Ledger

open LedgerWriter HashChain

structure Drain where
  batch : List LedgerEntry
  returned : Bool

/-- The writer with its `write` calls, and its `flush` calls. -/
structure Draining where
  shared : Shared
  drains : List Drain

/-- A step of a `write` call, a new `flush` call, or the next `pop` of the flush `i`. -/
inductive Action where
  | writer (ev : Event)
  | flush
  | pop (i : Nat)

namespace Draining

def init : Draining := ⟨⟨.new, []⟩, []⟩

def items (l : Draining) : List LedgerEntry := l.shared.items

/-- The batches one after another, in the order of the calls. -/
def batches (l : Draining) : List LedgerEntry := l.drains.flatMap Drain.batch

/-- `self.ring.pop()` in the flush `i`, which has collected `batch`. -/
def popEntry (l : Draining) (i : Nat) (batch : List LedgerEntry) : Draining :=
  match l.shared.writer.buffer.ring.pop with
  | none => { l with drains := l.drains.set i ⟨batch, true⟩ }
  | some (entry, ring) =>
    { shared := { l.shared with writer := { l.shared.writer with buffer := ⟨ring⟩ } }
      drains := l.drains.set i ⟨batch ++ [entry], false⟩ }

variable (C : Crates)

def act (l : Draining) : Action → Option Draining
  | .writer ev => (step C l.shared ev).map fun shared => { l with shared }
  | .flush => some { l with drains := l.drains ++ [⟨[], false⟩] }
  | .pop i =>
    match l.drains[i]? with
    | some ⟨batch, false⟩ => some (l.popEntry i batch)
    | _ => none

end Draining

variable (C : Crates)

def drainingWriter : Machine Draining Action where
  init := .init
  step := Draining.act C

/-! ## What the ring has seen -/

/-- The entry that a step of a `write` call pushes. -/
def pushedBy (s : Shared) : Event → Option LedgerEntry
  | .push i now =>
    match s.calls[i]? with
    | some (.computing args previousHash) =>
      match newEntry C args previousHash now with
      | .ok entry => if s.items.length < RING_BUFFER_CAPACITY then some entry else none
      | .error _ => none
    | _ => none
  | _ => none

/-- The entry that an action pushes on the ring. -/
def acceptedBy (l : Draining) : Action → Option LedgerEntry
  | .writer ev => pushedBy C l.shared ev
  | _ => none

/-- The entry that an action takes from the ring. -/
def poppedBy (l : Draining) : Action → Option LedgerEntry
  | .pop _ => l.items.head?
  | _ => none

def accepted (es : List Action) : List LedgerEntry := (drainingWriter C).observed (acceptedBy C) es

def popped (es : List Action) : List LedgerEntry := (drainingWriter C).observed poppedBy es

/-- The hash that a call has pushed; a call that returns it has acknowledged the entry. -/
def Call.pushedHash : Call → Option String
  | .pushed newHash => some newHash
  | .returned (.ok newHash) => some newHash
  | _ => none

def Shared.pushedHashes (s : Shared) : List String := s.calls.filterMap Call.pushedHash

variable {C}

/-- The change of one element of a list adds what it adds there. -/
theorem flatMap_set_perm {α β : Type} {f : α → List β} {as : List α} {i : Nat} {a b : α}
    {r : List β} (hi : as[i]? = some a) (hf : f b = f a ++ r) :
    ((as.set i b).flatMap f).Perm (as.flatMap f ++ r) := by
  obtain ⟨hlt, rfl⟩ := List.getElem?_eq_some_iff.1 hi
  have hset : ((as.set i b).flatMap f).Perm ((b :: as.eraseIdx i).flatMap f) :=
    (List.set_perm_cons_eraseIdx hlt b).flatMap_right f
  have has : ((as[i] :: as.eraseIdx i).flatMap f).Perm (as.flatMap f) :=
    (List.getElem_cons_eraseIdx_perm hlt).flatMap_right f
  rw [List.flatMap_cons, hf, List.append_assoc] at hset
  rw [List.flatMap_cons] at has
  have hswap : (f as[i] ++ (r ++ (as.eraseIdx i).flatMap f)).Perm
      ((f as[i] ++ (as.eraseIdx i).flatMap f) ++ r) := by
    rw [List.append_assoc]
    exact List.perm_append_comm.append_left _
  exact hset.trans (hswap.trans (has.append_right r))

/-- The last element of a list adds at the end. -/
theorem flatMap_set_last {α β : Type} {f : α → List β} {as : List α} {i : Nat} {a b : α}
    {r : List β} (hi : as[i]? = some a) (hlast : i + 1 = as.length) (hf : f b = f a ++ r) :
    (as.set i b).flatMap f = as.flatMap f ++ r := by
  rcases as.eq_nil_or_concat with rfl | ⟨before, x, rfl⟩
  · cases hlast
  · obtain rfl : i = before.length := by simpa using hlast
    obtain rfl : x = a := by simpa using hi
    simp [hf]

/-- A call that has pushed `r` more than before adds `r` to the pushed hashes. -/
theorem pushedHashes_set {s : Shared} {i : Nat} {c c' : Call} {r : List String}
    (hi : s.calls[i]? = some c) (hc : c'.pushedHash.toList = c.pushedHash.toList ++ r) :
    ((s.calls.set i c').filterMap Call.pushedHash).Perm (s.pushedHashes ++ r) := by
  unfold Shared.pushedHashes
  rw [List.filterMap_eq_flatMap_toList, List.filterMap_eq_flatMap_toList]
  exact flatMap_set_perm hi hc

/-- What a step of a `write` call does to the ring and to the pushed hashes. -/
theorem step_effect {s s' : Shared} {ev : Event} (h : step C s ev = some s') :
    s'.items = s.items ++ (pushedBy C s ev).toList ∧
      s'.pushedHashes.Perm (s.pushedHashes ++ (pushedBy C s ev).toList.map LedgerEntry.hash) := by
  cases ev with
  | call args =>
    cases h
    have hstarted : [Call.started args].filterMap Call.pushedHash = [] := rfl
    exact ⟨by simp [Shared.items, pushedBy], by simp [Shared.pushedHashes, pushedBy, hstarted]⟩
  | read i =>
    simp only [step] at h
    split at h
    · rename_i args hi
      cases h
      exact ⟨(List.append_nil _).symm, pushedHashes_set hi rfl⟩
    · cases h
  | push i now =>
    simp only [step] at h
    split at h
    · rename_i args previousHash hi
      cases h
      cases hnew : newEntry C args previousHash now with
      | error err =>
        have hnone : pushedBy C s (.push i now) = none := by simp [pushedBy, hi, hnew]
        simp only [pushEntry, hnew, hnone]
        exact ⟨(List.append_nil _).symm, pushedHashes_set hi rfl⟩
      | ok entry =>
        by_cases hroom : s.items.length < RING_BUFFER_CAPACITY
        · have hsome : pushedBy C s (.push i now) = some entry := by
            simp [pushedBy, hi, hnew, hroom]
          simp only [Shared.items] at hroom
          simp only [pushEntry, hnew, hsome, LedgerBuffer.push, ArrayQueue.push, hroom]
          exact ⟨rfl, pushedHashes_set hi rfl⟩
        · have hnone : pushedBy C s (.push i now) = none := by
            simp [pushedBy, hi, hnew, hroom]
          simp only [Shared.items] at hroom
          simp only [pushEntry, hnew, hnone, LedgerBuffer.push, ArrayQueue.push, hroom]
          exact ⟨(List.append_nil _).symm, pushedHashes_set hi rfl⟩
    · cases h
  | store i =>
    simp only [step] at h
    split at h
    · rename_i newHash hi
      cases h
      exact ⟨(List.append_nil _).symm, pushedHashes_set hi rfl⟩
    · cases h

/-- Everything an action can do. -/
theorem act_cases {l l' : Draining} {a : Action} (h : l.act C a = some l') :
    (∃ ev s', a = .writer ev ∧ step C l.shared ev = some s' ∧ l' = { l with shared := s' }) ∨
    (a = .flush ∧ l' = { l with drains := l.drains ++ [⟨[], false⟩] }) ∨
    (∃ i batch, a = .pop i ∧ l.drains[i]? = some ⟨batch, false⟩ ∧ l.items = [] ∧
      l' = { l with drains := l.drains.set i ⟨batch, true⟩ }) ∨
    (∃ i batch e rest, a = .pop i ∧ l.drains[i]? = some ⟨batch, false⟩ ∧ l.items = e :: rest ∧
      l'.items = rest ∧ l'.drains = l.drains.set i ⟨batch ++ [e], false⟩ ∧
      l'.shared.calls = l.shared.calls ∧ l'.shared.writer.lastHash = l.shared.writer.lastHash) := by
  cases a with
  | writer ev =>
    obtain ⟨s', hs', rfl⟩ := Option.map_eq_some_iff.1 h
    exact .inl ⟨ev, s', rfl, hs', rfl⟩
  | flush =>
    cases h
    exact .inr (.inl ⟨rfl, rfl⟩)
  | pop i =>
    simp only [Draining.act] at h
    split at h
    · rename_i batch hi
      cases h
      refine .inr (.inr ?_)
      rcases hring : l.shared.writer.buffer.ring with ⟨items, hb⟩
      have hitems : l.items = items := by simp [Draining.items, Shared.items, hring]
      cases items with
      | nil =>
        exact .inl ⟨i, batch, rfl, hi, hitems, by simp [Draining.popEntry, hring, ArrayQueue.pop]⟩
      | cons e rest =>
        refine .inr ⟨i, batch, e, rest, rfl, hi, hitems, ?_⟩
        simp [Draining.popEntry, hring, ArrayQueue.pop, Draining.items, Shared.items]
    · cases h

/-! ## No entry is lost, none is handed out twice -/

theorem accepted_snoc {es : List Action} {l l' : Draining} {a : Action}
    (hrun : (drainingWriter C).run es = some l) (h : l.act C a = some l') :
    accepted C (es ++ [a]) = accepted C es ++ (acceptedBy C l a).toList :=
  Machine.observed_snoc hrun h

theorem popped_snoc {es : List Action} {l l' : Draining} {a : Action}
    (hrun : (drainingWriter C).run es = some l) (h : l.act C a = some l') :
    popped C (es ++ [a]) = popped C es ++ (poppedBy l a).toList :=
  Machine.observed_snoc hrun h

/-- Where the accepted entries are. -/
structure Accounted (C : Crates) (es : List Action) (l : Draining) : Prop where
  fifo : popped C es ++ l.items = accepted C es
  batched : l.batches.Perm (popped C es)
  ordered : ∀ d ∈ l.drains, d.batch.Sublist (popped C es)
  hashes : l.shared.pushedHashes.Perm ((accepted C es).map LedgerEntry.hash)

theorem act_accounted {es : List Action} {l l' : Draining} {a : Action}
    (hrun : (drainingWriter C).run es = some l) (hl : Accounted C es l)
    (h : l.act C a = some l') : Accounted C (es ++ [a]) l' := by
  have haccepted := accepted_snoc hrun h
  have hpopped := popped_snoc hrun h
  rcases act_cases h with ⟨ev, s', rfl, hs', rfl⟩ | ⟨rfl, rfl⟩ | ⟨i, batch, rfl, hi, hitems, rfl⟩ |
    ⟨i, batch, e, rest, rfl, hi, hitems, hrest, hdrains, hcalls, -⟩
  · obtain ⟨hring, hhashes⟩ := step_effect hs'
    rw [show poppedBy l (.writer ev) = none from rfl, Option.toList_none, List.append_nil]
      at hpopped
    refine ⟨?_, ?_, ?_, ?_⟩
    · rw [hpopped, haccepted, ← hl.fifo, List.append_assoc]
      exact congrArg (popped C es ++ ·) hring
    · rw [hpopped]
      exact hl.batched
    · rw [hpopped]
      exact hl.ordered
    · rw [haccepted, List.map_append]
      exact hhashes.trans (hl.hashes.append_right _)
  · rw [show poppedBy l .flush = none from rfl, Option.toList_none, List.append_nil] at hpopped
    rw [show acceptedBy C l .flush = none from rfl, Option.toList_none, List.append_nil]
      at haccepted
    refine ⟨?_, ?_, fun d hd => ?_, ?_⟩
    · rw [hpopped, haccepted]
      exact hl.fifo
    · rw [hpopped]
      simpa [Draining.batches] using hl.batched
    · rw [hpopped]
      rcases List.mem_append.1 hd with hd | hd
      · exact hl.ordered d hd
      · rw [List.mem_singleton.1 hd]
        exact List.nil_sublist _
    · rw [haccepted]
      exact hl.hashes
  · have hnone : poppedBy l (.pop i) = none := by simp [poppedBy, hitems]
    rw [hnone, Option.toList_none, List.append_nil] at hpopped
    rw [show acceptedBy C l (.pop i) = none from rfl, Option.toList_none, List.append_nil]
      at haccepted
    refine ⟨?_, ?_, fun d hd => ?_, ?_⟩
    · rw [hpopped, haccepted]
      exact hl.fifo
    · rw [hpopped]
      have hset := flatMap_set_perm (b := ⟨batch, true⟩) (r := []) (f := Drain.batch) hi
        (List.append_nil _).symm
      rw [List.append_nil] at hset
      exact hset.trans hl.batched
    · rw [hpopped]
      rcases List.mem_or_eq_of_mem_set hd with hd | rfl
      · exact hl.ordered d hd
      · exact hl.ordered ⟨batch, false⟩ (List.mem_of_getElem? hi)
    · rw [haccepted]
      exact hl.hashes
  · have hsome : poppedBy l (.pop i) = some e := by simp [poppedBy, hitems]
    rw [hsome, Option.toList_some] at hpopped
    rw [show acceptedBy C l (.pop i) = none from rfl, Option.toList_none, List.append_nil]
      at haccepted
    refine ⟨?_, ?_, fun d hd => ?_, ?_⟩
    · rw [hpopped, haccepted, ← hl.fifo, hrest, hitems, List.append_assoc]
      rfl
    · rw [hpopped]
      have hset := flatMap_set_perm (b := ⟨batch ++ [e], false⟩) (r := [e]) (f := Drain.batch)
        hi rfl
      unfold Draining.batches
      rw [hdrains]
      exact hset.trans (hl.batched.append_right [e])
    · rw [hpopped]
      rw [hdrains] at hd
      rcases List.mem_or_eq_of_mem_set hd with hd | rfl
      · exact (hl.ordered d hd).trans (List.sublist_append_left _ _)
      · exact (hl.ordered _ (List.mem_of_getElem? hi)).append (List.Sublist.refl [e])
    · rw [haccepted, Shared.pushedHashes, hcalls]
      exact hl.hashes

theorem run_accounted {es : List Action} {l : Draining}
    (hrun : (drainingWriter C).run es = some l) : Accounted C es l := by
  refine Machine.run_induction ?_ (fun _ _ _ _ hrun hl h => act_accounted hrun hl h) hrun
  refine ⟨rfl, .nil, fun d hd => ?_, .nil⟩
  cases hd

/-- **No interleaving of writes and flushes loses an entry or hands one out twice**: the batches and
what is left in the ring are the accepted entries, every batch in the order in which they were
accepted, and the hashes that the writes pushed and returned are theirs, once each. -/
theorem flushed_once {es : List Action} {l : Draining}
    (hrun : (drainingWriter C).run es = some l) :
    (l.batches ++ l.items).Perm (accepted C es) ∧
      (∀ d ∈ l.drains, d.batch.Sublist (accepted C es)) ∧
      l.shared.pushedHashes.Perm ((l.batches ++ l.items).map LedgerEntry.hash) := by
  have hl := run_accounted hrun
  have hall : (l.batches ++ l.items).Perm (accepted C es) := by
    rw [← hl.fifo]
    exact hl.batched.append_right _
  refine ⟨hall, fun d hd => ?_, hl.hashes.trans (hall.map _).symm⟩
  rw [← hl.fifo]
  exact (hl.ordered d hd).trans (List.sublist_append_left _ _)

/-- Two flushes overlap, and a write is under way between their pops. -/
def overlappingStart : List Action :=
  [.writer (.call (sampleArgs "led_1")), .writer (.read 0), .writer (.push 0 1700000000),
    .writer (.store 0), .flush, .flush, .pop 1]

def overlappingRest : List Action :=
  [.writer (.call (sampleArgs "led_2")), .writer (.read 1), .writer (.push 1 1700000001), .pop 0,
    .pop 1, .writer (.store 1), .pop 0]

theorem flushed_once_overlapping :
    ∃ l, (drainingWriter sampleCrates).run (overlappingStart ++ overlappingRest) = some l ∧
      (l.batches ++ l.items).Perm
        (accepted sampleCrates (overlappingStart ++ overlappingRest)) := by
  cases hrun : (drainingWriter sampleCrates).run (overlappingStart ++ overlappingRest) with
  | none => cases hrun
  | some l => exact ⟨l, rfl, (flushed_once hrun).1⟩

/-- The flush `i` has found the ring empty. -/
def Draining.Returned (l : Draining) (i : Nat) : Prop := ∃ batch, l.drains[i]? = some ⟨batch, true⟩

/-- An action by which the flush `i` returns leaves the ring empty. -/
theorem act_returned {l l' : Draining} {a : Action} {i : Nat} (h : l.act C a = some l')
    (hi : ¬ l.Returned i) (hi' : l'.Returned i) : l'.items = [] := by
  obtain ⟨batch', hbatch'⟩ := hi'
  rcases act_cases h with ⟨ev, s', rfl, hs', rfl⟩ | ⟨rfl, rfl⟩ | ⟨j, batch, rfl, hj, hitems, rfl⟩ |
    ⟨j, batch, e, rest, rfl, hj, hitems, hrest, hdrains, -, -⟩
  · exact absurd ⟨batch', hbatch'⟩ hi
  · rcases Nat.lt_or_ge i l.drains.length with hlt | hge
    · rw [List.getElem?_append_left hlt] at hbatch'
      exact absurd ⟨batch', hbatch'⟩ hi
    · rw [List.getElem?_append_right hge] at hbatch'
      cases List.mem_singleton.1 (List.mem_of_getElem? hbatch')
  · exact hitems
  · rw [hdrains, List.getElem?_set] at hbatch'
    split at hbatch'
    · split at hbatch' <;> cases hbatch'
    · exact absurd ⟨batch', hbatch'⟩ hi

/-- **A flush that returns leaves nothing behind**: every entry accepted before it returned has been
popped, and is in a batch, from then on. -/
theorem flushed_before_return {pre post : List Action} {l₀ l : Draining} {i : Nat}
    (hpre : (drainingWriter C).run pre = some l₀)
    (hrun : (drainingWriter C).run (pre ++ post) = some l)
    (hi : ¬ l₀.Returned i) (hret : l.Returned i) :
    accepted C pre <+: popped C (pre ++ post) ∧
      ∃ rest, l.batches.Perm (accepted C pre ++ rest) := by
  have hinv : (accepted C pre <+: accepted C (pre ++ post)) ∧
      (l.Returned i → accepted C pre <+: popped C (pre ++ post)) := by
    refine Machine.run_append_induction hpre (P := fun post l =>
      (accepted C pre <+: accepted C (pre ++ post)) ∧
        (l.Returned i → accepted C pre <+: popped C (pre ++ post))) ?_ ?_ hrun
    · rw [List.append_nil]
      exact ⟨List.prefix_refl _, fun h => absurd h hi⟩
    · rintro post s a s' hs ⟨hgrows, hpopped⟩ hstep
      have hgrows' : accepted C pre <+: accepted C (pre ++ (post ++ [a])) := by
        rw [← List.append_assoc, accepted_snoc hs hstep]
        exact hgrows.trans (List.prefix_append _ _)
      refine ⟨hgrows', fun hret' => ?_⟩
      by_cases hbefore : s.Returned i
      · rw [← List.append_assoc, popped_snoc hs hstep]
        exact (hpopped hbefore).trans (List.prefix_append _ _)
      · have hrun' : (drainingWriter C).run (pre ++ (post ++ [a])) = some s' := by
          rw [← List.append_assoc, Machine.run_snoc, hs]
          exact hstep
        have hfifo := (run_accounted hrun').fifo
        rw [act_returned hstep hbefore hret', List.append_nil] at hfifo
        rw [hfifo]
        exact hgrows'
  have hpopped := hinv.2 hret
  obtain ⟨rest, hrest⟩ := hpopped
  refine ⟨⟨rest, hrest⟩, rest, ?_⟩
  rw [hrest]
  exact (run_accounted hrun).batched

theorem flushed_before_return_overlapping :
    ∃ rest l, (drainingWriter sampleCrates).run (overlappingStart ++ overlappingRest) = some l ∧
      l.batches.Perm (accepted sampleCrates overlappingStart ++ rest) := by
  cases hpre : (drainingWriter sampleCrates).run overlappingStart with
  | none => cases hpre
  | some l₀ =>
    cases hrun : (drainingWriter sampleCrates).run (overlappingStart ++ overlappingRest) with
    | none => cases hrun
    | some l =>
      have hi : ¬ l₀.Returned 1 := by
        obtain rfl := Option.some.inj hpre
        rintro ⟨batch, hbatch⟩
        cases hbatch
      have hret : l.Returned 1 := by
        obtain rfl := Option.some.inj hrun
        exact ⟨_, rfl⟩
      obtain ⟨-, rest, hrest⟩ := flushed_before_return hpre hrun hi hret
      exact ⟨rest, l, rfl, hrest⟩

/-! ## Flushes one after another -/

/-- A flush starts when every earlier one has returned. -/
def Serial (l : Draining) : Action → Prop
  | .flush => ∀ d ∈ l.drains, d.returned = true
  | _ => True

instance (l : Draining) (a : Action) : Decidable (Serial l a) := by
  unfold Serial
  split <;> infer_instance

variable (C) in
/-- The pushes are up to date and the flushes are serial. -/
def Orderly (l : Draining) (a : Action) : Prop :=
  Serial l a ∧
    match a with
    | .writer ev => UpToDate C l.shared ev
    | _ => True

instance (l : Draining) (a : Action) : Decidable (Orderly C l a) := by
  unfold Orderly
  split <;> infer_instance

/-- Only the last flush is under way, and the batches stand in the order of the pops. -/
structure SerialInv (C : Crates) (es : List Action) (l : Draining) : Prop where
  last : ∀ i batch, l.drains[i]? = some ⟨batch, false⟩ → i + 1 = l.drains.length
  batched : l.batches = popped C es

theorem last_of_set {drains : List Drain} {i : Nat} {batch : List LedgerEntry} {d : Drain}
    (hlast : ∀ j b, drains[j]? = some ⟨b, false⟩ → j + 1 = drains.length)
    (hi : drains[i]? = some ⟨batch, false⟩) (j : Nat) (b : List LedgerEntry)
    (hj : (drains.set i d)[j]? = some ⟨b, false⟩) : j + 1 = (drains.set i d).length := by
  rw [List.length_set]
  by_cases heq : i = j
  · rw [← heq]
    exact hlast i batch hi
  · rw [List.getElem?_set_ne heq] at hj
    exact hlast j b hj

theorem act_serialInv {es : List Action} {l l' : Draining} {a : Action}
    (hrun : (drainingWriter C).run es = some l) (hl : SerialInv C es l) (ha : Serial l a)
    (h : l.act C a = some l') : SerialInv C (es ++ [a]) l' := by
  have hpopped := popped_snoc hrun h
  rcases act_cases h with ⟨ev, s', rfl, hs', rfl⟩ | ⟨rfl, rfl⟩ | ⟨i, batch, rfl, hi, hitems, rfl⟩ |
    ⟨i, batch, e, rest, rfl, hi, hitems, hrest, hdrains, -, -⟩
  · exact ⟨hl.last, hl.batched.trans (hpopped.trans (List.append_nil _)).symm⟩
  · refine ⟨fun i batch hi => ?_, ?_⟩
    · rcases Nat.lt_or_ge i l.drains.length with hlt | hge
      · rw [List.getElem?_append_left hlt] at hi
        have hreturned := ha _ (List.mem_of_getElem? hi)
        cases hreturned
      · have hlen := (List.getElem?_eq_some_iff.1 hi).1
        simp only [List.length_append, List.length_singleton] at hlen ⊢
        omega
    · rw [hpopped]
      simpa [Draining.batches, poppedBy] using hl.batched
  · refine ⟨last_of_set hl.last hi, ?_⟩
    have hset := flatMap_set_last (b := ⟨batch, true⟩) (r := []) (f := Drain.batch) hi
      (hl.last i batch hi) (List.append_nil _).symm
    rw [hpopped, ← hl.batched]
    simpa [Draining.batches, poppedBy, hitems] using hset
  · refine ⟨?_, ?_⟩
    · rw [hdrains]
      exact last_of_set hl.last hi
    · have hset := flatMap_set_last (b := ⟨batch ++ [e], false⟩) (r := [e]) (f := Drain.batch) hi
        (hl.last i batch hi) rfl
      rw [hpopped, ← hl.batched]
      simpa [Draining.batches, poppedBy, hitems, hdrains] using hset

/-- `ChainInv` over all accepted entries, drained ones included. -/
structure TipInv (C : Crates) (all : List LedgerEntry) (s : Shared) : Prop where
  verified : ∀ e ∈ all, e.verify C = true
  anchored : Anchored entryLinks "GENESIS" all
  pushed_tip : ∀ newHash, Call.pushed newHash ∈ s.calls → newHash = tip entryLinks "GENESIS" all
  stored_tip : (∀ newHash, Call.pushed newHash ∉ s.calls) →
    s.writer.lastHash = tip entryLinks "GENESIS" all

theorem step_tipInv {all : List LedgerEntry} {s s' : Shared} {ev : Event} (hs : TipInv C all s)
    (hev : UpToDate C s ev) (h : step C s ev = some s') :
    TipInv C (all ++ (pushedBy C s ev).toList) s' := by
  have hring := (step_effect h).1
  rcases step_cases h with ⟨c, rfl, hc⟩ | ⟨i, c, rfl, hi, hc⟩ |
    ⟨i, now, args, previousHash, e, rfl, hi, hamount, hroom, hprev, hverify, hitems, -, hcalls⟩ |
    ⟨i, newHash, hi, rfl⟩
  · rw [List.self_eq_append_right.1 hring, List.append_nil]
    refine ⟨hs.verified, hs.anchored, fun newHash hmem => ?_, fun hnone => ?_⟩
    · rcases List.mem_append.1 hmem with hmem | hmem
      · exact hs.pushed_tip newHash hmem
      · exact absurd (List.mem_singleton.1 hmem).symm (hc newHash)
    · exact hs.stored_tip fun newHash hmem => hnone newHash (List.mem_append_left _ hmem)
  · rw [List.self_eq_append_right.1 hring, List.append_nil]
    refine ⟨hs.verified, hs.anchored, fun newHash hmem => ?_, fun hnone => ?_⟩
    · exact hs.pushed_tip newHash (pushed_of_set hc hmem)
    · exact hs.stored_tip fun newHash hmem => hnone newHash (pushed_set hi hmem)
  · rw [hitems] at hring
    rw [← List.append_cancel_left hring]
    simp only [UpToDate, hi] at hev
    obtain ⟨hstored, hquiet⟩ := hev hamount hroom
    have hnone : ∀ newHash, Call.pushed newHash ∉ s.calls := by
      intro newHash hmem
      cases hquiet _ hmem
    refine ⟨fun x hx => ?_, ?_, fun newHash hmem => ?_, fun hnone' => ?_⟩
    · rcases List.mem_append.1 hx with hx | hx
      · exact hs.verified x hx
      · rw [List.mem_singleton.1 hx]
        exact hverify
    · exact anchored_snoc hs.anchored (hprev.trans (hstored.trans (hs.stored_tip hnone)))
    · rw [hcalls] at hmem
      rw [tip_snoc]
      rcases List.mem_or_eq_of_mem_set hmem with hmem | heq
      · exact absurd hmem (hnone newHash)
      · cases heq
        rfl
    · refine absurd ?_ (hnone' e.hash)
      rw [hcalls]
      exact List.mem_set (List.getElem?_eq_some_iff.1 hi).1 _
  · rw [List.self_eq_append_right.1 hring, List.append_nil]
    have htip := hs.pushed_tip newHash (List.mem_of_getElem? hi)
    refine ⟨hs.verified, hs.anchored, fun newHash' hmem => ?_, fun _ => htip⟩
    exact hs.pushed_tip newHash' (pushed_of_set (by simp) hmem)

theorem act_tipInv {all : List LedgerEntry} {l l' : Draining} {a : Action}
    (hl : TipInv C all l.shared) (ha : Orderly C l a) (h : l.act C a = some l') :
    TipInv C (all ++ (acceptedBy C l a).toList) l'.shared := by
  rcases act_cases h with ⟨ev, s', rfl, hs', rfl⟩ | ⟨rfl, rfl⟩ | ⟨i, batch, rfl, hi, hitems, rfl⟩ |
    ⟨i, batch, e, rest, rfl, hi, hitems, hrest, -, hcalls, hlast⟩
  · exact step_tipInv hl ha.2 hs'
  · exact (List.append_nil all).symm ▸ hl
  · exact (List.append_nil all).symm ▸ hl
  · refine (List.append_nil all).symm ▸ ⟨hl.verified, hl.anchored, ?_, ?_⟩
    · rw [hcalls]
      exact hl.pushed_tip
    · rw [hcalls, hlast]
      exact hl.stored_tip

/-- **The batches of serial flushes are one chain**: joined in the order of the flushes, with what
is left in the ring behind them, they are the accepted entries in order, chained from `GENESIS`;
`verify_chain` accepts the whole and every single batch. -/
theorem serial_flushes_chained {es : List Action} {l : Draining}
    (hC : (drainingWriter C).Along (Orderly C) es) (hrun : (drainingWriter C).run es = some l) :
    l.batches ++ l.items = accepted C es ∧
      Anchored entryLinks "GENESIS" (l.batches ++ l.items) ∧
      verifyChain C (l.batches ++ l.items) = true ∧
      ∀ d ∈ l.drains, verifyChain C d.batch = true := by
  have hinv : SerialInv C es l ∧ TipInv C (accepted C es) l.shared := by
    refine Machine.run_induction_along
      (P := fun es l => SerialInv C es l ∧ TipInv C (accepted C es) l.shared) ?_ ?_ hC hrun
    · refine ⟨⟨fun i batch hi => ?_, rfl⟩, fun e he => ?_, anchored_nil _ _, fun _ hmem => ?_,
        fun _ => rfl⟩
      · cases hi
      · cases he
      · cases hmem
    · rintro es l a l' hrun ⟨hserial, htip⟩ ha hstep
      refine ⟨act_serialInv hrun hserial ha.1 hstep, ?_⟩
      rw [accepted_snoc hrun hstep]
      exact act_tipInv htip ha hstep
  obtain ⟨hserial, htip⟩ := hinv
  have hall : l.batches ++ l.items = accepted C es := by
    rw [hserial.batched]
    exact (run_accounted hrun).fifo
  have hchain : verifyChain C (accepted C es) = true :=
    verifyChain_iff.2 ⟨htip.verified, htip.anchored.linked⟩
  rw [hall]
  refine ⟨rfl, htip.anchored, hchain, fun d hd => ?_⟩
  obtain ⟨before, after, hinfix⟩ : d.batch <:+: accepted C es := by
    rw [← hall]
    obtain ⟨left, right, hsplit⟩ := List.append_of_mem hd
    refine ⟨left.flatMap Drain.batch, right.flatMap Drain.batch ++ l.items, ?_⟩
    simp [Draining.batches, hsplit]
  obtain ⟨hverified, hlinked⟩ := verifyChain_iff.1 hchain
  refine verifyChain_iff.2 ⟨fun e he => hverified e ?_, hlinked.infix ⟨before, after, hinfix⟩⟩
  rw [← hinfix]
  exact List.mem_append_left _ (List.mem_append_right _ he)

/-- A write between the pops of the first flush, and a second flush after it. -/
def serialRun : List Action :=
  [.writer (.call (sampleArgs "led_1")), .writer (.read 0), .writer (.push 0 1700000000), .flush,
    .pop 0, .writer (.store 0), .writer (.call (sampleArgs "led_2")), .writer (.read 1), .pop 0,
    .writer (.push 1 1700000001), .flush, .pop 1, .writer (.store 1), .pop 1]

theorem serial_flushes_chained_serialRun :
    ∃ l, (drainingWriter sampleCrates).run serialRun = some l ∧ l.drains.length = 2 ∧
      verifyChain sampleCrates (l.batches ++ l.items) = true := by
  have hC : (drainingWriter sampleCrates).Along (Orderly sampleCrates) serialRun := by
    rw [Machine.along_iff_from]
    decide
  cases hrun : (drainingWriter sampleCrates).run serialRun with
  | none => cases hrun
  | some l =>
    have hlen : l.drains.length = 2 := by
      obtain rfl := Option.some.inj hrun
      rfl
    exact ⟨l, rfl, hlen, (serial_flushes_chained hC hrun).2.2.1⟩

end Intellibiz.Ledger
