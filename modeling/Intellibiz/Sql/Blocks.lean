import Intellibiz.Sql.Lexer

/-!
# Table accesses and their `WHERE` clauses

One pass over the tokens of a statement that finds its blocks: the `SELECT` blocks and the
`UPDATE` and `DELETE` targets, each at its level of parentheses, and which of them carry a
predicate `column = 'value'` in their own `WHERE` clause.

* `BlockState` — the open block of each level, the blocks already closed and the last two tokens.
* `Scoped` — every block of a text carries the predicate.

Principal results: `guards_of_absent` (tokens without the predicate guard no block) and
`shape_foldl` (the number of blocks depends on the tokens that open one).
-/

namespace Sql

inductive Phase where
  /-- Before the `WHERE` clause. -/
  | head
  /-- In the `WHERE` clause. -/
  | cond
  /-- In a clause after it. -/
  | tail
  deriving DecidableEq, Repr

structure Block where
  phase : Phase
  guarded : Bool
  deriving DecidableEq, Repr

structure BlockState where
  top : Option Block
  /-- The enclosing levels, innermost first. -/
  below : List (Option Block)
  closed : List Block
  last : Option Token
  beforeLast : Option Token
  deriving Repr

def BlockState.init : BlockState := ⟨none, [], [], none, none⟩

/-- The keywords after which a block is past its `WHERE` clause. -/
def tailKeywords : List (List Char) :=
  ["GROUP".toList, "HAVING".toList, "WINDOW".toList, "UNION".toList, "INTERSECT".toList,
    "EXCEPT".toList, "ORDER".toList, "LIMIT".toList, "OFFSET".toList, "FETCH".toList,
    "FOR".toList, "RETURNING".toList]

def Block.new : Block := ⟨.head, false⟩

/-- `WHERE` -/
def Block.enter (b : Block) : Block := if b.phase = .head then { b with phase := .cond } else b

def Block.leave (b : Block) : Block := { b with phase := .tail }

def Block.guard (b : Block) : Block := if b.phase = .cond then { b with guarded := true } else b

/-- The `GROUP` of the aggregate `WITHIN GROUP (ORDER BY ...)`. -/
def BlockState.InAggregate (s : BlockState) (w : List Char) : Prop :=
  w = "GROUP".toList ∧ s.last = some (.word "WITHIN".toList)

instance (s : BlockState) (w : List Char) : Decidable (s.InAggregate w) :=
  inferInstanceAs (Decidable (_ ∧ _))

def BlockState.word (s : BlockState) (w : List Char) : BlockState :=
  if w = "SELECT".toList then { s with top := some .new, closed := s.closed ++ s.top.toList }
  else if w = "UPDATE".toList ∨ w = "DELETE".toList then
    { s with top := some (s.top.getD .new) }
  else if w = "WHERE".toList then { s with top := s.top.map Block.enter }
  else if w ∈ tailKeywords ∧ ¬ s.InAggregate w then { s with top := s.top.map Block.leave }
  else s

def BlockState.sym (s : BlockState) (c : Char) : BlockState :=
  if c = '(' then { s with top := none, below := s.top :: s.below }
  else if c = ')' then
    match s.below with
    | [] => s
    | b :: below => { s with top := b, below, closed := s.closed ++ s.top.toList }
  else s

section Read

variable (column value : List Char)

/-- The predicate `column = 'value'`. -/
def predicate : List Token := [.word column, .sym '=', .str value]

/-- Whether the token ends the predicate. -/
def BlockState.Completes (s : BlockState) (t : Token) : Prop :=
  s.beforeLast = some (.word column) ∧ s.last = some (.sym '=') ∧ t = .str value

instance (s : BlockState) (t : Token) : Decidable (s.Completes column value t) :=
  inferInstanceAs (Decidable (_ ∧ _ ∧ _))

/-- What a token does to the blocks. -/
def BlockState.accept (s : BlockState) (t : Token) : BlockState :=
  match t with
  | .word w => s.word w
  | .sym c => s.sym c
  | _ => if s.Completes column value t then { s with top := s.top.map Block.guard } else s

def BlockState.step (s : BlockState) (t : Token) : BlockState :=
  { s.accept column value t with last := some t, beforeLast := s.last }

def read (ts : List Token) : BlockState := ts.foldl (BlockState.step column value) .init

def BlockState.blocks (s : BlockState) : List Block :=
  s.closed ++ s.top.toList ++ s.below.flatMap Option.toList

/-- The text is a statement with at least one block, and each of them carries the predicate. -/
def Scoped (l : List Char) : Prop :=
  ∃ ts, tokens l = some ts ∧ (read column value ts).blocks ≠ [] ∧
    ∀ b ∈ (read column value ts).blocks, b.guarded = true

instance (l : List Char) : Decidable (Scoped column value l) :=
  match h : tokens l with
  | none => isFalse fun ⟨_, hts, _⟩ => by rw [h] at hts; cases hts
  | some ts =>
    decidable_of_iff ((read column value ts).blocks ≠ [] ∧
        ∀ b ∈ (read column value ts).blocks, b.guarded = true)
      ⟨fun hts => ⟨ts, h, hts⟩, fun ⟨_, hus, hall⟩ => by rw [h] at hus; cases hus; exact hall⟩

end Read

variable {column value : List Char}

/-! ## The number of blocks -/

/-- What the number of blocks depends on. -/
def BlockState.shape (s : BlockState) : Bool × List Bool × Nat :=
  (s.top.isSome, s.below.map Option.isSome, s.closed.length)

theorem length_toList {α : Type} (o : Option α) : o.toList.length = o.isSome.toNat := by
  cases o <;> rfl

theorem length_blocks_of_shape {s s' : BlockState} (h : s.shape = s'.shape) :
    s.blocks.length = s'.blocks.length := by
  have hbelow : ∀ l : List (Option Block),
      (l.flatMap Option.toList).length = ((l.map Option.isSome).map Bool.toNat).sum := by
    intro l
    induction l with
    | nil => rfl
    | cons o l ih => simp [length_toList, ih]
  simp only [BlockState.shape, Prod.mk.injEq] at h
  obtain ⟨htop, hb, hclosed⟩ := h
  simp only [BlockState.blocks, List.length_append, length_toList, hbelow, htop, hb, hclosed]

/-- The tokens that can open a block or change the level. -/
def Token.Opens : Token → Prop
  | .word w => w = "SELECT".toList ∨ w = "UPDATE".toList ∨ w = "DELETE".toList
  | .sym c => c = '(' ∨ c = ')'
  | _ => False

theorem shape_step_of_not_opens {t : Token} (h : ¬ t.Opens) (s : BlockState) :
    (s.step column value t).shape = s.shape := by
  cases t with
  | word w =>
    simp only [Token.Opens, not_or] at h
    simp only [BlockState.step, BlockState.accept, BlockState.word, h.1, h.2.1, h.2.2, if_false,
      or_self]
    split_ifs <;> simp [BlockState.shape]
  | sym c =>
    simp only [Token.Opens, not_or] at h
    simp [BlockState.step, BlockState.accept, BlockState.sym, h.1, h.2, BlockState.shape]
  | str v | quoted v | param v =>
    simp only [BlockState.step, BlockState.accept]
    split <;> simp [BlockState.shape]

theorem shape_step_congr {s s' : BlockState} (h : s.shape = s'.shape) (t : Token) :
    (s.step column value t).shape = (s'.step column value t).shape := by
  by_cases ht : t.Opens
  · simp only [BlockState.shape, Prod.mk.injEq] at h
    obtain ⟨htop, hb, hclosed⟩ := h
    cases t with
    | word w =>
      simp only [BlockState.step, BlockState.accept, BlockState.word]
      split_ifs <;> simp [BlockState.shape, htop, hb, hclosed, length_toList]
    | sym c =>
      simp only [BlockState.step, BlockState.accept, BlockState.sym]
      split_ifs
      · simp [BlockState.shape, htop, hb, hclosed]
      · cases hbs : s.below <;> cases hbs' : s'.below <;> rw [hbs, hbs'] at hb
        · simp [BlockState.shape, htop, hclosed, hbs, hbs']
        · cases hb
        · cases hb
        · simp only [List.map_cons, List.cons.injEq] at hb
          simp [BlockState.shape, htop, hb, hclosed, length_toList]
      · simp [BlockState.shape, htop, hb, hclosed]
    | _ => exact ht.elim
  · rw [shape_step_of_not_opens ht, shape_step_of_not_opens ht, h]

/-- **Tokens that open no block may be put in anywhere without changing the number of blocks.** -/
theorem shape_foldl {s s' : BlockState} (h : s.shape = s'.shape) (ts : List Token) :
    (ts.foldl (BlockState.step column value) s).shape =
      (ts.foldl (BlockState.step column value) s').shape := by
  induction ts generalizing s s' with
  | nil => exact h
  | cons t ts ih => exact ih (shape_step_congr h t)

theorem shape_foldl_of_not_opens {ts : List Token} (h : ∀ t ∈ ts, ¬ t.Opens) (s : BlockState) :
    (ts.foldl (BlockState.step column value) s).shape = s.shape := by
  induction ts generalizing s with
  | nil => rfl
  | cons t ts ih =>
    rw [List.foldl_cons, ih (fun u hu => h u (by simp [hu])),
      shape_step_of_not_opens (h t (by simp))]

/-! ## The number of blocks with the predicate -/

def BlockState.guards (s : BlockState) : Nat := s.blocks.countP Block.guarded

theorem countP_map {f : Block → Block} (hf : ∀ b, (f b).guarded = b.guarded) (o : Option Block) :
    (o.map f).toList.countP Block.guarded = o.toList.countP Block.guarded := by
  cases o <;> simp [hf]

theorem enter_guarded (b : Block) : b.enter.guarded = b.guarded := by
  unfold Block.enter
  split <;> rfl

theorem leave_guarded (b : Block) : b.leave.guarded = b.guarded := rfl

/-- Only the end of the predicate adds a guarded block. -/
theorem guards_step_of_not_completes {s : BlockState} {t : Token}
    (h : ¬ s.Completes column value t) : (s.step column value t).guards = s.guards := by
  simp only [BlockState.guards, BlockState.blocks, BlockState.step, List.countP_append]
  cases t with
  | word w =>
    simp only [BlockState.accept, BlockState.word]
    split_ifs
    · simp [Block.new]
    · cases s.top <;> simp [Block.new]
    · rw [countP_map enter_guarded]
    · rw [countP_map leave_guarded]
    · rfl
  | sym c =>
    simp only [BlockState.accept, BlockState.sym]
    split_ifs
    · simp [Nat.add_assoc]
    · cases hb : s.below with
      | nil => rw [hb]
      | cons b below => simp [Nat.add_assoc]
    · rfl
  | str v | quoted v | param v =>
    simp only [BlockState.accept, if_neg h]

/-- Outside its `WHERE` clause the predicate guards nothing. -/
theorem guards_step_of_not_cond {s : BlockState} (h : ∀ b ∈ s.top, b.phase ≠ .cond) (t : Token) :
    (s.step column value t).guards = s.guards := by
  by_cases hc : s.Completes column value t
  · obtain ⟨hb, hl, rfl⟩ := hc
    have htop : s.top.map Block.guard = s.top := by
      cases ht : s.top with
      | none => rfl
      | some b => simp [Block.guard, h b (by simp [ht])]
    simp [BlockState.guards, BlockState.blocks, BlockState.step, BlockState.accept, htop]
  · exact guards_step_of_not_completes hc

/-- In it, the block is guarded. -/
theorem guards_step_of_cond {s : BlockState} {b : Block} (htop : s.top = some b)
    (hphase : b.phase = .cond) (hfree : b.guarded = false) {t : Token}
    (hc : s.Completes column value t) : (s.step column value t).guards = s.guards + 1 := by
  have ht : t = .str value := hc.2.2
  subst ht
  simp only [BlockState.guards, BlockState.blocks, BlockState.step, BlockState.accept, if_pos hc,
    htop, Option.map_some, Block.guard, hphase, if_true, List.countP_append]
  simp [hfree]
  omega

/-- **Tokens without the predicate guard no block.** -/
theorem guards_of_absent {ts : List Token} {s : BlockState}
    (h : ¬ predicate column value <:+: s.beforeLast.toList ++ s.last.toList ++ ts) :
    (ts.foldl (BlockState.step column value) s).guards = s.guards := by
  induction ts generalizing s with
  | nil => rfl
  | cons t ts ih =>
    have hc : ¬ s.Completes column value t := by
      rintro ⟨hb, hl, rfl⟩
      exact h (by rw [hb, hl]; exact (List.prefix_append _ ts).isInfix)
    rw [List.foldl_cons, ih, guards_step_of_not_completes hc]
    intro hinf
    refine h (hinf.trans ?_)
    simp only [BlockState.step, Option.toList_some, List.append_assoc, List.singleton_append]
    exact (List.suffix_append s.beforeLast.toList _).isInfix

theorem guards_init : BlockState.init.guards = 0 := rfl

/-- All blocks are guarded if as many are as there are. -/
theorem all_guarded_iff {s : BlockState} (h : s.guards ≤ 1) :
    (s.blocks ≠ [] ∧ ∀ b ∈ s.blocks, b.guarded = true) ↔ s.blocks.length = 1 ∧ s.guards = 1 := by
  unfold BlockState.guards at h ⊢
  rw [← List.countP_eq_length, ← List.length_pos_iff]
  constructor
  · rintro ⟨hpos, hall⟩
    omega
  · rintro ⟨hone, hg⟩
    omega

/-! ## The open `WHERE` clauses -/

/-- No open block is in its `WHERE` clause. -/
structure BlockState.NoCond (s : BlockState) : Prop where
  top : ∀ b ∈ s.top, b.phase ≠ .cond
  below : ∀ o ∈ s.below, ∀ b ∈ o, b.phase ≠ .cond

theorem noCond_word {s : BlockState} (h : s.NoCond) {w : List Char} (hw : w ≠ "WHERE".toList) :
    (s.word w).NoCond := by
  simp only [BlockState.word, if_neg hw]
  split_ifs
  · exact ⟨by simp [Block.new], h.below⟩
  · refine ⟨?_, h.below⟩
    cases ht : s.top with
    | none => simp [Block.new]
    | some b => simpa using h.top b (by simp [ht])
  · refine ⟨?_, h.below⟩
    cases s.top <;> simp [Block.leave]
  · exact h

theorem noCond_sym {s : BlockState} (h : s.NoCond) (c : Char) : (s.sym c).NoCond := by
  unfold BlockState.sym
  split_ifs
  · refine ⟨by simp, fun o ho => ?_⟩
    rcases List.mem_cons.1 ho with rfl | ho
    · exact h.top
    · exact h.below o ho
  · split
    · exact h
    · rename_i b below hb
      exact ⟨h.below b (by simp [hb]), fun o ho => h.below o (by simp [hb, ho])⟩
  · exact h

theorem noCond_step {s : BlockState} (h : s.NoCond) {t : Token} (ht : t ≠ .word "WHERE".toList) :
    (s.step column value t).NoCond := by
  suffices hacc : (s.accept column value t).NoCond from ⟨hacc.top, hacc.below⟩
  cases t with
  | word w => exact noCond_word h fun hw => ht (by rw [hw])
  | sym c => exact noCond_sym h c
  | str v | quoted v | param v =>
    simp only [BlockState.accept]
    split
    · refine ⟨?_, h.below⟩
      cases hs : s.top with
      | none => simp
      | some b => simp [Block.guard, h.top b (by simp [hs])]
    · exact h

theorem noCond_foldl {ts : List Token} (h : .word "WHERE".toList ∉ ts) {s : BlockState}
    (hs : s.NoCond) : (ts.foldl (BlockState.step column value) s).NoCond := by
  induction ts generalizing s with
  | nil => exact hs
  | cons t ts ih =>
    simp only [List.mem_cons, not_or] at h
    exact ih h.2 (noCond_step hs (Ne.symm h.1))

theorem noCond_read {ts : List Token} (h : .word "WHERE".toList ∉ ts) :
    (read column value ts).NoCond :=
  noCond_foldl h ⟨by simp [BlockState.init], by simp [BlockState.init]⟩

/-! ## Weights -/

/-- A predicate in the tokens has its column and its value in them. -/
theorem weight_of_predicate {pat : List Char} {ts : List Token} (h : predicate column value <:+: ts) :
    Occurrence.occ Char.toLower pat column + Occurrence.occ Char.toLower pat value ≤
      weight pat ts := by
  obtain ⟨a, b, rfl⟩ := h
  simp only [weight_append, predicate, weight_cons, weight_nil, Token.text]
  omega

/-- A list that starts with `x` does not start inside a list without `x`. -/
theorem infix_of_not_mem {α : Type} {x : α} {l a b : List α} (hx : x ∉ a)
    (h : x :: l <:+: a ++ b) : x :: l <:+: b := by
  obtain ⟨p, q, hpq⟩ := h
  rw [List.append_assoc] at hpq
  rcases List.append_eq_append_iff.1 hpq with ⟨c, hc, hb⟩ | ⟨c, hc, hb⟩
  · cases c with
    | nil => exact ⟨[], q, by simpa using hb⟩
    | cons y c =>
      simp only [List.cons_append, List.cons.injEq] at hb
      exact absurd (by rw [hc, hb.1]; simp) hx
  · exact ⟨c, q, by rw [hb, List.append_assoc]⟩

end Sql
