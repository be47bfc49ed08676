import Mathlib.Data.Set.Card

/-!
# Deferred writes

A sequence of operations on a memory: each reads its operands, computes a result, keeps it in a slot of
its own and stores it into the cells it writes. A deferred run leaves some of the stores out, and reads some
operands from the slot of an earlier operation instead of from memory. `Sound` says when that is no
difference: an operand read in place finds what the memory would hold, and no operand read from memory meets
a cell whose last store was left out. Then every result is the one of the plain run, and so is every cell
whose last store was made (`deferred_eq_plain`).

Counting the readers is enough for the second condition: where a result has no more reading sites than it
has sites that read it in place, nobody else reads it (`stored_of_sites`).
-/

namespace IreeRocket.Deferred

variable {κ α ρ ν σ τ : Type*}

/-- An operand: the cells it reads, what it finds in a memory, and the slot it reads in place instead, with
what it finds in the result kept there. -/
structure Operand (κ α ρ ν σ τ : Type*) where
  site : τ
  cells : κ → Prop
  view : (κ → α) → ν
  kept : Option (σ × (ρ → ν))

/-- An operation. Its store is left out of a deferred run where it is skipped. -/
structure Op (κ α ρ ν σ τ : Type*) where
  operands : List (Operand κ α ρ ν σ τ)
  compute : List ν → ρ
  writes : κ → Bool
  store : ρ → κ → α
  slot : Option σ
  skipped : Bool

/-- A memory, the slots, and the results so far. -/
structure State (κ α ρ σ : Type*) where
  memory : κ → α
  slots : σ → Option ρ
  results : List ρ

variable {ops : List (Op κ α ρ ν σ τ)} {op : Op κ α ρ ν σ τ} {k : κ} {m n : Nat}

/-! ### The two runs -/

def Op.stored (op : Op κ α ρ ν σ τ) (r : ρ) (memory : κ → α) : κ → α :=
  fun k => if op.writes k then op.store r k else memory k

@[simp] theorem Op.stored_written {r : ρ} {memory : κ → α} (h : op.writes k = true) :
    op.stored r memory k = op.store r k :=
  if_pos h

@[simp] theorem Op.stored_elsewhere {r : ρ} {memory : κ → α} (h : op.writes k = false) :
    op.stored r memory k = memory k :=
  if_neg (by simp [h])

section Runs

variable [DecidableEq σ]

def Op.keep (op : Op κ α ρ ν σ τ) (r : ρ) (slots : σ → Option ρ) : σ → Option ρ :=
  fun s => if op.slot = some s then some r else slots s

/-- Every operand is read from memory, and every store is made. -/
def Op.plain (s : State κ α ρ σ) (op : Op κ α ρ ν σ τ) : State κ α ρ σ :=
  let r := op.compute (op.operands.map fun o => o.view s.memory)
  ⟨op.stored r s.memory, op.keep r s.slots, s.results ++ [r]⟩

/-- What an operand finds in a deferred run. -/
def Operand.read (s : State κ α ρ σ) (o : Operand κ α ρ ν σ τ) : ν :=
  match o.kept with
  | none => o.view s.memory
  | some (slot, inPlace) => (s.slots slot).elim (o.view s.memory) inPlace

def Op.deferred (s : State κ α ρ σ) (op : Op κ α ρ ν σ τ) : State κ α ρ σ :=
  let r := op.compute (op.operands.map fun o => o.read s)
  ⟨if op.skipped then s.memory else op.stored r s.memory, op.keep r s.slots, s.results ++ [r]⟩

def runPlain (ops : List (Op κ α ρ ν σ τ)) (s : State κ α ρ σ) : State κ α ρ σ := ops.foldl Op.plain s

def runDeferred (ops : List (Op κ α ρ ν σ τ)) (s : State κ α ρ σ) : State κ α ρ σ :=
  ops.foldl Op.deferred s

end Runs

/-! ### Last operations -/

/-- Operation `m` is the last of a sequence with a property. -/
def Last (ops : List (Op κ α ρ ν σ τ)) (p : Op κ α ρ ν σ τ → Prop) (m : Nat) : Prop :=
  (∃ op, ops[m]? = some op ∧ p op) ∧ ∀ n op, m < n → ops[n]? = some op → ¬ p op

/-- Operation `m` is the last to write the cell. -/
def LastWriter (ops : List (Op κ α ρ ν σ τ)) (k : κ) : Nat → Prop := Last ops (·.writes k = true)

variable {p : Op κ α ρ ν σ τ → Prop}

theorem Last.lt (h : Last ops p m) : m < ops.length := by
  obtain ⟨⟨op, hop, -⟩, -⟩ := h
  exact (List.getElem?_eq_some_iff.mp hop).1

theorem Last.append (h : Last ops p m) (before : List (Op κ α ρ ν σ τ)) :
    Last (before ++ ops) p (before.length + m) := by
  obtain ⟨⟨op, hop, hp⟩, hafter⟩ := h
  refine ⟨⟨op, ?_, hp⟩, fun n op' hn hop' => ?_⟩
  · rw [List.getElem?_append_right (by omega), Nat.add_sub_cancel_left, hop]
  · rw [List.getElem?_append_right (by omega)] at hop'
    exact hafter (n - before.length) op' (by omega) hop'

theorem Last.unique {m' : Nat} (h : Last ops p m) (h' : Last ops p m') : m = m' := by
  obtain ⟨⟨op, hop, hp⟩, hafter⟩ := h
  obtain ⟨⟨op', hop', hp'⟩, hafter'⟩ := h'
  rcases Nat.lt_trichotomy m m' with hlt | heq | hgt
  · exact absurd hp' (hafter m' op' hlt hop')
  · exact heq
  · exact absurd hp (hafter' m op hgt hop)

theorem take_succ (h : ops[n]? = some op) : ops.take (n + 1) = ops.take n ++ [op] := by
  rw [List.take_add_one, h]
  rfl

theorem length_take_of_getElem? (h : ops[n]? = some op) : (ops.take n).length = n := by
  rw [List.length_take]
  exact Nat.min_eq_left (Nat.le_of_lt (List.getElem?_eq_some_iff.mp h).1)

/-- One more operation with the property is the last. -/
theorem last_take_succ (h : ops[n]? = some op) :
    Last (ops.take (n + 1)) p m ↔ (p op ∧ m = n) ∨ (¬ p op ∧ Last (ops.take n) p m) := by
  have hlength := length_take_of_getElem? h
  have hlast : (ops.take (n + 1))[n]? = some op := by
    rw [List.getElem?_take, if_pos (Nat.lt_succ_self n), h]
  have hsame : ∀ i, i < n → (ops.take (n + 1))[i]? = (ops.take n)[i]? := by
    intro i hi
    rw [List.getElem?_take, List.getElem?_take, if_pos (by omega), if_pos hi]
  have hend : ∀ i, n < i → (ops.take (n + 1))[i]? = none := by
    intro i hi
    rw [List.getElem?_take, if_neg (by omega)]
  constructor
  · intro hl
    by_cases hp : p op
    · refine .inl ⟨hp, hl.unique ⟨⟨op, hlast, hp⟩, fun i w hi hget => ?_⟩⟩
      simp [hend i hi] at hget
    · obtain ⟨⟨w, hm, hw⟩, hafter⟩ := hl
      have hmn : m < n := by
        rcases Nat.lt_trichotomy m n with hlt | rfl | hgt
        · exact hlt
        · rw [hlast, Option.some.injEq] at hm
          exact absurd (hm ▸ hw) hp
        · simp [hend m hgt] at hm
      refine .inr ⟨hp, ⟨w, hsame m hmn ▸ hm, hw⟩, fun i v hi hget => ?_⟩
      have hin : i < n := by
        have := (List.getElem?_eq_some_iff.mp hget).1
        omega
      exact hafter i v hi ((hsame i hin).trans hget)
  · rintro (⟨hp, rfl⟩ | ⟨hp, hl⟩)
    · refine ⟨⟨op, hlast, hp⟩, fun i w hi hget => ?_⟩
      simp [hend i hi] at hget
    · have hmn := hl.lt
      obtain ⟨⟨w, hm, hw⟩, hafter⟩ := hl
      refine ⟨⟨w, (hsame m (by omega)).trans hm, hw⟩, fun i v hi hget => ?_⟩
      rcases Nat.lt_trichotomy i n with hlt | rfl | hgt
      · exact hafter i v hi (hsame i hlt ▸ hget)
      · rw [hlast, Option.some.injEq] at hget
        exact hget ▸ hp
      · simp [hend i hgt] at hget

/-! ### Soundness -/

/-- What makes a deferred run sound. -/
structure Sound (ops : List (Op κ α ρ ν σ τ)) : Prop where
  /-- A view depends on its cells. -/
  view_cells : ∀ op ∈ ops, ∀ o ∈ op.operands, ∀ memory memory' : κ → α,
    (∀ k, o.cells k → memory k = memory' k) → o.view memory = o.view memory'
  /-- No store that was left out is looked for in memory. -/
  stored : ∀ n op, ops[n]? = some op → ∀ o ∈ op.operands, o.kept = none → ∀ k, o.cells k →
    ∀ m w, LastWriter (ops.take n) k m → ops[m]? = some w → w.skipped = false
  /-- The last result kept in the slot of an operand was also the last written to each of its cells, and
  shows what they would. -/
  in_place : ∀ n op, ops[n]? = some op → ∀ o ∈ op.operands, ∀ slot inPlace, o.kept = some (slot, inPlace) →
    ∃ m w, ops[m]? = some w ∧ Last (ops.take n) (·.slot = some slot) m ∧
      (∀ k, o.cells k → LastWriter (ops.take n) k m) ∧
      ∀ values memory, (∀ k, o.cells k → memory k = w.store (w.compute values) k) →
        inPlace (w.compute values) = o.view memory

/-- The states of the two runs after `n` operations. -/
structure Agree (ops : List (Op κ α ρ ν σ τ)) (n : Nat) (plain deferred : State κ α ρ σ) : Prop where
  length : plain.results.length = n
  results : deferred.results = plain.results
  computed : ∀ (m : Nat) (w : Op κ α ρ ν σ τ) r, ops[m]? = some w → plain.results[m]? = some r →
    ∃ values, r = w.compute values
  written : ∀ k m w r, LastWriter (ops.take n) k m → ops[m]? = some w →
    plain.results[m]? = some r → plain.memory k = w.store r k
  slots : ∀ slot m, Last (ops.take n) (·.slot = some slot) m →
    deferred.slots slot = deferred.results[m]?
  memory : ∀ k, (∀ m w, LastWriter (ops.take n) k m → ops[m]? = some w → w.skipped = false) →
    deferred.memory k = plain.memory k

variable {plain deferred s : State κ α ρ σ}

/-- Every operand finds the same in both runs. -/
theorem Agree.read (hsound : Sound ops) (h : Agree ops n plain deferred) (hop : ops[n]? = some op)
    {o : Operand κ α ρ ν σ τ} (ho : o ∈ op.operands) : o.read deferred = o.view plain.memory := by
  unfold Operand.read
  cases hkept : o.kept with
  | none =>
    exact hsound.view_cells op (List.mem_of_getElem? hop) o ho _ _ fun k hk =>
      h.memory k fun m w hlast hw => hsound.stored n op hop o ho hkept k hk m w hlast hw
  | some kept =>
    obtain ⟨slot, inPlace⟩ := kept
    obtain ⟨m, w, hw, hslot, hlast, hview⟩ := hsound.in_place n op hop o ho slot inPlace hkept
    have hm : m < n := length_take_of_getElem? hop ▸ hslot.lt
    obtain ⟨r, hr⟩ : ∃ r, plain.results[m]? = some r :=
      ⟨_, List.getElem?_eq_getElem (h.length ▸ hm)⟩
    obtain ⟨values, hvalues⟩ := h.computed m w r hw hr
    dsimp only
    rw [h.slots slot m hslot, h.results, hr, Option.elim_some, hvalues]
    exact hview values _ fun k hk => hvalues ▸ h.written k m w r (hlast k hk) hw hr

section Agreement

variable [DecidableEq σ]

/-- One operation keeps the agreement. -/
theorem Agree.step (hsound : Sound ops) (h : Agree ops n plain deferred) (hop : ops[n]? = some op) :
    Agree ops (n + 1) (Op.plain plain op) (Op.deferred deferred op) := by
  have hcompute : op.compute (op.operands.map fun o => o.read deferred) =
      op.compute (op.operands.map fun o => o.view plain.memory) :=
    congrArg op.compute (List.map_congr_left fun o ho => h.read hsound hop ho)
  unfold Op.plain Op.deferred
  rw [hcompute]
  set values := op.operands.map fun o => o.view plain.memory
  -- the results so far and the new one
  have hearlier : ∀ i < n, (plain.results ++ [op.compute values])[i]? = plain.results[i]? := fun i hi =>
    List.getElem?_append_left (h.length ▸ hi)
  have hnew : (plain.results ++ [op.compute values])[n]? = some (op.compute values) := by
    rw [List.getElem?_append_right (Nat.le_of_eq h.length), h.length, Nat.sub_self]
    rfl
  refine ⟨by simp [h.length], by rw [h.results], ?_, ?_, ?_, ?_⟩
  · intro m w r hw hr
    dsimp only at hr
    rcases Nat.lt_trichotomy m n with hlt | rfl | hgt
    · exact h.computed m w r hw (hearlier m hlt ▸ hr)
    · rw [hop, Option.some.injEq] at hw
      rw [hnew, Option.some.injEq] at hr
      exact ⟨values, by rw [← hw, hr]⟩
    · have hin := (List.getElem?_eq_some_iff.mp hr).1
      rw [List.length_append, h.length, List.length_singleton] at hin
      omega
  · intro k m w r hlast hw hr
    dsimp only at hr ⊢
    rcases (last_take_succ hop).mp hlast with ⟨hwrites, rfl⟩ | ⟨hwrites, hbefore⟩
    · rw [hop, Option.some.injEq] at hw
      rw [hnew, Option.some.injEq] at hr
      rw [Op.stored_written hwrites, hr, hw]
    · rw [hearlier m (length_take_of_getElem? hop ▸ hbefore.lt)] at hr
      rw [Op.stored_elsewhere (Bool.eq_false_iff.mpr hwrites)]
      exact h.written k m w r hbefore hw hr
  · intro slot m hlast
    dsimp only
    rw [h.results]
    rcases (last_take_succ hop).mp hlast with ⟨hslot, rfl⟩ | ⟨hslot, hbefore⟩
    · rw [hnew]
      exact if_pos hslot
    · rw [hearlier m (length_take_of_getElem? hop ▸ hbefore.lt), ← h.results, ← h.slots slot m hbefore]
      exact if_neg hslot
  · intro k hk
    dsimp only
    cases hwrites : op.writes k with
    | true =>
      have hskipped := hk n op ((last_take_succ hop).mpr (.inl ⟨hwrites, rfl⟩)) hop
      rw [hskipped, if_neg Bool.false_ne_true, Op.stored_written hwrites, Op.stored_written hwrites]
    | false =>
      have hkeep : deferred.memory k = plain.memory k := h.memory k fun m w hlast hw =>
        hk m w ((last_take_succ hop).mpr (.inr ⟨by simp [hwrites], hlast⟩)) hw
      rw [Op.stored_elsewhere hwrites]
      cases op.skipped
      · rw [if_neg Bool.false_ne_true, Op.stored_elsewhere hwrites, hkeep]
      · rw [if_pos rfl, hkeep]

/-- The runs agree after every operation. -/
theorem agree_take (hsound : Sound ops) (memory : κ → α) (slots : σ → Option ρ) : ∀ n ≤ ops.length,
    Agree ops n (runPlain (ops.take n) ⟨memory, slots, []⟩) (runDeferred (ops.take n) ⟨memory, slots, []⟩) := by
  intro n
  induction n with
  | zero =>
    intro _
    refine ⟨rfl, rfl, ?_, ?_, ?_, fun k _ => rfl⟩
    · intro m w r _ hr
      cases hr
    · intro k m w r _ _ hr
      cases hr
    · intro slot m hlast
      exact absurd hlast.lt (Nat.not_lt_zero m)
  | succ n ih =>
    intro hn
    have hop : ops[n]? = some ops[n] := List.getElem?_eq_getElem hn
    rw [take_succ hop]
    unfold runPlain runDeferred
    rw [List.foldl_append, List.foldl_append]
    exact (ih (by omega)).step hsound hop

/-- **A sound deferred run is a plain run**: every result is the same, and every cell whose last store was
made. -/
theorem deferred_eq_plain (hsound : Sound ops) (memory : κ → α) (slots : σ → Option ρ) :
    (runDeferred ops ⟨memory, slots, []⟩).results = (runPlain ops ⟨memory, slots, []⟩).results ∧
      ∀ k, (∀ m w, LastWriter ops k m → ops[m]? = some w → w.skipped = false) →
        (runDeferred ops ⟨memory, slots, []⟩).memory k = (runPlain ops ⟨memory, slots, []⟩).memory k := by
  have h := agree_take hsound memory slots ops.length (Nat.le_refl _)
  rw [List.take_length] at h
  exact ⟨h.results, fun k hk => h.memory k (by rwa [List.take_length])⟩

end Agreement

/-! ### Counting reading sites -/

/-- Operand `o` of operation `n`. -/
def Reads (ops : List (Op κ α ρ ν σ τ)) (n : Nat) (o : Operand κ α ρ ν σ τ) : Prop :=
  ∃ op, ops[n]? = some op ∧ o ∈ op.operands

/-- The sites of the operands that read a cell operation `m` was the last to write. -/
def readingSites (ops : List (Op κ α ρ ν σ τ)) (m : Nat) : Set τ :=
  {site | ∃ n o, Reads ops n o ∧ o.site = site ∧ ∃ k, o.cells k ∧ LastWriter (ops.take n) k m}

/-- Where a store is left out only of a result with no more reading sites than it has sites that read in
place, no operand read from memory meets it. -/
theorem stored_of_sites
    (hsites : ∀ m w, ops[m]? = some w → w.skipped = true → ∃ inPlace : Finset τ,
      ↑inPlace ⊆ readingSites ops m ∧ (readingSites ops m).encard ≤ inPlace.card ∧
        ∀ n o, Reads ops n o → o.site ∈ inPlace → o.kept ≠ none) :
    ∀ n op, ops[n]? = some op → ∀ o ∈ op.operands, o.kept = none → ∀ k, o.cells k →
      ∀ m w, LastWriter (ops.take n) k m → ops[m]? = some w → w.skipped = false := by
  intro n op hop o ho hnone k hk m w hlast hw
  by_contra hskipped
  obtain ⟨inPlace, hsubset, hcount, hkept⟩ := hsites m w hw (by simpa using hskipped)
  have heq : (inPlace : Set τ) = readingSites ops m :=
    inPlace.finite_toSet.eq_of_subset_of_encard_le hsubset (by rwa [Set.encard_coe_eq_coe_finsetCard])
  have hreads : Reads ops n o := ⟨op, hop, ho⟩
  have hmem : o.site ∈ (inPlace : Set τ) := heq ▸ ⟨n, o, hreads, rfl, k, hk, hlast⟩
  exact hkept n o hreads (Finset.mem_coe.mp hmem) hnone

end IreeRocket.Deferred
