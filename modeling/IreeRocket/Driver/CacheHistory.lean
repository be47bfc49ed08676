import IreeRocket.Driver.WeightCache
import IreeRocket.Lib.Runs
import Mathlib.Algebra.BigOperators.Group.List.Basic

/-!
# What the weight cache remembers

The cache is specified by the history of its calls: an entry is live where its publish is the last one of
its key that counts and nothing since has ended it (`Live`). One call keeps the entries it does not end and
adds the entry it publishes (`mem_step_iff`), and so does one more call of a history (`live_concat`), so
the entries of the map are the live ones.

The running total is checked with a saturating sum and then added to without one. Where the budget is all of
`usize`, the check lets everything in, and a total that does not fit wraps.
-/

namespace IreeRocket.WeightCache

open Runs

/-- A call of the cache's interface. -/
inductive Call
  | lookup (key : Key) (generation : Nat)
  | lookupOtherContext (key : Key) (generation : Nat)
  | publish (key : Key) (generation buffer bytes : Nat)
  | forget (buffer : Nat)
  | clear
  deriving DecidableEq

/-- The cache after a call. -/
def Cache.step (settings : Settings) (cache : Cache) : Call → Cache
  | .lookup key generation => (cache.lookup settings key generation).2
  | .lookupOtherContext _ _ => cache
  | .publish key generation buffer bytes => cache.publish settings key generation buffer bytes
  | .forget buffer => cache.forget settings buffer
  | .clear => .clear

/-- The cache after a history of calls. -/
def cacheAfter (settings : Settings) (calls : List Call) : Cache :=
  after (Cache.step settings) .empty calls

/-- What the live entries take up. -/
def Cache.held (entries : List (Key × Entry)) : Nat := (entries.map (·.2.bytes)).sum

/-! ### The specification -/

/-- The call ends an entry of the key at the generation. -/
def Call.Ends (key : Key) (generation : Nat) : Call → Prop
  | lookup other asked => other = key ∧ asked ≠ generation
  | lookupOtherContext _ _ => False
  | publish other _ _ _ => other = key
  | forget buffer => buffer = key.buffer
  | clear => True

/-- A publish fits: the entries of other keys and the new one are within the budget. -/
def Fits (settings : Settings) (cache : Cache) (key : Key) (bytes : Nat) : Prop :=
  Cache.held (cache.entries.filter (·.1 ≠ key)) + bytes ≤ settings.budgetBytes

/-- The last publish of the key made the entry, fitted, and nothing has ended it since. -/
def Live (settings : Settings) (calls : List Call) (key : Key) (entry : Entry) : Prop :=
  ∃ before later,
    calls = before ++ .publish key entry.generation entry.buffer entry.bytes :: later ∧
      Fits settings (cacheAfter settings before) key entry.bytes ∧
      ∀ call ∈ later, ¬ call.Ends key entry.generation

variable {settings : Settings} {cache : Cache} {calls : List Call} {call : Call} {key : Key} {entry : Entry}

/-- One more call keeps the live entries it does not end, and makes the one it publishes live. -/
theorem live_concat : Live settings (calls ++ [call]) key entry ↔
    (Live settings calls key entry ∧ ¬ call.Ends key entry.generation) ∨
      (call = .publish key entry.generation entry.buffer entry.bytes ∧
        Fits settings (cacheAfter settings calls) key entry.bytes) := by
  constructor
  · rintro ⟨before, later, hsplit, hfits, hkept⟩
    rcases List.eq_nil_or_concat later with rfl | ⟨later, last, rfl⟩
    · obtain ⟨rfl, hcall⟩ := List.append_inj' hsplit rfl
      exact .inr ⟨List.singleton_inj.mp hcall, hfits⟩
    · rw [List.concat_eq_append, ← List.cons_append, ← List.append_assoc] at hsplit
      obtain ⟨rfl, hcall⟩ := List.append_inj' hsplit rfl
      obtain rfl := List.singleton_inj.mp hcall
      refine .inl ⟨⟨before, later, rfl, hfits, fun c hc => hkept c ?_⟩, hkept call ?_⟩
      · rw [List.concat_eq_append]
        exact List.mem_append_left _ hc
      · rw [List.concat_eq_append]
        exact List.mem_append_right _ (List.mem_singleton_self _)
  · rintro (⟨⟨before, later, rfl, hfits, hkept⟩, hends⟩ | ⟨rfl, hfits⟩)
    · refine ⟨before, later ++ [call], by simp, hfits, ?_⟩
      intro c hc
      rcases List.mem_append.mp hc with hc | hc
      · exact hkept c hc
      · rw [List.mem_singleton.mp hc]
        exact hends
    · exact ⟨calls, [], rfl, hfits, by simp⟩

/-! ### The invariant -/

/-- The map has one entry for a key, and the total is theirs. -/
structure Consistent (settings : Settings) (cache : Cache) : Prop where
  nodup : (cache.entries.map Prod.fst).Nodup
  total : cache.bytes = Cache.held cache.entries
  budget : cache.bytes ≤ settings.budgetBytes
  word : cache.bytes < 2 ^ 64

/-- A publish that the budget lets in does not overflow the total. -/
def NoOverflow (settings : Settings) (cache : Cache) : Call → Prop
  | .publish key _ _ bytes =>
    min ((cache.remove key).bytes + bytes) usizeMax ≤ settings.budgetBytes →
      (cache.remove key).bytes + bytes ≤ usizeMax
  | _ => True

instance (settings : Settings) (cache : Cache) (call : Call) :
    Decidable (NoOverflow settings cache call) :=
  match call with
  | .publish key _ _ bytes =>
    inferInstanceAs (Decidable (min ((cache.remove key).bytes + bytes) usizeMax ≤
      settings.budgetBytes → (cache.remove key).bytes + bytes ≤ usizeMax))
  | .lookup _ _ | .lookupOtherContext _ _ | .forget _ | .clear => inferInstanceAs (Decidable True)

theorem held_filter_add (p : Key × Entry → Bool) (entries : List (Key × Entry)) :
    Cache.held (entries.filter p) + Cache.held (entries.filter fun e => !p e) = Cache.held entries := by
  induction entries with
  | nil => rfl
  | cons e entries ih =>
    unfold Cache.held at ih ⊢
    cases hp : p e <;> simp [hp] <;> omega

/-- Around its one entry no other entry has the key. -/
theorem split_of_mem (h : (cache.entries.map Prod.fst).Nodup) (hmem : (key, entry) ∈ cache.entries) :
    ∃ before later, cache.entries = before ++ (key, entry) :: later ∧
      (∀ p ∈ before, p.1 ≠ key) ∧ ∀ p ∈ later, p.1 ≠ key := by
  obtain ⟨before, later, hsplit⟩ := List.append_of_mem hmem
  rw [hsplit, List.map_append, List.map_cons] at h
  obtain ⟨-, hlater, hdisjoint⟩ := List.nodup_append'.mp h
  refine ⟨before, later, hsplit, ?_, ?_⟩
  · rintro p hp rfl
    exact hdisjoint (List.mem_map_of_mem hp) List.mem_cons_self
  · rintro p hp rfl
    exact (List.nodup_cons.mp hlater).1 (List.mem_map.mpr ⟨p, hp, rfl⟩)

theorem get_eq_some_iff (h : (cache.entries.map Prod.fst).Nodup) :
    cache.get key = some entry ↔ (key, entry) ∈ cache.entries := by
  refine ⟨Cache.mem_of_get, fun hmem => ?_⟩
  obtain ⟨before, later, hsplit, hbefore, -⟩ := split_of_mem h hmem
  rw [Cache.get, hsplit]
  apply List.lookup_eq_some_iff.mpr
  exact ⟨before, later, rfl, fun p hp => bne_iff_ne.mpr (hbefore p hp).symm⟩

theorem remove_entries (cache : Cache) (key : Key) :
    (cache.remove key).entries = cache.entries.filter (·.1 ≠ key) := by
  unfold Cache.remove
  cases hget : cache.get key with
  | some entry => rfl
  | none =>
    refine (List.filter_eq_self.mpr fun p hp => ?_).symm
    have hlookup := bne_iff_ne.mp (List.lookup_eq_none_iff.mp hget p hp)
    exact decide_eq_true hlookup.symm

/-- Removing an entry gives its bytes back. -/
theorem Consistent.remove_bytes (h : Consistent settings cache) (key : Key) :
    (cache.remove key).bytes = Cache.held (cache.entries.filter (·.1 ≠ key)) := by
  have hentries := remove_entries cache key
  unfold Cache.remove at hentries ⊢
  cases hget : cache.get key with
  | none =>
    rw [hget] at hentries
    exact h.total.trans (congrArg Cache.held hentries)
  | some entry =>
    obtain ⟨before, later, hsplit, hbefore, hlater⟩ := split_of_mem h.nodup (Cache.mem_of_get hget)
    have hkept {l : List (Key × Entry)} (hl : ∀ p ∈ l, p.1 ≠ key) : l.filter (·.1 ≠ key) = l :=
      List.filter_eq_self.mpr fun p hp => decide_eq_true (hl p hp)
    have hfilter : cache.entries.filter (·.1 ≠ key) = before ++ later := by
      rw [hsplit, List.filter_append, hkept hbefore, List.filter_cons_of_neg (by simp), hkept hlater]
    rw [hfilter, h.total, hsplit]
    simp only [Cache.held, List.map_append, List.map_cons, List.sum_append, List.sum_cons]
    omega

theorem Consistent.remove (h : Consistent settings cache) (key : Key) :
    Consistent settings (cache.remove key) := by
  have hle : (cache.remove key).bytes ≤ cache.bytes := by
    have hsplit := held_filter_add (fun e => e.1 ≠ key) cache.entries
    rw [h.remove_bytes, h.total]
    omega
  constructor
  · rw [remove_entries]
    exact h.nodup.sublist (List.filter_sublist.map Prod.fst)
  · rw [h.remove_bytes, remove_entries]
  · exact hle.trans h.budget
  · exact hle.trans_lt h.word

/-- One guarded call keeps the map consistent. -/
theorem Consistent.step (h : Consistent settings cache) (hcall : NoOverflow settings cache call) :
    Consistent settings (cache.step settings call) := by
  cases call with
  | lookup key generation =>
    show Consistent settings (cache.lookup settings key generation).2
    unfold Cache.lookup
    split
    · split
      · split
        · exact h
        · exact h.remove key
      · exact h
    · exact h
  | lookupOtherContext key generation => exact h
  | publish key generation buffer bytes =>
    show Consistent settings (cache.publish settings key generation buffer bytes)
    have hremoved := h.remove key
    unfold Cache.publish
    split
    · dsimp only
      split
      · exact hremoved
      next hbudget =>
        have hfits := hcall (not_lt.mp hbudget)
        have hmin := min_eq_left hfits
        have husize : usizeMax = 2 ^ 64 - 1 := rfl
        have htotal : wrap64 ((cache.remove key).bytes + bytes) = (cache.remove key).bytes + bytes :=
          wrap64_of_lt (by omega)
        constructor
        · rw [List.map_cons, List.nodup_cons]
          refine ⟨fun hmem => ?_, hremoved.nodup⟩
          obtain ⟨p, hp, hkey⟩ := List.mem_map.mp hmem
          rw [remove_entries, List.mem_filter, decide_eq_true_eq] at hp
          exact hp.2 hkey
        · rw [htotal, hremoved.total, Cache.held, Cache.held, List.map_cons, List.sum_cons, Nat.add_comm]
        · dsimp only
          omega
        · dsimp only
          omega
    · exact h
  | forget buffer =>
    show Consistent settings (cache.forget settings buffer)
    have hsplit := held_filter_add (fun e => e.1.buffer = buffer) cache.entries
    have hword := h.word
    have htotal := h.total
    unfold Cache.forget
    split
    · have hkept : (cache.entries.filter fun e => !decide (e.1.buffer = buffer)) =
          cache.entries.filter (·.1.buffer ≠ buffer) :=
        congrArg (List.filter · cache.entries) (funext fun e => by simp)
      rw [hkept] at hsplit
      have hfreed : wrap64 ((cache.entries.filter (·.1.buffer = buffer)).map (·.2.bytes)).sum =
          Cache.held (cache.entries.filter (·.1.buffer = buffer)) :=
        wrap64_of_lt (by unfold Cache.held at hsplit htotal; omega)
      dsimp only
      rw [hfreed]
      have hbudget := h.budget
      constructor
      · exact h.nodup.sublist (List.filter_sublist.map Prod.fst)
      · dsimp only
        omega
      · dsimp only
        omega
      · dsimp only
        omega
    · exact h
  | clear =>
    exact ⟨List.nodup_nil, rfl, Nat.zero_le _, Nat.two_pow_pos 64⟩

/-! ### The entries are the live ones -/

theorem mem_lookup_iff (h : Consistent settings cache) (henabled : settings.enabled = true)
    {other : Key} {generation : Nat} :
    (key, entry) ∈ (cache.lookup settings other generation).2.entries ↔
      (key, entry) ∈ cache.entries ∧ ¬(other = key ∧ generation ≠ entry.generation) := by
  unfold Cache.lookup
  rw [if_pos henabled]
  cases hget : cache.get other with
  | none =>
    refine (and_iff_left_of_imp fun hmem => ?_).symm
    rintro ⟨rfl, -⟩
    cases hget.symm.trans ((get_eq_some_iff h.nodup).mpr hmem)
  | some found =>
    by_cases hgeneration : found.generation = generation
    · simp only [hgeneration, if_true]
      refine (and_iff_left_of_imp fun hmem => ?_).symm
      rintro ⟨rfl, hne⟩
      obtain rfl := Option.some.inj (hget.symm.trans ((get_eq_some_iff h.nodup).mpr hmem))
      exact hne hgeneration.symm
    · simp only [hgeneration, if_false]
      rw [remove_entries, List.mem_filter, decide_eq_true_eq]
      refine and_congr_right fun hmem => ?_
      constructor
      · rintro hne ⟨rfl, -⟩
        exact hne rfl
      · rintro hends rfl
        obtain rfl := Option.some.inj (hget.symm.trans ((get_eq_some_iff h.nodup).mpr hmem))
        exact hends ⟨rfl, fun heq => hgeneration heq.symm⟩

/-- **What a call leaves**: the entries it does not end, and the one it publishes. -/
theorem mem_step_iff (h : Consistent settings cache) (henabled : settings.enabled = true)
    (hcall : NoOverflow settings cache call) :
    (key, entry) ∈ (cache.step settings call).entries ↔
      ((key, entry) ∈ cache.entries ∧ ¬ call.Ends key entry.generation) ∨
        (call = .publish key entry.generation entry.buffer entry.bytes ∧
          Fits settings cache key entry.bytes) := by
  cases call with
  | lookup other generation =>
    refine (mem_lookup_iff h henabled).trans ?_
    simp only [reduceCtorEq, false_and, or_false]
    rfl
  | lookupOtherContext other generation =>
    simp only [reduceCtorEq, false_and, or_false, Call.Ends, not_false_eq_true, and_true]
    rfl
  | publish other generation buffer bytes =>
    have hbytes := h.remove_bytes other
    show (key, entry) ∈ (cache.publish settings other generation buffer bytes).entries ↔ _
    unfold Cache.publish
    rw [if_pos henabled]
    dsimp only
    have hold : (key, entry) ∈ (cache.remove other).entries ↔
        (key, entry) ∈ cache.entries ∧ ¬ other = key := by
      rw [remove_entries, List.mem_filter, decide_eq_true_eq]
      exact and_congr_right fun _ => not_congr eq_comm
    have hfits : min ((cache.remove other).bytes + bytes) usizeMax ≤ settings.budgetBytes ↔
        Fits settings cache other bytes := by
      unfold Fits
      rw [← hbytes]
      constructor
      · intro hle
        have hmin := min_eq_left (hcall hle)
        omega
      · intro hle
        exact (min_le_left _ _).trans hle
    split
    next hover =>
      rw [hold]
      refine (or_iff_left ?_).symm
      rintro ⟨hsame, hfit⟩
      cases hsame
      exact absurd (hfits.mpr hfit) (not_le.mpr hover)
    next hunder =>
      have hfit := hfits.mp (not_lt.mp hunder)
      rw [List.mem_cons, hold, or_comm]
      refine or_congr_right ?_
      constructor
      · intro heq
        obtain ⟨rfl, rfl⟩ := Prod.mk.inj heq
        exact ⟨rfl, hfit⟩
      · rintro ⟨hsame, -⟩
        cases hsame
        rfl
  | forget buffer =>
    show (key, entry) ∈ (cache.forget settings buffer).entries ↔ _
    unfold Cache.forget
    rw [if_pos henabled]
    simp only [List.mem_filter, decide_eq_true_eq, reduceCtorEq, false_and, or_false]
    exact and_congr_right fun _ => not_congr eq_comm
  | clear =>
    show (key, entry) ∈ Cache.clear.entries ↔ _
    simp only [reduceCtorEq, false_and, or_false, Call.Ends, not_true_eq_false, and_false]
    exact iff_of_false List.not_mem_nil id

theorem empty_consistent : Consistent settings .empty :=
  ⟨List.nodup_nil, rfl, Nat.zero_le _, Nat.two_pow_pos 64⟩

/-- In a run whose publishes do not overflow. -/
theorem cacheAfter_consistent
    (h : Guarded (Cache.step settings) (NoOverflow settings) .empty calls) :
    Consistent settings (cacheAfter settings calls) :=
  invariant (fun _ _ hinv hok => hinv.step hok) empty_consistent h

/-- **The entries of the map are the live ones.** -/
theorem mem_cacheAfter_iff (henabled : settings.enabled = true)
    (h : Guarded (Cache.step settings) (NoOverflow settings) .empty calls) :
    (key, entry) ∈ (cacheAfter settings calls).entries ↔ Live settings calls key entry := by
  induction calls using List.reverseRecOn with
  | nil =>
    refine iff_of_false List.not_mem_nil ?_
    rintro ⟨before, later, hsplit, -⟩
    exact absurd hsplit (by simp)
  | append_singleton calls call ih =>
    obtain ⟨hbefore, hlast⟩ := guarded_concat.mp h
    have hstep : cacheAfter settings (calls ++ [call]) = (cacheAfter settings calls).step settings call :=
      after_concat
    rw [hstep, mem_step_iff (cacheAfter_consistent hbefore) henabled hlast, ih hbefore, live_concat]

/-- The cache does what the history says. -/
structure MeetsHistory (settings : Settings) (calls : List Call) : Prop where
  lookup : ∀ key generation buffer,
    ((cacheAfter settings calls).lookup settings key generation).1 = some buffer ↔
      ∃ bytes, Live settings calls key ⟨generation, buffer, bytes⟩
  other : ∀ key generation,
    ((cacheAfter settings calls).lookupOtherContext settings key generation).isSome = true ↔
      ∃ context < maxContexts, context ≠ key.context ∧
        ∃ buffer bytes, Live settings calls { key with context } ⟨generation, buffer, bytes⟩
  other_buffer : ∀ key generation buffer,
    (cacheAfter settings calls).lookupOtherContext settings key generation = some buffer →
      ∃ context < maxContexts, context ≠ key.context ∧
        ∃ bytes, Live settings calls { key with context } ⟨generation, buffer, bytes⟩
  total : (cacheAfter settings calls).bytes = Cache.held (cacheAfter settings calls).entries
  budget : (cacheAfter settings calls).bytes ≤ settings.budgetBytes
  unforgotten : ∀ key entry, (key, entry) ∈ (cacheAfter settings calls).entries →
    ∃ before later,
      calls = before ++ .publish key entry.generation entry.buffer entry.bytes :: later ∧
        .forget key.buffer ∉ later

section Answers

variable {generation buffer : Nat}

theorem lookup_iff (h : Consistent settings cache) (henabled : settings.enabled = true) :
    (cache.lookup settings key generation).1 = some buffer ↔
      ∃ bytes, (key, ⟨generation, buffer, bytes⟩) ∈ cache.entries := by
  constructor
  · intro hlookup
    obtain ⟨-, ⟨_, _, bytes⟩, hmem, rfl, rfl⟩ := Cache.lookup_some hlookup
    exact ⟨bytes, hmem⟩
  · rintro ⟨bytes, hmem⟩
    unfold Cache.lookup
    rw [if_pos henabled, (get_eq_some_iff h.nodup).mpr hmem]
    exact congrArg Prod.fst (if_pos rfl)

theorem lookupOtherContext_some_iff (h : Consistent settings cache) (henabled : settings.enabled = true) :
    (cache.lookupOtherContext settings key generation).isSome = true ↔
      ∃ context < maxContexts, context ≠ key.context ∧
        ∃ buffer bytes, ({ key with context }, ⟨generation, buffer, bytes⟩) ∈ cache.entries := by
  unfold Cache.lookupOtherContext
  rw [if_pos henabled, List.findSome?_isSome_iff]
  simp only [List.mem_filter, List.mem_range, decide_eq_true_eq, and_assoc]
  refine exists_congr fun context => and_congr_right fun _ => and_congr_right fun _ => ?_
  cases hget : cache.get { key with context } with
  | none =>
    refine iff_of_false Bool.false_ne_true ?_
    rintro ⟨buffer, bytes, hmem⟩
    cases hget.symm.trans ((get_eq_some_iff h.nodup).mpr hmem)
  | some entry =>
    constructor
    · intro hsome
      by_cases hgeneration : entry.generation = generation
      · subst hgeneration
        exact ⟨entry.buffer, entry.bytes, Cache.mem_of_get hget⟩
      · simp [hgeneration] at hsome
    · rintro ⟨buffer, bytes, hmem⟩
      obtain rfl := Option.some.inj (hget.symm.trans ((get_eq_some_iff h.nodup).mpr hmem))
      simp

theorem lookupOtherContext_buffer
    (hlookup : cache.lookupOtherContext settings key generation = some buffer) :
    ∃ context < maxContexts, context ≠ key.context ∧
      ∃ bytes, ({ key with context }, ⟨generation, buffer, bytes⟩) ∈ cache.entries := by
  unfold Cache.lookupOtherContext at hlookup
  split at hlookup
  · obtain ⟨context, hcontext, hfound⟩ := List.exists_of_findSome?_eq_some hlookup
    simp only [List.mem_filter, List.mem_range, decide_eq_true_eq] at hcontext
    split at hfound
    next entry hget =>
      split at hfound
      next hgeneration =>
        obtain rfl := Option.some.inj hfound
        subst hgeneration
        exact ⟨context, hcontext.1, hcontext.2, entry.bytes, Cache.mem_of_get hget⟩
      · cases hfound
    · cases hfound
  · cases hlookup

end Answers

/-- **The cache implements its history**, in every run whose publishes do not overflow the total. -/
theorem cache_meets_history (settings : Settings) (calls : List Call)
    (henabled : settings.enabled = true)
    (h : Guarded (Cache.step settings) (NoOverflow settings) .empty calls) :
    MeetsHistory settings calls := by
  have hconsistent := cacheAfter_consistent h
  constructor
  · intro key generation buffer
    rw [lookup_iff hconsistent henabled]
    exact exists_congr fun bytes => mem_cacheAfter_iff henabled h
  · intro key generation
    rw [lookupOtherContext_some_iff hconsistent henabled]
    simp only [mem_cacheAfter_iff henabled h]
  · intro key generation buffer hlookup
    obtain ⟨context, hlt, hne, bytes, hmem⟩ := lookupOtherContext_buffer hlookup
    exact ⟨context, hlt, hne, bytes, (mem_cacheAfter_iff henabled h).mp hmem⟩
  · exact hconsistent.total
  · exact hconsistent.budget
  · intro key entry hmem
    obtain ⟨before, later, hsplit, -, hkept⟩ := (mem_cacheAfter_iff henabled h).mp hmem
    exact ⟨before, later, hsplit, fun hforget => hkept _ hforget rfl⟩

/-- A key of a sixteen-byte binding. -/
def smallKey (buffer context : Nat) : Key :=
  { buffer, offset := 0, length := 16, context
    geometry :=
      { filterHeight := 1, filterWidth := 1, inputChannels := 8, outputChannels := 1
        programmedOutputChannels := 1, elementSize := 2, depthwise := false, paddedChannels := 0
        weightZeroPoint := none, scratchLength := 16 } }

/-- A publish, a lookup from another context, its rewrite and a budget that takes one entry. -/
theorem cache_meets_history_small :
    MeetsHistory ⟨true, 16⟩ [.publish (smallKey 1 0) 0 7 16, .lookupOtherContext (smallKey 1 2) 0,
      .lookup (smallKey 1 0) 1, .publish (smallKey 1 0) 1 8 16, .publish (smallKey 2 0) 0 9 16,
      .forget 2] := by
  refine cache_meets_history _ _ rfl ⟨?_, ?_, ?_, ?_, ?_, ?_, trivial⟩
  · decide
  · trivial
  · trivial
  · decide
  · decide
  · trivial

/-- **Under a budget of all of `usize` the total wraps.** -/
theorem saturated_budget_wraps :
    ¬ MeetsHistory ⟨true, usizeMax⟩
      [.publish (smallKey 1 0) 0 7 usizeMax, .publish (smallKey 2 0) 0 8 usizeMax] := by
  intro h
  have htotal := h.total
  revert htotal
  decide

end IreeRocket.WeightCache
