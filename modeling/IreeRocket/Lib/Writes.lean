import Mathlib.Tactic.Common

/-!
# Writes toward a target

A loop that fills an image by many small writes. `Toward` says that every write of a list either puts
a fixed target's value at a key or leaves the key alone. The writes may overlap and come in any order:
after all of them, a key that some write covers has the target's value and every other key is
unchanged.
-/

namespace IreeRocket.Writes

variable {σ ω κ α : Type*}

/-- A key that every write leaves alone is unchanged. -/
theorem foldl_get {get : σ → κ → α} {write : σ → ω → σ} {writes : List ω} {k : κ}
    (h : ∀ w ∈ writes, ∀ s, get (write s w) k = get s k) (s : σ) :
    get (writes.foldl write s) k = get s k := by
  induction writes generalizing s with
  | nil => rfl
  | cons w writes ih =>
    rw [List.foldl_cons, ih fun v hv => h v (List.mem_cons_of_mem _ hv)]
    exact h w List.mem_cons_self s

/-- The writes keep `Inv`, put the target's value at the keys they cover and change no other key. -/
structure Toward (Inv : σ → Prop) (get : σ → κ → α) (write : σ → ω → σ) (covers : ω → κ → Prop)
    (target : κ → α) (writes : List ω) : Prop where
  inv : ∀ w ∈ writes, ∀ s, Inv s → Inv (write s w)
  hit : ∀ w ∈ writes, ∀ s, Inv s → ∀ k, covers w k → get (write s w) k = target k
  miss : ∀ w ∈ writes, ∀ s, Inv s → ∀ k, ¬ covers w k → get (write s w) k = get s k

namespace Toward

variable {Inv : σ → Prop} {get : σ → κ → α} {write : σ → ω → σ} {covers : ω → κ → Prop}
  {target : κ → α} {w : ω} {writes : List ω} {s : σ}

theorem tail (h : Toward Inv get write covers target (w :: writes)) :
    Toward Inv get write covers target writes where
  inv v hv := h.inv v (List.mem_cons_of_mem _ hv)
  hit v hv := h.hit v (List.mem_cons_of_mem _ hv)
  miss v hv := h.miss v (List.mem_cons_of_mem _ hv)

theorem foldl_inv (h : Toward Inv get write covers target writes) (hs : Inv s) :
    Inv (writes.foldl write s) := by
  induction writes generalizing s with
  | nil => exact hs
  | cons w writes ih => exact ih h.tail (h.inv w List.mem_cons_self s hs)

/-- A key no write covers is unchanged. -/
theorem foldl_miss (h : Toward Inv get write covers target writes) (hs : Inv s) {k : κ}
    (hk : ∀ w ∈ writes, ¬ covers w k) : get (writes.foldl write s) k = get s k := by
  induction writes generalizing s with
  | nil => rfl
  | cons w writes ih =>
    rw [List.foldl_cons, ih h.tail (h.inv w List.mem_cons_self s hs)
      fun v hv => hk v (List.mem_cons_of_mem _ hv)]
    exact h.miss w List.mem_cons_self s hs k (hk w List.mem_cons_self)

/-- **A key some write covers ends with the target's value.** -/
theorem foldl_hit (h : Toward Inv get write covers target writes) (hs : Inv s) {k : κ}
    (hk : ∃ w ∈ writes, covers w k) : get (writes.foldl write s) k = target k := by
  induction writes generalizing s with
  | nil =>
    obtain ⟨w, hw, -⟩ := hk
    cases hw
  | cons w writes ih =>
    have hs' := h.inv w List.mem_cons_self s hs
    by_cases hlater : ∃ v ∈ writes, covers v k
    · exact ih h.tail hs' hlater
    · obtain ⟨v, hv, hcovers⟩ := hk
      rcases List.mem_cons.mp hv with rfl | hv
      · rw [List.foldl_cons, h.tail.foldl_miss hs' fun u hu hc => hlater ⟨u, hu, hc⟩]
        exact h.hit v List.mem_cons_self s hs k hcovers
      · exact absurd ⟨v, hv, hcovers⟩ hlater

end Toward

end IreeRocket.Writes
