import Mathlib.Data.List.Perm.Basic
import Mathlib.Data.List.Nodup
import Mathlib.Tactic.Common

/-!
# Exclusive custody

Tokens lie in places; `place p` lists the tokens of the place `p`. `Exclusive` says that no token lies
in two places, or twice in one. Moving tokens from one place to another keeps that, and so does handing
out a token that lies nowhere.
-/

namespace IreeRocket.Custody

variable {ι τ : Type*}

/-- Every token lies in one place at most, and once there. -/
structure Exclusive (place : ι → List τ) : Prop where
  nodup : ∀ p, (place p).Nodup
  unique : ∀ {p q t}, t ∈ place p → t ∈ place q → p = q

/-- The tokens `moved` go from `p` to `q`, and no other place changes. -/
structure Moves (place place' : ι → List τ) (p q : ι) (moved : List τ) : Prop where
  source : (place p).Perm (moved ++ place' p)
  target : (place' q).Perm (moved ++ place q)
  other : ∀ r, r ≠ p → r ≠ q → (place' r).Perm (place r)

/-- The token `t` comes to `q` from outside. -/
structure Enters (place place' : ι → List τ) (q : ι) (t : τ) : Prop where
  target : (place' q).Perm (t :: place q)
  other : ∀ r, r ≠ q → (place' r).Perm (place r)
  outside : ∀ r, t ∉ place r

variable {place place' : ι → List τ} {p q : ι} {moved : List τ} {t : τ}

theorem exclusive_empty : Exclusive fun _ : ι => ([] : List τ) :=
  ⟨fun _ => List.nodup_nil, fun h => absurd h List.not_mem_nil⟩

theorem Exclusive.notMem (h : Exclusive place) (hne : p ≠ q) (ht : t ∈ place p) : t ∉ place q :=
  fun hq => hne (h.unique ht hq)

theorem Moves.mem_source (hm : Moves place place' p q moved) (ht : t ∈ moved) : t ∈ place p :=
  hm.source.mem_iff.mpr (List.mem_append_left _ ht)

/-- After a move a token lies where it lay before, or it moved and lies at the target. -/
theorem Exclusive.mem_moves (h : Exclusive place) (hne : p ≠ q) (hm : Moves place place' p q moved)
    {r : ι} (ht : t ∈ place' r) : t ∈ place r ∧ t ∉ moved ∨ r = q ∧ t ∈ moved := by
  by_cases hmoved : t ∈ moved
  · refine .inr ⟨?_, hmoved⟩
    by_contra hrq
    by_cases hrp : r = p
    · subst hrp
      exact (List.nodup_append.mp (hm.source.nodup_iff.mp (h.nodup r))).2.2 t hmoved t ht rfl
    · exact hrp (h.unique ((hm.other r hrp hrq).mem_iff.mp ht) (hm.mem_source hmoved))
  · refine .inl ⟨?_, hmoved⟩
    by_cases hrq : r = q
    · subst hrq
      exact (List.mem_append.mp (hm.target.mem_iff.mp ht)).resolve_left hmoved
    · by_cases hrp : r = p
      · subst hrp
        exact hm.source.mem_iff.mpr (List.mem_append_right _ ht)
      · exact (hm.other r hrp hrq).mem_iff.mp ht

/-- **Moving tokens keeps custody exclusive.** -/
theorem Exclusive.moves (h : Exclusive place) (hne : p ≠ q) (hm : Moves place place' p q moved) :
    Exclusive place' := by
  have hsource := List.nodup_append.mp (hm.source.nodup_iff.mp (h.nodup p))
  refine ⟨fun r => ?_, fun {r r' t} hr hr' => ?_⟩
  · by_cases hrq : r = q
    · subst hrq
      refine hm.target.nodup_iff.mpr (List.nodup_append.mpr ⟨hsource.1, h.nodup r, ?_⟩)
      intro a ha b hb hab
      exact hne (h.unique (hm.mem_source ha) (hab ▸ hb))
    · by_cases hrp : r = p
      · subst hrp
        exact hsource.2.1
      · exact (hm.other r hrp hrq).nodup_iff.mpr (h.nodup r)
  · rcases h.mem_moves hne hm hr with ⟨hold, hkept⟩ | ⟨hrq, hmoved⟩ <;>
      rcases h.mem_moves hne hm hr' with ⟨hold', hkept'⟩ | ⟨hrq', hmoved'⟩
    · exact h.unique hold hold'
    · exact absurd hmoved' hkept
    · exact absurd hmoved hkept'
    · exact hrq.trans hrq'.symm

/-- **A token from outside keeps custody exclusive.** -/
theorem Exclusive.enters (h : Exclusive place) (he : Enters place place' q t) :
    Exclusive place' := by
  have hback : ∀ {r u}, u ∈ place' r → u ∈ place r ∨ r = q ∧ u = t := by
    intro r u hu
    by_cases hrq : r = q
    · subst hrq
      rcases List.mem_cons.mp (he.target.mem_iff.mp hu) with heq | hold
      · exact .inr ⟨rfl, heq⟩
      · exact .inl hold
    · exact .inl ((he.other r hrq).mem_iff.mp hu)
  refine ⟨fun r => ?_, fun {r r' u} hr hr' => ?_⟩
  · by_cases hrq : r = q
    · subst hrq
      exact he.target.nodup_iff.mpr (List.nodup_cons.mpr ⟨he.outside r, h.nodup r⟩)
    · exact (he.other r hrq).nodup_iff.mpr (h.nodup r)
  · rcases hback hr with hold | ⟨hrq, heq⟩ <;> rcases hback hr' with hold' | ⟨hrq', heq'⟩
    · exact h.unique hold hold'
    · exact absurd hold (heq' ▸ he.outside r)
    · exact absurd hold' (heq ▸ he.outside r')
    · exact hrq.trans hrq'.symm

end IreeRocket.Custody
