import Mathlib.Data.List.Basic
import Mathlib.Tactic.Common

/-!
# Templates over numbered fields

A record has fields that do not touch one another. A template of it leaves some of them blank, and a list
of values fills the blanks in order. Filling a template with the values the record had there gives the
record back (`fill_blank`).
-/

namespace IreeRocket

/-- Independent fields `D` of a record `S`. -/
structure Fields (S D : Type) where
  get : D → S → Nat
  set : D → Nat → S → S
  get_set : ∀ d v s, get d (set d v s) = v
  get_set_ne : ∀ d d' v s, d ≠ d' → get d (set d' v s) = get d s
  set_get : ∀ d s, set d (get d s) s = s
  set_set : ∀ d v w s, set d v (set d w s) = set d v s
  set_comm : ∀ d d' v w s, d ≠ d' → set d v (set d' w s) = set d' w (set d v s)

namespace Fields

variable {S D : Type} (F : Fields S D)

/-- The record with some fields blank. -/
def blank (dims : List D) (s : S) : S := dims.foldl (fun s d => F.set d 0 s) s

/-- The record with values written to some fields, in order. -/
def fill (dims : List D) (values : List Nat) (s : S) : S :=
  (dims.zip values).foldl (fun s entry => F.set entry.1 entry.2 s) s

@[simp] theorem blank_nil (s : S) : F.blank [] s = s := rfl

@[simp] theorem blank_cons (d : D) (dims : List D) (s : S) :
    F.blank (d :: dims) s = F.blank dims (F.set d 0 s) := rfl

@[simp] theorem fill_nil (values : List Nat) (s : S) : F.fill [] values s = s := rfl

@[simp] theorem fill_cons (d : D) (dims : List D) (v : Nat) (values : List Nat) (s : S) :
    F.fill (d :: dims) (v :: values) s = F.fill dims values (F.set d v s) := rfl

variable {F} {dims : List D} {d : D}

/-- A field that is not blanked keeps its value. -/
theorem get_blank_of_notMem (h : d ∉ dims) (s : S) : F.get d (F.blank dims s) = F.get d s := by
  induction dims generalizing s with
  | nil => rfl
  | cons d' dims ih =>
    obtain ⟨hne, hmem⟩ := not_or.mp (mt List.mem_cons.mpr h)
    rw [blank_cons, ih hmem, F.get_set_ne d d' 0 s hne]

/-- A blanked field is zero. -/
theorem get_blank_of_mem (h : d ∈ dims) (s : S) : F.get d (F.blank dims s) = 0 := by
  induction dims generalizing s with
  | nil => cases h
  | cons d' dims ih =>
    by_cases hmem : d ∈ dims
    · exact ih hmem _
    · obtain rfl := (List.mem_cons.mp h).resolve_right hmem
      rw [blank_cons, get_blank_of_notMem hmem, F.get_set]

/-- What no field tells apart, a template does not either. -/
theorem blank_congr {β : Type} {g : S → β} (h : ∀ d v s, g (F.set d v s) = g s) (s : S) :
    g (F.blank dims s) = g s := by
  induction dims generalizing s with
  | nil => rfl
  | cons d dims ih => rw [blank_cons, ih, h]

/-- Writing a field that is not blanked commutes with blanking. -/
theorem set_blank (h : d ∉ dims) (v : Nat) (s : S) :
    F.set d v (F.blank dims s) = F.blank dims (F.set d v s) := by
  induction dims generalizing s with
  | nil => rfl
  | cons d' dims ih =>
    obtain ⟨hne, hmem⟩ := not_or.mp (mt List.mem_cons.mpr h)
    rw [blank_cons, blank_cons, ih hmem, F.set_comm d d' v 0 s hne]

/-- What no field tells apart, filling does not either. -/
theorem fill_congr {β : Type} {g : S → β} (h : ∀ d v s, g (F.set d v s) = g s) {values : List Nat} (s : S) :
    g (F.fill dims values s) = g s := by
  induction dims generalizing values s with
  | nil => rfl
  | cons d dims ih =>
    cases values with
    | nil => rfl
    | cons v values => rw [fill_cons, ih, h]

/-- A field that is not filled keeps its value. -/
theorem get_fill_of_notMem (h : d ∉ dims) {values : List Nat} (s : S) :
    F.get d (F.fill dims values s) = F.get d s := by
  induction dims generalizing values s with
  | nil => rfl
  | cons d' dims ih =>
    obtain ⟨hne, hmem⟩ := not_or.mp (mt List.mem_cons.mpr h)
    cases values with
    | nil => rfl
    | cons v values => rw [fill_cons, ih hmem, F.get_set_ne d d' v s hne]

/-- A filled field has the value at its place. -/
theorem get_fill_getElem (hnodup : dims.Nodup) {values : List Nat} {i v : Nat} (hd : dims[i]? = some d)
    (hv : values[i]? = some v) (s : S) : F.get d (F.fill dims values s) = v := by
  induction dims generalizing values i s with
  | nil => cases hd
  | cons d' dims ih =>
    obtain ⟨hmem, hnodup⟩ := List.nodup_cons.mp hnodup
    cases values with
    | nil => cases hv
    | cons w values =>
      cases i with
      | zero =>
        obtain rfl := Option.some.inj hd
        obtain rfl := Option.some.inj hv
        rw [fill_cons, get_fill_of_notMem hmem, F.get_set]
      | succ i => exact ih hnodup hd hv _

/-- **Filling a template with the values the record had gives the record back.** -/
theorem fill_blank (h : dims.Nodup) (s : S) :
    F.fill dims (dims.map fun d => F.get d s) (F.blank dims s) = s := by
  induction dims with
  | nil => rfl
  | cons d dims ih =>
    obtain ⟨hmem, hnodup⟩ := List.nodup_cons.mp h
    rw [List.map_cons, fill_cons, blank_cons, set_blank hmem, F.set_set, F.set_get]
    exact ih hnodup

end Fields

end IreeRocket
