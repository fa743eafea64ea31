import Mathlib.Data.List.TakeWhile
import BcmMruby.Nvram.Basic

/-!
# Chains of tuples

What a name can see of the store are the tuples of its chain that begin with the name and a `=`:
`nvram_get` reads the first of them, `nvram_set` replaces the first one, `nvram_unset` drops it.
`Store.tuples` lists them.
-/

namespace BcmMruby.Nvram

open Core

/-- The tuples `nvram_lookup` may stop at, in the order of the chain. -/
def Store.tuples (s : Store) (name : List Byte) : List (List Byte) :=
  (s.hashtab (nvramHash name)).filter (Binds name ·)

/-! ### Names and strings -/

lemma binds_iff {name binding : List Byte} :
    Binds name binding ↔ ∃ value, binding = name ++ equalsSign :: value := by
  constructor
  · rintro ⟨hname, hequals⟩
    obtain ⟨hlt, hget⟩ := List.getElem?_eq_some_iff.mp hequals
    refine ⟨binding.drop (name.length + 1), ?_⟩
    rw [← hget, List.getElem_cons_drop, ← hname, List.length_take, Nat.min_eq_left hlt.le,
      List.take_append_drop]
  · rintro ⟨value, rfl⟩
    simp [Binds]

/-- What is before the first `=`. -/
def nameOf (binding : List Byte) : List Byte := binding.takeWhile (· ≠ equalsSign)

lemma nameOf_append {name : List Byte} (value : List Byte) :
    nameOf (name ++ equalsSign :: value) = nameOf name := by
  induction name with
  | nil => simp [nameOf]
  | cons c name ih =>
    by_cases hc : c = equalsSign
    · simp [nameOf, hc]
    · simpa [nameOf, hc] using ih

lemma nameOf_of_binds {name binding : List Byte} (h : Binds name binding) :
    nameOf binding = nameOf name := by
  obtain ⟨value, rfl⟩ := binds_iff.mp h
  exact nameOf_append value

lemma nameOf_eq_self {name : List Byte} (h : equalsSign ∉ name) : nameOf name = name := by
  rw [nameOf, List.takeWhile_eq_self_iff]
  intro c hc
  simp only [ne_eq, decide_eq_true_eq]
  rintro rfl
  exact h hc

/-- The hash of a string is that of its name. -/
lemma nvramHash_of_nameOf {a b : List Byte} (h : nameOf a = nameOf b) :
    nvramHash a = nvramHash b := by
  have hsum : hashSum a = hashSum b := congrArg (List.foldl _ _) h
  simp only [nvramHash, hsum]

lemma nvramHash_of_binds {name binding : List Byte} (h : Binds name binding) :
    nvramHash binding = nvramHash name :=
  nvramHash_of_nameOf (nameOf_of_binds h)

/-- A string with a `=` in it is bound to its name. -/
lemma binds_nameOf {binding : List Byte} (h : equalsSign ∈ binding) :
    Binds (nameOf binding) binding := by
  obtain ⟨name, value, rfl, hname⟩ := List.eq_append_cons_of_mem h
  refine binds_iff.mpr ⟨value, ?_⟩
  rw [nameOf_append, nameOf_eq_self hname]

/-- Two names without `=` have no string in common. -/
lemma binds_unique {a b binding : List Byte} (ha : equalsSign ∉ a) (hb : equalsSign ∉ b)
    (h₁ : Binds a binding) (h₂ : Binds b binding) : a = b := by
  rw [← nameOf_eq_self ha, ← nameOf_eq_self hb, ← nameOf_of_binds h₁, ← nameOf_of_binds h₂]

/-! ### Removing the first tuple -/

lemma filter_eraseP_self {α : Type*} (p : α → Bool) (l : List α) :
    (l.eraseP p).filter p = (l.filter p).tail := by
  induction l with
  | nil => rfl
  | cons x l ih => by_cases hx : p x <;> simp [hx, ih]

lemma filter_eraseP_of_disjoint {α : Type*} {p q : α → Bool} {l : List α}
    (h : ∀ x ∈ l, p x = true → q x = false) : (l.eraseP p).filter q = l.filter q := by
  induction l with
  | nil => rfl
  | cons x l ih =>
    obtain ⟨hhead, htail⟩ := List.forall_mem_cons.mp h
    by_cases hx : p x
    · simp [hx, hhead hx]
    · by_cases hq : q x <;> simp [hx, hq, ih htail]

/-- The chain of the name without the tuple that `nvram_lookup` finds in it, if it finds one. -/
def unbind (s : Store) (name : List Byte) : Fin hashSize → List (List Byte) :=
  Function.update s.hashtab (nvramHash name)
    ((s.hashtab (nvramHash name)).eraseP (Binds name ·))

lemma hashtab_of_lookup {s : Store} {name : List Byte} {i : ℕ}
    (h : nvramLookup s name = some i) :
    (moveToPending s (nvramHash name) i).hashtab = unbind s name := by
  simp only [nvramLookup] at h
  rw [unbind, List.eraseP_eq_eraseIdx, h]
  rfl

lemma hashtab_of_lookup_none {s : Store} {name : List Byte} (h : nvramLookup s name = none) :
    s.hashtab = unbind s name := by
  simp only [nvramLookup] at h
  rw [unbind, List.eraseP_eq_eraseIdx, h, Function.update_eq_self]

/-! ### The operations by their tuples -/

lemma nvramGet_eq (s : Store) (name : CString) :
    nvramGet s name = (s.tuples name.chars).head?.map (·.drop (name.chars.length + 1)) := by
  rw [Store.tuples, List.head?_filter, List.find?_eq_bind_findIdx?_getElem?, Option.map_bind]
  rfl

lemma lookup_eq_none_iff {s : Store} {name : List Byte} :
    nvramLookup s name = none ↔ s.tuples name = [] := by
  simp [nvramLookup, Store.tuples, List.findIdx?_eq_none_iff, List.filter_eq_nil_iff]

lemma hashtab_nvramSet (s : Store) (name value : CString) :
    (nvramSet s name value true).2.hashtab =
      Function.update (unbind s name.chars) (nvramHash name.chars)
        ((name.chars ++ equalsSign :: value.chars) ::
          unbind s name.chars (nvramHash name.chars)) := by
  cases h : nvramLookup s name.chars with
  | some i => simp only [nvramSet, h, if_true, nvramInsert, hashtab_of_lookup h]
  | none => simp only [nvramSet, h, if_true, nvramInsert, ← hashtab_of_lookup_none h]

lemma hashtab_nvramUnset (s : Store) (name : CString) :
    (nvramUnset s name).2.hashtab = unbind s name.chars := by
  cases h : nvramLookup s name.chars with
  | some i => simp only [nvramUnset, h, hashtab_of_lookup h]
  | none => simp only [nvramUnset, h, ← hashtab_of_lookup_none h]

lemma nvramUnset_eq_zero_iff (s : Store) (name : CString) :
    (nvramUnset s name).1 = 0 ↔ s.tuples name.chars ≠ [] := by
  rw [ne_eq, ← lookup_eq_none_iff]
  cases h : nvramLookup s name.chars with
  | some i => simp [nvramUnset, h]
  | none => simp [nvramUnset, h]

lemma tuples_unbind_self (s : Store) (name : List Byte) :
    (unbind s name (nvramHash name)).filter (Binds name ·) = (s.tuples name).tail := by
  rw [unbind, Function.update_self, filter_eraseP_self, Store.tuples]

lemma tuples_unbind_of_ne {s : Store} {name other : List Byte} (hname : equalsSign ∉ name)
    (hother : equalsSign ∉ other) (hne : other ≠ name) :
    (unbind s name (nvramHash other)).filter (Binds other ·) = s.tuples other := by
  by_cases hhash : nvramHash other = nvramHash name
  · rw [unbind, hhash, Function.update_self, Store.tuples, hhash]
    apply filter_eraseP_of_disjoint
    intro binding _ hbinds
    simp only [decide_eq_true_eq] at hbinds
    simp only [decide_eq_false_iff_not]
    intro hbinds'
    exact hne (binds_unique hother hname hbinds' hbinds)
  · rw [unbind, Function.update_of_ne hhash, Store.tuples]

lemma tuples_nvramSet_self (s : Store) (name value : CString) :
    (nvramSet s name value true).2.tuples name.chars =
      (name.chars ++ equalsSign :: value.chars) :: (s.tuples name.chars).tail := by
  have hbinds : Binds name.chars (name.chars ++ equalsSign :: value.chars) :=
    binds_iff.mpr ⟨value.chars, rfl⟩
  rw [Store.tuples, hashtab_nvramSet, Function.update_self,
    List.filter_cons_of_pos (by simpa using hbinds), tuples_unbind_self]

lemma tuples_nvramSet_of_ne {s : Store} {name value : CString} {other : List Byte}
    (hname : equalsSign ∉ name.chars) (hother : equalsSign ∉ other) (hne : other ≠ name.chars) :
    (nvramSet s name value true).2.tuples other = s.tuples other := by
  have hbinds : ¬ Binds other (name.chars ++ equalsSign :: value.chars) := by
    intro h
    exact hne (binds_unique hother hname h (binds_iff.mpr ⟨value.chars, rfl⟩))
  rw [Store.tuples, hashtab_nvramSet]
  by_cases hhash : nvramHash other = nvramHash name.chars
  · rw [hhash, Function.update_self, List.filter_cons_of_neg (by simpa using hbinds), ← hhash,
      tuples_unbind_of_ne hname hother hne]
  · rw [Function.update_of_ne hhash, tuples_unbind_of_ne hname hother hne]

lemma tuples_nvramUnset_self (s : Store) (name : CString) :
    (nvramUnset s name).2.tuples name.chars = (s.tuples name.chars).tail := by
  rw [Store.tuples, hashtab_nvramUnset, tuples_unbind_self]

lemma tuples_nvramUnset_of_ne {s : Store} {name : CString} {other : List Byte}
    (hname : equalsSign ∉ name.chars) (hother : equalsSign ∉ other) (hne : other ≠ name.chars) :
    (nvramUnset s name).2.tuples other = s.tuples other := by
  rw [Store.tuples, hashtab_nvramUnset, tuples_unbind_of_ne hname hother hne]

end BcmMruby.Nvram
