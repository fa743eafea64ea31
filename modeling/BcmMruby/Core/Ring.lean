import Mathlib.Tactic

/-!
# Ring buffers

A ring of `n` slots with a `remove` and an `add` pointer. The occupied slots are those from
`remove` up to, and without, `add`, so that equal pointers mean an empty ring and at most
`n - 1` slots are ever occupied. `put` does not look whether there is room: `full` is the test
a careful producer makes first, and `toList_put_full` is what happens to one that does not.
-/

namespace Core

variable {n : ℕ} {α β : Type*}

/-! ### Slots in cyclic order -/

/-- The next slot; the first one follows the last. -/
def wrapSucc (i : Fin n) : Fin n :=
  if h : i.val + 1 < n then ⟨i.val + 1, h⟩ else ⟨0, Nat.zero_lt_of_lt i.isLt⟩

/-- The number of slots from `i` up to, and without, `j`. -/
def gap (i j : Fin n) : ℕ :=
  if i.val ≤ j.val then j.val - i.val else n - i.val + j.val

lemma gap_lt (i j : Fin n) : gap i j < n := by
  have := i.isLt
  have := j.isLt
  unfold gap
  split_ifs <;> omega

@[simp] lemma gap_self (i : Fin n) : gap i i = 0 := by simp [gap]

lemma gap_eq_zero_iff {i j : Fin n} : gap i j = 0 ↔ i = j := by
  have := i.isLt
  have := j.isLt
  rw [Fin.ext_iff, gap]
  split_ifs <;> omega

/-- Leaving `i` brings `j` one slot nearer. -/
lemma gap_wrapSucc_left {i j : Fin n} (h : i ≠ j) : gap i j = gap (wrapSucc i) j + 1 := by
  have := i.isLt
  have := j.isLt
  rw [Ne, Fin.ext_iff] at h
  unfold gap wrapSucc
  split_ifs <;> simp_all <;> omega

lemma gap_wrapSucc_right {i j : Fin n} (h : wrapSucc j ≠ i) :
    gap i (wrapSucc j) = gap i j + 1 := by
  have := i.isLt
  have := j.isLt
  rw [Ne, Fin.ext_iff] at h
  unfold gap
  unfold wrapSucc at h ⊢
  split_ifs at h ⊢ <;> simp_all <;> omega

/-- From `i` to the slot before it, only one slot of the ring is left out. -/
lemma gap_of_wrapSucc_eq {i j : Fin n} (h : wrapSucc j = i) : gap i j + 1 = n := by
  have := i.isLt
  have := j.isLt
  rw [Fin.ext_iff] at h
  unfold gap
  unfold wrapSucc at h
  split_ifs at h ⊢ <;> simp_all <;> omega

/-- The slot reached from `i` by `k` steps. -/
def advance (i : Fin n) (k : ℕ) : Fin n := wrapSucc^[k] i

@[simp] lemma advance_zero (i : Fin n) : advance i 0 = i := rfl

lemma advance_succ (i : Fin n) (k : ℕ) : advance i (k + 1) = wrapSucc (advance i k) :=
  Function.iterate_succ_apply' _ _ _

lemma gap_advance {i : Fin n} {k : ℕ} (h : k < n) : gap i (advance i k) = k := by
  induction k with
  | zero => simp
  | succ k ih =>
    have hk : gap i (advance i k) = k := ih (by omega)
    have hne : wrapSucc (advance i k) ≠ i := by
      intro heq
      have := gap_of_wrapSucc_eq heq
      omega
    rw [advance_succ, gap_wrapSucc_right hne, hk]

/-! ### Segments -/

/-- The contents of the `k` slots from `i` on. -/
def segment (slot : Fin n → α) : Fin n → ℕ → List α
  | _, 0 => []
  | i, k + 1 => slot i :: segment slot (wrapSucc i) k

@[simp] lemma segment_zero (slot : Fin n → α) (i : Fin n) : segment slot i 0 = [] := rfl

lemma segment_succ (slot : Fin n → α) (i : Fin n) (k : ℕ) :
    segment slot i (k + 1) = slot i :: segment slot (wrapSucc i) k := rfl

@[simp] lemma length_segment (slot : Fin n → α) (i : Fin n) (k : ℕ) :
    (segment slot i k).length = k := by
  induction k generalizing i with
  | zero => rfl
  | succ k ih => simp [segment_succ, ih]

/-- The slot right behind a segment extends it at its end. -/
lemma segment_snoc (slot : Fin n → α) {i j : Fin n} {k : ℕ} (h : gap i j = k) :
    segment slot i (k + 1) = segment slot i k ++ [slot j] := by
  induction k generalizing i with
  | zero => simp [segment_succ, gap_eq_zero_iff.mp h]
  | succ k ih =>
    have hne : i ≠ j := fun heq => by simp [heq] at h
    have hk : gap (wrapSucc i) j = k := by
      have := gap_wrapSucc_left hne
      omega
    rw [segment_succ, ih hk, segment_succ, List.cons_append]

/-- Writing a slot that a segment does not reach leaves the segment as it was. -/
lemma segment_update (slot : Fin n → α) {i j : Fin n} {k : ℕ} (h : k ≤ gap i j) (x : α) :
    segment (Function.update slot j x) i k = segment slot i k := by
  induction k generalizing i with
  | zero => rfl
  | succ k ih =>
    have hne : i ≠ j := fun heq => by simp [heq] at h
    have hk : k ≤ gap (wrapSucc i) j := by
      have := gap_wrapSucc_left hne
      omega
    rw [segment_succ, segment_succ, ih hk, Function.update_of_ne hne]

/-! ### Rings -/

structure Ring (n : ℕ) (α : Type*) where
  slot : Fin n → α
  remove : Fin n
  add : Fin n

namespace Ring

variable (r : Ring n α)

/-- The number of occupied slots. -/
def count : ℕ := gap r.remove r.add

/-- The contents of the occupied slots, oldest first. -/
def toList : List α := segment r.slot r.remove r.count

/-- One more `put` would make the ring look empty. -/
def full : Prop := wrapSucc r.add = r.remove

instance : Decidable r.full := inferInstanceAs (Decidable (_ = _))

/-- Write slot `i`. -/
def write (i : Fin n) (x : α) : Ring n α := { r with slot := Function.update r.slot i x }

/-- Make `add` point behind slot `i`. -/
def storeAdd (i : Fin n) : Ring n α := { r with add := wrapSucc i }

/-- Make `remove` point behind slot `i`. -/
def storeRemove (i : Fin n) : Ring n α := { r with remove := wrapSucc i }

/-- Fill the slot at `add` and advance `add`, whether or not there is room. -/
def put (x : α) : Ring n α := (r.write r.add x).storeAdd r.add

/-- Advance `remove`. -/
def drop : Ring n α := r.storeRemove r.remove

/-- The oldest occupied slot. -/
def head : α := r.slot r.remove

@[simp] lemma write_add (i : Fin n) (x : α) : (r.write i x).add = r.add := rfl

@[simp] lemma drop_remove : r.drop.remove = wrapSucc r.remove := rfl

@[simp] lemma length_toList : r.toList.length = r.count := by simp [toList]

lemma count_lt : r.count < n := gap_lt _ _

variable {r}

lemma toList_eq_nil_iff : r.toList = [] ↔ r.remove = r.add := by
  rw [← List.length_eq_zero_iff, length_toList, count, gap_eq_zero_iff]

/-- With two slots to spare the ring is not full. -/
lemma not_full_of_count (h : r.count + 1 < n) : ¬ r.full := by
  intro hfull
  have := gap_of_wrapSucc_eq hfull
  rw [count] at h
  omega

/-- The slot at `add` is not occupied. -/
@[simp] lemma toList_write (x : α) : (r.write r.add x).toList = r.toList := by
  simp only [toList, count, write]
  exact segment_update _ le_rfl x

@[simp] lemma write_slot_self (i : Fin n) (x : α) : (r.write i x).slot i = x := by simp [write]

lemma toList_storeAdd (h : ¬ r.full) : (r.storeAdd r.add).toList = r.toList ++ [r.slot r.add] := by
  have hgap : gap r.remove (wrapSucc r.add) = gap r.remove r.add + 1 := gap_wrapSucc_right h
  simp only [toList, count, storeAdd]
  rw [hgap, segment_snoc _ rfl]

lemma toList_put (h : ¬ r.full) (x : α) : (r.put x).toList = r.toList ++ [x] := by
  have hstore := toList_storeAdd (r := r.write r.add x) h
  rwa [toList_write, write_add, write_slot_self] at hstore

lemma count_put (h : ¬ r.full) (x : α) : (r.put x).count = r.count + 1 := by
  rw [← length_toList, toList_put h, List.length_append, length_toList]
  rfl

lemma count_storeAdd (h : ¬ r.full) : (r.storeAdd r.add).count = r.count + 1 := by
  rw [← length_toList, toList_storeAdd h, List.length_append, length_toList]
  rfl

lemma count_of_not_full (h : ¬ r.full) : r.count + 1 < n :=
  count_storeAdd h ▸ (r.storeAdd r.add).count_lt

/-- Putting into a full ring makes all of its contents disappear. -/
lemma toList_put_full (h : r.full) (x : α) : (r.put x).toList = [] := by
  rw [toList_eq_nil_iff]
  exact h.symm

lemma toList_eq_head_cons (h : r.remove ≠ r.add) : r.toList = r.head :: r.drop.toList := by
  simp only [toList, count, drop, storeRemove, head]
  rw [gap_wrapSucc_left h, segment_succ]

lemma count_drop (h : r.remove ≠ r.add) : r.drop.count + 1 = r.count := by
  rw [← length_toList, ← length_toList, toList_eq_head_cons h, List.length_cons]

lemma not_full_drop (h : ¬ r.full) (hne : r.remove ≠ r.add) : ¬ r.drop.full := by
  have hcount := count_of_not_full h
  have hdrop := count_drop hne
  exact not_full_of_count (by omega)

/-! ### Unchecked producers -/

/-- Put a list of elements, without looking for room. -/
def putAll (r : Ring n α) (xs : List α) : Ring n α := xs.foldl put r

@[simp] lemma putAll_nil (r : Ring n α) : r.putAll [] = r := rfl

@[simp] lemma putAll_cons (r : Ring n α) (x : α) (xs : List α) :
    r.putAll (x :: xs) = (r.put x).putAll xs := rfl

lemma putAll_append (r : Ring n α) (xs ys : List α) :
    r.putAll (xs ++ ys) = (r.putAll xs).putAll ys := by
  simp [putAll]

/-- Of `m` elements put into an empty ring, the last `m % n` are left. -/
theorem toList_putAll_of_empty (hr : r.remove = r.add) (xs : List α) :
    (r.putAll xs).toList = xs.drop (xs.length - xs.length % n) := by
  induction xs using List.reverseRecOn with
  | nil => simpa using toList_eq_nil_iff.mpr hr
  | append_singleton xs x ih =>
    have hn : 0 < n := Nat.zero_lt_of_lt r.add.isLt
    have hcount : (r.putAll xs).count = xs.length % n := by
      rw [← length_toList, ih, List.length_drop]
      have := Nat.mod_le xs.length n
      omega
    have hle := Nat.mod_le xs.length n
    rw [putAll_append, putAll_cons, putAll_nil]
    by_cases hfull : (r.putAll xs).full
    · -- the last free slot: all of the elements are gone
      have hlast : xs.length % n + 1 = n := by
        rw [← hcount]
        exact gap_of_wrapSucc_eq hfull
      have hmul : xs.length + 1 = n * (xs.length / n + 1) := by
        have := Nat.div_add_mod xs.length n
        rw [Nat.mul_succ]
        omega
      have hmod : (xs.length + 1) % n = 0 := by rw [hmul, Nat.mul_mod_right]
      rw [toList_put_full hfull, List.length_append, List.length_singleton, hmod, Nat.sub_zero,
        List.drop_eq_nil_of_le (by simp)]
    · have hroom : xs.length % n + 1 < n := by
        have hlt := (r.putAll xs |>.put x).count_lt
        rw [count_put hfull, hcount] at hlt
        exact hlt
      have hmod : (xs.length + 1) % n = xs.length % n + 1 := by
        rw [Nat.add_mod, Nat.mod_eq_of_lt (a := 1) (by omega), Nat.mod_eq_of_lt hroom]
      rw [toList_put hfull, ih, List.length_append, List.length_singleton, hmod,
        List.drop_append_of_le_length (by omega)]
      congr 2
      omega

end Ring

end Core
