import Mathlib.Tactic

/-!
# Recurrences computed in place

A sequence in which each element is determined by the `n` before it. Some `n` elements in a row lie
in an array; the next `n` are computed in the same array, one place after the other. On the way the
array is a `Mixture` of the two blocks, and the elements that are needed for a place are those in
the `n` places from there on, around the end of the array.
-/

namespace Core.Recurrence

variable {α : Type*} {n : ℕ} {f : (Fin n → α) → α}

/-- Each element of `x` is `f` of the `n` before it. -/
def Obeys (f : (Fin n → α) → α) (x : ℕ → α) : Prop := ∀ k, x (k + n) = f fun i => x (k + i)

/-- `n` elements in a row determine all behind them. -/
lemma Obeys.ext {x y : ℕ → α} (hx : Obeys f x) (hy : Obeys f y) {k l : ℕ}
    (h : ∀ i < n, x (k + i) = y (l + i)) (j : ℕ) : x (k + j) = y (l + j) := by
  induction j using Nat.strong_induction_on with
  | _ j ih =>
    by_cases hj : j < n
    · exact h j hj
    · obtain ⟨j, rfl⟩ := Nat.exists_eq_add_of_le' (Nat.le_of_not_lt hj)
      have hwindow : (fun i : Fin n => x (k + j + i)) = fun i : Fin n => y (l + j + i) := by
        funext i
        have hi := i.isLt
        simpa only [Nat.add_assoc] using ih (j + i) (by omega)
      rw [← Nat.add_assoc, ← Nat.add_assoc, hx, hy, hwindow]

/-- The `n` elements one further on. -/
def shift (f : (Fin n → α) → α) (w : Fin n → α) : Fin n → α := fun i =>
  if h : i + 1 < n then w ⟨i + 1, h⟩ else f w

/-- The sequence that begins with `w`. -/
def generate [NeZero n] (f : (Fin n → α) → α) (w : Fin n → α) (k : ℕ) : α := (shift f)^[k] w 0

section

variable [NeZero n]

lemma iterate_shift (w : Fin n → α) (k i : ℕ) (hi : i < n) :
    (shift f)^[k] w ⟨i, hi⟩ = generate f w (k + i) := by
  induction i generalizing k with
  | zero => rfl
  | succ i ih =>
    have hnext := ih (k + 1) (Nat.lt_of_succ_lt hi)
    rw [Function.iterate_succ_apply', shift, dif_pos hi] at hnext
    rw [hnext]
    congr 1
    omega

lemma generate_of_lt (w : Fin n → α) {k : ℕ} (hk : k < n) : generate f w k = w ⟨k, hk⟩ := by
  have h := iterate_shift (f := f) w 0 k hk
  rw [Nat.zero_add] at h
  exact h.symm

lemma obeys_generate (f : (Fin n → α) → α) (w : Fin n → α) : Obeys f (generate f w) := by
  intro k
  have hpos : 0 < n := Nat.pos_of_neZero n
  have hlast : n - 1 < n := by omega
  have hnot : ¬ n - 1 + 1 < n := by omega
  have h := iterate_shift (f := f) w (k + 1) (n - 1) hlast
  rw [Function.iterate_succ_apply', shift, dif_neg hnot] at h
  have hk : k + 1 + (n - 1) = k + n := by omega
  rw [hk] at h
  rw [← h]
  congr 1
  funext i
  exact iterate_shift w k i i.isLt

end

/-! ### In place -/

/-- The first `j` places of the array hold the block behind the one that begins with `x b`, the
others hold the block itself. -/
def Mixture (n : ℕ) (x : ℕ → α) (b j : ℕ) (a : ℕ → α) : Prop :=
  ∀ q < n, a q = x (b + q + if q < j then n else 0)

variable {x : ℕ → α} {a : ℕ → α} {b j : ℕ}

/-- What is needed for place `j` lies in the places from there on, some of them around the end. -/
lemma Mixture.window (H : Mixture n x b j a) (hj : j < n) (i : Fin n) :
    a ((j + i) % n) = x (b + j + i) := by
  have hi := i.isLt
  by_cases h : j + i < n
  · rw [Nat.mod_eq_of_lt h, H _ h, if_neg (by omega)]
    congr 1
    omega
  · have hmod : (j + i) % n = j + i - n := by
      rw [Nat.mod_eq_sub_mod (Nat.le_of_not_lt h), Nat.mod_eq_of_lt (by omega)]
    rw [hmod, H _ (by omega), if_pos (by omega)]
    congr 1
    omega

lemma Mixture.turn (hx : Obeys f x) (H : Mixture n x b j a) (hj : j < n) :
    Mixture n x b (j + 1) (Function.update a j (f fun i => a ((j + i) % n))) := by
  intro q hq
  by_cases hqj : q = j
  · subst hqj
    have hwindow : (fun i : Fin n => a ((q + i) % n)) = fun i : Fin n => x (b + q + i) :=
      funext fun i => H.window hq i
    rw [Function.update_self, if_pos (Nat.lt_succ_self q), hx, hwindow]
  · rw [Function.update_of_ne hqj, H q hq]
    have hiff : q < j + 1 ↔ q < j := by omega
    simp only [hiff]

/-- At the end the array holds the next block. -/
lemma Mixture.next_block (H : Mixture n x b n a) : Mixture n x (b + n) 0 a := by
  intro q hq
  rw [H q hq, if_pos hq, if_neg (Nat.not_lt_zero q)]
  congr 1
  omega

lemma mixture_zero : Mixture n x b 0 a ↔ ∀ q < n, a q = x (b + q) := by
  simp [Mixture]

end Core.Recurrence
