import Mathlib.Tactic

/-!
# Blocks of memory

A memory is a function from offsets to cells. `load` and `store` move a block of cells, as
`memcpy` does; a block is given by the offset it starts at and its contents.
-/

namespace Core

variable {α : Type*}

/-- The `len` cells from `off` on. -/
def load (m : ℕ → α) : ℕ → ℕ → List α
  | _, 0 => []
  | off, len + 1 => m off :: load m (off + 1) len

/-- `m` with `xs` written from `off` on. -/
def store (m : ℕ → α) (off : ℕ) (xs : List α) : ℕ → α := fun i =>
  if off ≤ i then (xs[i - off]?).getD (m i) else m i

@[simp] lemma load_zero (m : ℕ → α) (off : ℕ) : load m off 0 = [] := rfl

lemma load_succ (m : ℕ → α) (off len : ℕ) :
    load m off (len + 1) = m off :: load m (off + 1) len := rfl

@[simp] lemma length_load (m : ℕ → α) (off len : ℕ) : (load m off len).length = len := by
  induction len generalizing off with
  | zero => rfl
  | succ len ih => simp [load_succ, ih]

/-- Adjacent blocks are read one after the other. -/
lemma load_add (m : ℕ → α) (off a b : ℕ) :
    load m off (a + b) = load m off a ++ load m (off + a) b := by
  induction a generalizing off with
  | zero => simp
  | succ a ih =>
    rw [Nat.succ_add, load_succ, load_succ, ih, List.cons_append, Nat.add_right_comm, Nat.add_assoc]

lemma take_load (m : ℕ → α) (off : ℕ) {a len : ℕ} (h : a ≤ len) :
    (load m off len).take a = load m off a := by
  obtain ⟨b, rfl⟩ := Nat.exists_eq_add_of_le h
  rw [load_add, List.take_left' (length_load m off a)]

lemma load_congr {m m' : ℕ → α} {off len : ℕ} (h : ∀ i, off ≤ i → i < off + len → m i = m' i) :
    load m off len = load m' off len := by
  induction len generalizing off with
  | zero => rfl
  | succ len ih =>
    rw [load_succ, load_succ, h off le_rfl (by omega),
      ih fun i h₁ h₂ => h i (by omega) (by omega)]

lemma eq_of_load_eq {m m' : ℕ → α} {off len i : ℕ} (h : load m off len = load m' off len)
    (h₁ : off ≤ i) (h₂ : i < off + len) : m i = m' i := by
  induction len generalizing off with
  | zero => omega
  | succ len ih =>
    obtain ⟨hhead, htail⟩ := List.cons.inj h
    by_cases hi : i = off
    · rw [hi, hhead]
    · exact ih htail (by omega) (by omega)

/-- A cell of a block whose contents are known. -/
lemma eq_getD_of_load {m : ℕ → α} {off len i : ℕ} {xs : List α} (h : load m off len = xs)
    (hi : i < len) (d : α) : m (off + i) = xs.getD i d := by
  induction len generalizing off i xs with
  | zero => omega
  | succ len ih =>
    rw [load_succ] at h
    subst h
    cases i with
    | zero => rfl
    | succ i =>
      rw [List.getD_cons_succ, ← ih rfl (by omega), Nat.add_assoc, Nat.add_comm 1]

lemma mem_load {m : ℕ → α} {off len : ℕ} {x : α} (h : x ∈ load m off len) :
    ∃ j < len, m (off + j) = x := by
  obtain ⟨j, hj, rfl⟩ := List.mem_iff_getElem.mp h
  rw [length_load] at hj
  exact ⟨j, hj, by rw [eq_getD_of_load (m := m) rfl hj (m 0)]; simp [hj]⟩

lemma store_of_disjoint (m : ℕ → α) {off i : ℕ} {xs : List α}
    (h : i < off ∨ off + xs.length ≤ i) : store m off xs i = m i := by
  by_cases hi : off ≤ i
  · have hx : xs.length ≤ i - off := by omega
    simp [store, hi, List.getElem?_eq_none hx]
  · simp [store, hi]

lemma store_singleton (m : ℕ → α) (off : ℕ) (x : α) :
    store m off [x] = Function.update m off x := by
  funext i
  rw [store, Function.update_apply]
  split_ifs with hle heq heq
  · simp [heq]
  · have hi : [x][i - off]? = none := List.getElem?_eq_none (by simp; omega)
    rw [hi, Option.getD_none]
  · omega
  · rfl

/-- A block stored cell by cell. -/
lemma store_cons (m : ℕ → α) (off : ℕ) (x : α) (xs : List α) :
    store m off (x :: xs) = store (store m off [x]) (off + 1) xs := by
  funext i
  obtain hlt | heq | hgt := Nat.lt_trichotomy i off
  · simp [store, Nat.not_le.mpr hlt, Nat.not_le.mpr (Nat.lt_succ_of_lt hlt)]
  · simp [store, heq]
  · obtain ⟨k, rfl⟩ := Nat.exists_eq_add_of_lt hgt
    have hk : off + k + 1 - off = k + 1 := by omega
    have hk' : off + k + 1 - (off + 1) = k := by omega
    have hle : off ≤ off + k + 1 := by omega
    simp [store, hk, hk', hle]

@[simp] lemma store_nil (m : ℕ → α) (off : ℕ) : store m off [] = m := by
  funext i
  simp [store]

/-- A store outside the block leaves it as it was. -/
lemma load_store_of_disjoint {m : ℕ → α} {off len at_ : ℕ} {xs : List α}
    (h : off + len ≤ at_ ∨ at_ + xs.length ≤ off) :
    load (store m at_ xs) off len = load m off len := by
  apply load_congr
  intro i h₁ h₂
  exact store_of_disjoint m (by omega)

/-- Reading back what was stored. -/
@[simp] lemma load_store_self (m : ℕ → α) (off : ℕ) (xs : List α) :
    load (store m off xs) off xs.length = xs := by
  induction xs generalizing m off with
  | nil => rfl
  | cons x xs ih =>
    rw [List.length_cons, load_succ]
    congr 1
    · simp [store]
    · calc load (store m off (x :: xs)) (off + 1) xs.length
          = load (store m (off + 1) xs) (off + 1) xs.length := by
            apply load_congr
            intro i h₁ _
            obtain ⟨k, rfl⟩ : ∃ k, i = off + 1 + k := ⟨i - (off + 1), by omega⟩
            have hk : off + 1 + k - off = k + 1 := by omega
            have hle : off ≤ off + 1 + k := by omega
            simp [store, hk, hle]
        _ = xs := ih m (off + 1)

/-- A block stored right behind another one extends it. -/
lemma load_store_append (m : ℕ → α) (off len : ℕ) (xs : List α) :
    load (store m (off + len) xs) off (len + xs.length) = load m off len ++ xs := by
  rw [load_add, load_store_self, load_store_of_disjoint (Or.inl le_rfl)]

/-- A block that reads as `xs` followed by `ys` holds the two one behind the other. -/
lemma load_of_eq_append {m : ℕ → α} {off len : ℕ} {xs ys : List α}
    (h : load m off len = xs ++ ys) :
    load m off xs.length = xs ∧ load m (off + xs.length) ys.length = ys := by
  have hlen : len = xs.length + ys.length := by simpa using congrArg List.length h
  rw [hlen, load_add] at h
  exact List.append_inj h (length_load _ _ _)

/-- A list as a memory. -/
lemma load_getD {xs : List α} {d : α} {off len : ℕ} (h : off + len ≤ xs.length) :
    load (fun i => xs.getD i d) off len = (xs.drop off).take len := by
  induction len generalizing off with
  | zero => simp
  | succ len ih =>
    have hlt : off < xs.length := by omega
    have hget : xs.getD off d = xs[off] := by
      rw [List.getD_eq_getElem?_getD, List.getElem?_eq_getElem hlt, Option.getD_some]
    rw [load_succ, ih (by omega), List.drop_eq_getElem_cons hlt, List.take_succ_cons, hget]

end Core
