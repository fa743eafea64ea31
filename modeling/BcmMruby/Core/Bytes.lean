import BcmMruby.Core.Memory

/-!
# Bytes, strings and words

`word b₃ b₂ b₁ b₀` is the C expression `b₃ << 24 | b₂ << 16 | b₁ << 8 | b₀`, and `byte w i` is
the byte of weight `256 ^ i`. A file format is big endian or little endian by the order in which
it lists them.
-/

namespace Core

abbrev Byte := BitVec 8

/-- A character string of C: its characters, without the terminating 0. -/
structure CString where
  chars : List Byte
  nul_notMem : 0 ∉ chars
  deriving DecidableEq

/-- A character constant. -/
def chr (c : Char) : Byte := BitVec.ofNat 8 c.toNat

/-- The word with these bytes, the most significant one first. -/
def word (b₃ b₂ b₁ b₀ : Byte) : BitVec 32 :=
  b₃.setWidth 32 <<< 24 ||| b₂.setWidth 32 <<< 16 ||| b₁.setWidth 32 <<< 8 ||| b₀.setWidth 32

/-- The byte of weight `256 ^ i`. -/
def byte (w : BitVec 32) (i : ℕ) : Byte := (w >>> (8 * i)).setWidth 8

/-- The bytes of a word in memory, the least significant one first. -/
def leBytes (w : BitVec 32) : List (Byte) := [byte w 0, byte w 1, byte w 2, byte w 3]

/-- The bytes of a word in network order. -/
def beBytes (w : BitVec 32) : List (Byte) := [byte w 3, byte w 2, byte w 1, byte w 0]

@[simp] lemma length_leBytes (w : BitVec 32) : (leBytes w).length = 4 := rfl

lemma toNat_word (b₃ b₂ b₁ b₀ : Byte) :
    (word b₃ b₂ b₁ b₀).toNat =
      b₃.toNat * 2 ^ 24 + b₂.toNat * 2 ^ 16 + b₁.toNat * 2 ^ 8 + b₀.toNat := by
  have h₃ := b₃.isLt
  have h₂ := b₂.isLt
  have h₁ := b₁.isLt
  have h₀ := b₀.isLt
  have e₁ := Nat.shiftLeft_add_eq_or_of_lt h₀ (b₁.toNat)
  have e₂ := Nat.shiftLeft_add_eq_or_of_lt
    (show b₁.toNat <<< 8 + b₀.toNat < 2 ^ 16 by rw [Nat.shiftLeft_eq]; omega) (b₂.toNat)
  have e₃ := Nat.shiftLeft_add_eq_or_of_lt
    (show b₂.toNat <<< 16 + (b₁.toNat <<< 8 + b₀.toNat) < 2 ^ 24 by
      simp only [Nat.shiftLeft_eq]; omega) (b₃.toNat)
  have hw : (word b₃ b₂ b₁ b₀).toNat =
      b₃.toNat <<< 24 ||| (b₂.toNat <<< 16 ||| (b₁.toNat <<< 8 ||| b₀.toNat)) := by
    simp only [word, BitVec.toNat_or, BitVec.toNat_shiftLeft, BitVec.toNat_setWidth, Nat.or_assoc]
    rw [Nat.mod_eq_of_lt (by omega : b₃.toNat < 2 ^ 32),
      Nat.mod_eq_of_lt (by omega : b₂.toNat < 2 ^ 32),
      Nat.mod_eq_of_lt (by omega : b₁.toNat < 2 ^ 32),
      Nat.mod_eq_of_lt (by omega : b₀.toNat < 2 ^ 32)]
    simp only [Nat.shiftLeft_eq]
    rw [Nat.mod_eq_of_lt (by omega), Nat.mod_eq_of_lt (by omega), Nat.mod_eq_of_lt (by omega)]
  rw [hw, ← e₁, ← e₂, ← e₃]
  simp only [Nat.shiftLeft_eq]
  omega

/-- A word is put together again from its bytes. -/
@[simp] lemma word_byte (w : BitVec 32) :
    word (byte w 3) (byte w 2) (byte w 1) (byte w 0) = w := by
  apply BitVec.eq_of_toNat_eq
  have hw := w.isLt
  simp only [toNat_word, byte, BitVec.toNat_setWidth, BitVec.toNat_ushiftRight,
    Nat.shiftRight_eq_div_pow]
  omega

/-- The word at an offset, stored with the least significant byte first. -/
def loadWord (m : ℕ → Byte) (off : ℕ) : BitVec 32 :=
  word (m (off + 3)) (m (off + 2)) (m (off + 1)) (m off)

lemma loadWord_eq {m : ℕ → Byte} {off : ℕ} {w : BitVec 32} (h : load m off 4 = leBytes w) :
    loadWord m off = w := by
  simp only [load, leBytes, List.cons.injEq, and_true] at h
  obtain ⟨h₀, h₁, h₂, h₃⟩ := h
  rw [loadWord, h₀, h₁, h₂, h₃, word_byte]

lemma loadWord_congr {m m' : ℕ → Byte} {off : ℕ} (h : ∀ i < 4, m (off + i) = m' (off + i)) :
    loadWord m off = loadWord m' off := by
  have h₀ := h 0 (by decide)
  rw [Nat.add_zero] at h₀
  rw [loadWord, loadWord, h 3 (by decide), h 2 (by decide), h 1 (by decide), h₀]

/-- Setting the lowest byte leaves the others alone. -/
lemma byte_or_setWidth (w : BitVec 32) (c : Byte) {i : ℕ} (hi : 0 < i) :
    byte (w ||| c.setWidth 32) i = byte w i := by
  apply BitVec.eq_of_getLsbD_eq
  intro j hj
  have hlow : c.getLsbD (8 * i + j) = false := BitVec.getLsbD_of_ge c _ (by omega)
  simp [byte, hlow]

/-- The lowest byte of a word in which it has been cleared and then set. -/
lemma setWidth_or_setWidth (w : BitVec 32) (c : Byte) :
    (w &&& ~~~(0xff : BitVec 32) ||| c.setWidth 32).setWidth 8 = c := by
  apply BitVec.eq_of_getLsbD_eq
  intro j hj
  simp [hj]

/-! ### Strings in memory -/

/-- `strlen`, for a string that ends within `fuel` cells. -/
def strlen (m : ℕ → Byte) : ℕ → ℕ → ℕ
  | 0, _ => 0
  | fuel + 1, off => if m off = 0 then 0 else strlen m fuel (off + 1) + 1

lemma ne_zero_of_lt_strlen {m : ℕ → Byte} {fuel off j : ℕ} (h : j < strlen m fuel off) :
    m (off + j) ≠ 0 := by
  induction fuel generalizing off j with
  | zero => cases h
  | succ fuel ih =>
    rw [strlen] at h
    split_ifs at h with hoff
    · cases h
    · cases j with
      | zero => exact hoff
      | succ j =>
        rw [Nat.add_comm j, ← Nat.add_assoc]
        exact ih (Nat.lt_of_succ_lt_succ h)

lemma strlen_le {m : ℕ → Byte} {off j : ℕ} (fuel : ℕ) (h : m (off + j) = 0) :
    strlen m fuel off ≤ j :=
  Nat.not_lt.mp fun hlt => ne_zero_of_lt_strlen hlt h

lemma apply_strlen {m : ℕ → Byte} {fuel off : ℕ} (h : strlen m fuel off < fuel) :
    m (off + strlen m fuel off) = 0 := by
  induction fuel generalizing off with
  | zero => cases h
  | succ fuel ih =>
    rw [strlen] at h ⊢
    split_ifs at h ⊢ with hoff
    · exact hoff
    · rw [Nat.add_comm (strlen m fuel (off + 1)), ← Nat.add_assoc]
      exact ih (Nat.lt_of_succ_lt_succ h)

/-- Bytes that end with a 0 hold a string up to the first 0 in them. -/
lemma strlen_eq {m : ℕ → Byte} {fuel off : ℕ} {xs : List Byte} (hfuel : xs.length < fuel)
    (h : load m off (xs.length + 1) = xs ++ [0]) :
    strlen m fuel off = (xs.takeWhile (· ≠ 0)).length := by
  induction xs generalizing fuel off with
  | nil =>
    obtain ⟨fuel, rfl⟩ := Nat.exists_eq_succ_of_ne_zero (Nat.ne_zero_of_lt hfuel)
    have hoff : m off = 0 := by simpa [load_succ] using h
    simp [strlen, hoff]
  | cons x xs ih =>
    obtain ⟨fuel, rfl⟩ := Nat.exists_eq_succ_of_ne_zero (Nat.ne_zero_of_lt hfuel)
    obtain ⟨hoff, hrest⟩ := List.cons.inj h
    rw [strlen, hoff, List.takeWhile_cons]
    by_cases hx : x = 0
    · simp [hx]
    · rw [if_neg hx, if_pos (decide_eq_true hx), List.length_cons,
        ih (Nat.lt_of_succ_lt_succ hfuel) hrest]

end Core
