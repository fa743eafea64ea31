import Mathlib.Tactic

/-!
# Linear maps on words

Maps between words that commute with the exclusive or. A map `y ↦ y ^^^ g y` is a bijection if some
power of `g` is zero, as it is for a shift with or without a mask: applied `2 ^ r` times, it is the
exclusive or with the `2 ^ r`th power of `g`.
-/

namespace Core

variable {v w : ℕ}

/-- `g` is linear over the field of two elements. -/
def XorLinear (g : BitVec v → BitVec w) : Prop := ∀ a b, g (a ^^^ b) = g a ^^^ g b

namespace XorLinear

variable {u : ℕ} {f : BitVec u → BitVec v} {g g' : BitVec v → BitVec w}

lemma zero (hg : XorLinear g) : g 0 = 0 := by
  have h := hg 0 0
  rwa [BitVec.xor_self, BitVec.xor_self] at h

lemma id : XorLinear (fun y : BitVec v => y) := fun _ _ => rfl

lemma comp (hg : XorLinear g) (hf : XorLinear f) : XorLinear fun y => g (f y) := by
  intro a b
  simp only [hf a b, hg (f a) (f b)]

lemma xor (hg : XorLinear g) (hg' : XorLinear g') : XorLinear fun y => g y ^^^ g' y := by
  intro a b
  simp only [hg a b, hg' a b]
  ac_rfl

lemma shiftLeft (s : ℕ) : XorLinear fun y : BitVec v => y <<< s := fun _ _ =>
  BitVec.shiftLeft_xor_distrib ..

lemma ushiftRight (s : ℕ) : XorLinear fun y : BitVec v => y >>> s := fun _ _ =>
  BitVec.ushiftRight_xor_distrib ..

lemma and (m : BitVec v) : XorLinear fun y : BitVec v => y &&& m := by
  intro a b
  ext i
  simp [Bool.and_xor_distrib_right]

lemma iterate {g : BitVec v → BitVec v} (hg : XorLinear g) (k : ℕ) : XorLinear g^[k] := by
  induction k with
  | zero => exact XorLinear.id
  | succ k ih => exact ih.comp hg

/-- A linear map that takes only 0 to 0 is injective. -/
lemma injective (hg : XorLinear g) (hzero : ∀ y, g y = 0 → y = 0) : Function.Injective g := by
  intro a b hab
  have h := hg a b
  rw [hab, BitVec.xor_self] at h
  exact BitVec.xor_eq_zero_iff.mp (hzero _ h)

end XorLinear

/-! ### The exclusive or with a linear map -/

def xorMap (g : BitVec w → BitVec w) (y : BitVec w) : BitVec w := y ^^^ g y

variable {g : BitVec w → BitVec w}

lemma XorLinear.xorMap (hg : XorLinear g) : XorLinear (xorMap g) := XorLinear.id.xor hg

lemma xorMap_xorMap (hg : XorLinear g) (y : BitVec w) :
    xorMap g (xorMap g y) = xorMap g^[2] y := by
  simp only [xorMap, hg y (g y), Function.iterate_succ, Function.iterate_zero, Function.comp_apply,
    id_eq]
  calc y ^^^ g y ^^^ (g y ^^^ g (g y)) = y ^^^ (g y ^^^ g y) ^^^ g (g y) := by ac_rfl
    _ = y ^^^ g (g y) := by rw [BitVec.xor_self, BitVec.xor_zero]

/-- A power of `xorMap g` with an exponent that is a power of 2. -/
lemma xorMap_iterate (hg : XorLinear g) (r : ℕ) : (xorMap g)^[2 ^ r] = xorMap g^[2 ^ r] := by
  induction r with
  | zero => rfl
  | succ r ih =>
    rw [pow_succ, Function.iterate_mul, ih]
    funext y
    rw [Function.iterate_succ, Function.iterate_one, Function.comp_apply,
      xorMap_xorMap (hg.iterate _), ← Function.iterate_mul]

/-- The inverse of `xorMap g`, for a `g` whose power to `2 ^ r` is zero. -/
def unxorMap (g : BitVec w → BitVec w) (r : ℕ) : BitVec w → BitVec w := (xorMap g)^[2 ^ r - 1]

section

variable {r : ℕ}

lemma xorMap_iterate_eq_self (hg : XorLinear g) (hr : ∀ y, g^[2 ^ r] y = 0) (y : BitVec w) :
    (xorMap g)^[2 ^ r] y = y := by
  rw [xorMap_iterate hg, xorMap, hr]
  exact BitVec.xor_zero

lemma unxorMap_xorMap (hg : XorLinear g) (hr : ∀ y, g^[2 ^ r] y = 0) (y : BitVec w) :
    unxorMap g r (xorMap g y) = y := by
  have hpos : (2 ^ r - 1).succ = 2 ^ r := Nat.sub_add_cancel Nat.one_le_two_pow
  rw [unxorMap, ← Function.iterate_succ_apply, hpos, xorMap_iterate_eq_self hg hr]

end

/-! ### Shifts under a mask -/

lemma getLsbD_iterate_shiftLeft (s : ℕ) (m y : BitVec w) (k i : ℕ) (hi : i < k * s) :
    ((fun y : BitVec w => (y <<< s) &&& m)^[k] y).getLsbD i = false := by
  induction k generalizing i with
  | zero => simp at hi
  | succ k ih =>
    rw [Function.iterate_succ_apply', BitVec.getLsbD_and, BitVec.getLsbD_shiftLeft]
    by_cases his : i < s
    · simp [his]
    · have hlt : i - s < k * s := by
        rw [Nat.succ_mul] at hi
        omega
      simp [ih _ hlt]

lemma getLsbD_iterate_ushiftRight (s : ℕ) (y : BitVec w) (k i : ℕ) (hi : w ≤ i + k * s) :
    ((fun y : BitVec w => y >>> s)^[k] y).getLsbD i = false := by
  induction k generalizing i with
  | zero => exact BitVec.getLsbD_of_ge y i (by simpa using hi)
  | succ k ih =>
    rw [Function.iterate_succ_apply', BitVec.getLsbD_ushiftRight]
    refine ih _ ?_
    rw [Nat.succ_mul] at hi
    omega

lemma iterate_shiftLeft_eq_zero {s k : ℕ} (m : BitVec w) (hk : w ≤ k * s) (y : BitVec w) :
    (fun y : BitVec w => (y <<< s) &&& m)^[k] y = 0 := by
  apply BitVec.eq_of_getLsbD_eq
  intro i hi
  rw [getLsbD_iterate_shiftLeft s m y k i (hi.trans_le hk)]
  simp

lemma iterate_ushiftRight_eq_zero {s k : ℕ} (hk : w ≤ k * s) (y : BitVec w) :
    (fun y : BitVec w => y >>> s)^[k] y = 0 := by
  apply BitVec.eq_of_getLsbD_eq
  intro i _
  rw [getLsbD_iterate_ushiftRight s y k i (by omega)]
  simp

end Core
