import Mathlib.Algebra.Order.Floor.Semifield
import Mathlib.Data.Rat.Floor
import Mathlib.Tactic

/-!
# The clock of the CPU

`sb_cpu_clock` reads the type of the PLL and two clock control registers, and `sb_clock_rate`
decodes the multipliers and divisors in them. `timer_init` takes the length of a tick from the
result.
-/

namespace BcmMruby.SbUtils

inductive PllType where
  | none
  | type1
  | type2
  | type3
  | type4
  | type5
  | type6
  | type7
  deriving DecidableEq

structure Csr where
  corecap : BitVec 32
  clockcontrolN : BitVec 32
  clockcontrolM2 : BitVec 32
  clockcontrolM3 : BitVec 32

/-- `G_CORECAP_PL`. -/
def gCorecapPl (corecap : BitVec 32) : PllType :=
  match (corecap.extractLsb' 15 3).toNat with
  | 0x2 => .type1
  | 0x4 => .type2
  | 0x6 => .type3
  | 0x1 => .type4
  | 0x3 => .type5
  | 0x5 => .type6
  | 0x7 => .type7
  | _ => .none

def gCcnN1 (n : BitVec 32) : ℕ := (n.extractLsb' 0 6).toNat
def gCcnN2 (n : BitVec 32) : ℕ := (n.extractLsb' 8 5).toNat
def gCcmM1 (m : BitVec 32) : ℕ := (m.extractLsb' 0 6).toNat
def gCcmM2 (m : BitVec 32) : ℕ := (m.extractLsb' 8 5).toNat
def gCcmM3 (m : BitVec 32) : ℕ := (m.extractLsb' 16 6).toNat
def gCcmMc (m : BitVec 32) : ℕ := (m.extractLsb' 24 5).toNat

def ccF5Bias : ℕ := 5
def ccT2Bias : ℕ := 2
def ccT2m2Bias : ℕ := 3

def factor6 (x : ℕ) : ℕ :=
  match x with
  | 0x02 => 2
  | 0x03 => 3
  | 0x05 => 4
  | 0x09 => 5
  | 0x11 => 6
  | 0x21 => 7
  | _ => 0

/-- `CC_CLOCK_BASE2` or `CC_CLOCK_BASE1`. -/
def clkBase (pllType : PllType) : ℕ :=
  if pllType = .type3 ∨ pllType = .type7 then 12500000 else 24000000

def n1 (pllType : PllType) (n : BitVec 32) : ℕ :=
  if pllType = .type2 then gCcnN1 n + ccT2Bias else factor6 (gCcnN1 n)

def n2 (pllType : PllType) (n : BitVec 32) : ℕ :=
  if pllType = .type2 then gCcnN2 n + ccT2Bias else gCcnN2 n + ccF5Bias

def m1 (pllType : PllType) (m : BitVec 32) : ℕ :=
  if pllType = .type2 then gCcmM1 m + ccT2Bias else factor6 (gCcmM1 m)

def m2 (pllType : PllType) (m : BitVec 32) : ℕ :=
  if pllType = .type2 then gCcmM2 m + ccT2m2Bias
  else if pllType = .type1 ∨ pllType = .type3 then gCcmM2 m + ccF5Bias
  else factor6 (gCcmM2 m)

def m3 (pllType : PllType) (m : BitVec 32) : ℕ :=
  if pllType = .type2 then gCcmM3 m + ccT2Bias else factor6 (gCcmM3 m)

/-- The division of the CPU, which traps on 0. -/
def udiv (a b : ℕ) : Option ℕ := if b = 0 then none else some (a / b)

/-- `none` where a division traps. The products of divisors stay far below `2 ^ 32`. -/
def sbClockRate (pllType : PllType) (n m : BitVec 32) : Option ℕ :=
  let clock := clkBase pllType * n1 pllType n * n2 pllType n % 2 ^ 32
  let m1 := m1 pllType m
  let m2 := m2 pllType m
  let m3 := m3 pllType m
  let mc := gCcmMc m
  match pllType with
  | .type5 => some 100000000
  | .type6 => some (if m &&& 1 ≠ 0 then 100000000 else 120000000)
  -- `ASSERT(0)` prints a line
  | .none => some 0
  | .type2 =>
    if clock = 0 then some 0
    else do
      let clock ← if mc &&& 1 = 0 then udiv clock m1 else some clock
      let clock ← if mc &&& 2 = 0 then udiv clock m2 else some clock
      if mc &&& 4 = 0 then udiv clock m3 else some clock
  | .type1 | .type3 | .type4 | .type7 =>
    if clock = 0 then some 0
    else
      match mc with
      | 0x08 => some clock
      | 0x04 => udiv clock m1
      | 0x02 => udiv clock (m1 * m2)
      | 0x01 => udiv clock (m1 * m2 * m3)
      | 0x11 => udiv clock (m1 * m3)
      | _ => some 0

/-- `clockcontrol_m`, as the `switch` leaves it: `none` if it has not been assigned. -/
def clockcontrolM (r : Csr) (pllType : PllType) : Option (BitVec 32) :=
  match pllType with
  | .type2 | .type4 | .type6 | .type7 => some r.clockcontrolM3
  | .type3 => some r.clockcontrolM2
  | .none | .type1 | .type5 => none

/-- The arguments of the call of `sb_clock_rate`, if there is one. -/
def rateCall (r : Csr) : Option (PllType × BitVec 32 × Option (BitVec 32)) :=
  let pllType := gCorecapPl r.corecap
  if pllType = .type5 then none else some (pllType, r.clockcontrolN, clockcontrolM r pllType)

/-- `stack` is what is where `clockcontrol_m` has not been assigned. -/
def sbCpuClock (r : Csr) (stack : BitVec 32) : Option ℕ :=
  match rateCall r with
  | none => some (200 * 1000 * 1000)
  | some (pllType, n, m) => sbClockRate pllType n (m.getD stack)

/-! ### The rate as a quotient -/

/-- What the divisors are for, as it is meant. -/
def vco (pllType : PllType) (n : BitVec 32) : ℕ :=
  clkBase pllType * n1 pllType n * n2 pllType n

/-- The divisors that the mux control selects, for a type whose rate is computed; `none` where it
selects no output. -/
def divisors (pllType : PllType) (m : BitVec 32) : Option (List ℕ) :=
  match pllType with
  | .type1 | .type3 | .type4 | .type7 =>
    match gCcmMc m with
    | 0x08 => some []
    | 0x04 => some [m1 pllType m]
    | 0x02 => some [m1 pllType m, m2 pllType m]
    | 0x01 => some [m1 pllType m, m2 pllType m, m3 pllType m]
    | 0x11 => some [m1 pllType m, m3 pllType m]
    | _ => none
  | .type2 => some ((if gCcmMc m &&& 1 = 0 then [m1 .type2 m] else []) ++
      (if gCcmMc m &&& 2 = 0 then [m2 .type2 m] else []) ++
      if gCcmMc m &&& 4 = 0 then [m3 .type2 m] else [])
  | .none | .type5 | .type6 => none

/-- The types whose rate is computed from the registers. -/
def Computed (pllType : PllType) : Prop :=
  pllType ≠ .none ∧ pllType ≠ .type5 ∧ pllType ≠ .type6

/-- `sb_cpu_clock` hands on no value that it has not read. -/
def ReadsM (r : Csr) : Prop := ∀ call ∈ rateCall r, call.2.2 ≠ none

/-- No division by 0, and for the types it computes the result is 0 or the floor of the quotient. -/
def RateCorrect (pllType : PllType) (n m : BitVec 32) : Prop :=
  ∃ rate, sbClockRate pllType n m = some rate ∧
    (Computed pllType → rate ≠ 0 → ∃ ds, divisors pllType m = some ds ∧
      rate = ⌊(vco pllType n : ℚ) / (ds.prod : ℕ)⌋₊)

/-- The multipliers stay in 32 bits and no selected divisor has a code that is not listed. -/
def Fits (pllType : PllType) (n m : BitVec 32) : Prop :=
  ∀ ds, divisors pllType m = some ds → vco pllType n ≠ 0 → 0 ∉ ds ∧ vco pllType n < 2 ^ 32

lemma factor6_le (x : ℕ) : factor6 x ≤ 7 := by
  unfold factor6
  split <;> decide

/-- The divisions one behind the other are one division by the product. -/
lemma sbClockRate_eq {pllType : PllType} (h : Computed pllType) (n m : BitVec 32) :
    sbClockRate pllType n m =
      if vco pllType n % 2 ^ 32 = 0 then some 0
      else match divisors pllType m with
        | none => some 0
        | some ds => if 0 ∈ ds then none else some (vco pllType n % 2 ^ 32 / ds.prod) := by
  obtain ⟨hnone, h5, h6⟩ := h
  have hvco : clkBase pllType * n1 pllType n * n2 pllType n = vco pllType n := rfl
  simp only [sbClockRate, hvco]
  generalize vco pllType n % 2 ^ 32 = clock
  cases pllType with
  | none => exact absurd rfl hnone
  | type5 => exact absurd rfl h5
  | type6 => exact absurd rfl h6
  | type2 =>
    have h1 : m1 .type2 m ≠ 0 := by simp [m1, ccT2Bias]
    have h2 : m2 .type2 m ≠ 0 := by simp [m2, ccT2m2Bias]
    have h3 : m3 .type2 m ≠ 0 := by simp [m3, ccT2Bias]
    simp only [divisors]
    by_cases b1 : gCcmMc m &&& 1 = 0 <;> by_cases b2 : gCcmMc m &&& 2 = 0 <;>
      by_cases b3 : gCcmMc m &&& 4 = 0 <;> simp only [b1, b2, b3, if_true, if_false] <;>
      simp [udiv, h1, h2, h3, h1.symm, h2.symm, h3.symm, Nat.div_div_eq_div_mul]
  | type1 | type3 | type4 | type7 =>
    simp only [divisors]
    congr 1
    split <;> simp [udiv, Nat.mul_assoc, eq_comm]

lemma m1_le (pllType : PllType) (m : BitVec 32) : m1 pllType m ≤ 65 := by
  have hm := (m.extractLsb' 0 6).isLt
  have hf := factor6_le (gCcmM1 m)
  simp only [m1, gCcmM1, ccT2Bias] at hf ⊢
  split_ifs <;> omega

lemma m2_le (pllType : PllType) (m : BitVec 32) : m2 pllType m ≤ 36 := by
  have hm := (m.extractLsb' 8 5).isLt
  have hf := factor6_le (gCcmM2 m)
  simp only [m2, gCcmM2, ccT2m2Bias, ccF5Bias] at hf ⊢
  split_ifs <;> omega

lemma m3_le (pllType : PllType) (m : BitVec 32) : m3 pllType m ≤ 65 := by
  have hm := (m.extractLsb' 16 6).isLt
  have hf := factor6_le (gCcmM3 m)
  simp only [m3, gCcmM3, ccT2Bias] at hf ⊢
  split_ifs <;> omega

lemma prod_divisors_le {pllType : PllType} {m : BitVec 32} {ds : List ℕ}
    (h : divisors pllType m = some ds) : ds.prod ≤ 65 * (36 * 65) := by
  have h1 := m1_le pllType m
  have h2 := m2_le pllType m
  have h3 := m3_le pllType m
  have h23 := Nat.mul_le_mul h2 h3
  have h12 := Nat.mul_le_mul h1 h2
  have h13 := Nat.mul_le_mul h1 h3
  have h123 := Nat.mul_le_mul h1 h23
  cases pllType with
  | none | type5 | type6 => cases h
  | type2 =>
    obtain rfl := Option.some.inj h
    split_ifs <;> simp <;> omega
  | type1 | type3 | type4 | type7 =>
    simp only [divisors] at h
    split at h <;> first | cases h; done | (obtain rfl := Option.some.inj h; simp <;> omega)

/-- The multipliers are small: what is left of a product that does not fit is still more than the
divisors. -/
lemma le_vco_mod {pllType : PllType} {n : BitVec 32} (h : 2 ^ 32 ≤ vco pllType n) :
    65 * (36 * 65) ≤ vco pllType n % 2 ^ 32 := by
  have hn1 := (n.extractLsb' 0 6).isLt
  have hn2 := (n.extractLsb' 8 5).isLt
  have hf := factor6_le (gCcnN1 n)
  have h1 : n1 pllType n ≤ 65 := by
    simp only [n1, gCcnN1, ccT2Bias] at hf ⊢
    split_ifs <;> omega
  have h2 : n2 pllType n ≤ 36 := by
    simp only [n2, gCcnN2, ccT2Bias, ccF5Bias]
    split_ifs <;> omega
  have h12 := Nat.mul_le_mul h1 h2
  rw [vco, Nat.mul_assoc] at h ⊢
  generalize n1 pllType n * n2 pllType n = k at h h12 ⊢
  have hbase : clkBase pllType = 24000000 ∨ clkBase pllType = 12500000 := by
    rw [clkBase]
    split_ifs <;> simp
  obtain hbase | hbase := hbase <;> rw [hbase] at h ⊢
  · have hq : 24000000 * k / 2 ^ 32 ≤ 13 := by omega
    interval_cases hquot : 24000000 * k / 2 ^ 32 <;> omega
  · have hq : 12500000 * k / 2 ^ 32 ≤ 6 := by omega
    interval_cases hquot : 12500000 * k / 2 ^ 32 <;> omega

/-- A product that does not fit leaves a rate that is neither 0 nor the right one. -/
lemma div_of_le {pllType : PllType} {n m : BitVec 32} {ds : List ℕ}
    (hds : divisors pllType m = some ds) (hzero : 0 ∉ ds) (h : 2 ^ 32 ≤ vco pllType n) :
    vco pllType n % 2 ^ 32 / ds.prod ≠ 0 ∧
      vco pllType n % 2 ^ 32 / ds.prod < vco pllType n / ds.prod := by
  have hle := prod_divisors_le hds
  have hrest := le_vco_mod h
  have hpos : 0 < ds.prod := List.prod_pos fun d hd => Nat.pos_of_ne_zero fun h0 => hzero (h0 ▸ hd)
  refine ⟨(Nat.div_pos (hle.trans hrest) hpos).ne', ?_⟩
  calc vco pllType n % 2 ^ 32 / ds.prod
      < (vco pllType n % 2 ^ 32 + ds.prod) / ds.prod := by
        rw [Nat.add_div_right _ hpos]
        exact Nat.lt_succ_self _
    _ ≤ vco pllType n / ds.prod := Nat.div_le_div_right (by omega)

lemma vco_mod_ne_zero {pllType : PllType} {n : BitVec 32} (h : vco pllType n ≠ 0) :
    vco pllType n % 2 ^ 32 ≠ 0 := by
  by_cases hlt : vco pllType n < 2 ^ 32
  · rwa [Nat.mod_eq_of_lt hlt]
  · have hle := le_vco_mod (Nat.not_lt.mp hlt)
    omega

lemma rateCorrect_iff (pllType : PllType) (n m : BitVec 32) :
    RateCorrect pllType n m ↔ Fits pllType n m := by
  by_cases hcomputed : Computed pllType
  · rw [RateCorrect, sbClockRate_eq hcomputed]
    by_cases hvco : vco pllType n = 0
    · simp [hvco, Fits]
    · rw [if_neg (vco_mod_ne_zero hvco)]
      cases hds : divisors pllType m with
      | none => simp [Fits, hds]
      | some ds =>
        by_cases hzero : 0 ∈ ds
        · simp [Fits, hds, hzero, hvco]
        · have hfloor : ⌊(vco pllType n : ℚ) / (ds.prod : ℕ)⌋₊ = vco pllType n / ds.prod :=
            Nat.floor_div_eq_div _ _
          have hfits : Fits pllType n m ↔ vco pllType n < 2 ^ 32 := by
            simp [Fits, hds, hzero, hvco]
          rw [hfits]
          simp only [if_neg hzero, Option.some.injEq, exists_eq_left', hfloor, hcomputed,
            true_imp_iff]
          constructor
          · intro h
            by_contra hge
            obtain ⟨hne, hlt⟩ := div_of_le hds hzero (Nat.not_lt.mp hge)
            exact hlt.ne (h hne)
          · intro hlt _
            rw [Nat.mod_eq_of_lt hlt]
  · cases pllType with
    | type1 | type2 | type3 | type4 | type7 => exact absurd (by simp [Computed]) hcomputed
    -- nothing is divided
    | none | type5 | type6 => exact iff_of_true ⟨_, rfl, fun h => absurd h hcomputed⟩ nofun

/-- The `switch` of `sb_cpu_clock` has no case for two of the types. -/
lemma readsM_iff (r : Csr) :
    ReadsM r ↔ gCorecapPl r.corecap ≠ .none ∧ gCorecapPl r.corecap ≠ .type1 := by
  rw [ReadsM, rateCall]
  cases gCorecapPl r.corecap <;> simp [clockcontrolM]

/-! ### Main result -/

/-- An M value that has been read goes to `sb_clock_rate` exactly for a PLL that is there and not of
type 1. That function divides by nothing but nonzero numbers and computes the floor of the quotient
exactly if the multipliers make less than `2 ^ 32` and the divisors in use are decoded, or no
quotient is wanted. -/
theorem sbCpuClock_correct_iff (r : Csr) (pllType : PllType) (n m : BitVec 32) :
    (ReadsM r ↔ gCorecapPl r.corecap ≠ .none ∧ gCorecapPl r.corecap ≠ .type1) ∧
      (RateCorrect pllType n m ↔ Fits pllType n m) :=
  ⟨readsM_iff r, rateCorrect_iff pllType n m⟩

/-- A chip with a PLL of type 1 has no M value read; a PLL of type 3 with M1 selected and not set
traps; and one of type 2 with 24 MHz * 10 * 18, which are 4320 MHz, divided by 20, has 1.25 MHz in
place of 216 MHz. -/
theorem sbCpuClock_incorrect :
    ¬ ReadsM ⟨0x00010000, 0, 0, 0⟩ ∧
      sbClockRate .type3 0x00000002 0x04000000 = none ∧
      sbClockRate .type2 0x00001008 0x06000012 = some 1251635 ∧
      ¬ RateCorrect .type3 0x00000002 0x04000000 ∧
      ¬ RateCorrect .type2 0x00001008 0x06000012 := by
  have htrap : sbClockRate .type3 0x00000002 0x04000000 = none := by decide
  have hwrap : sbClockRate .type2 0x00001008 0x06000012 = some 1251635 := by decide
  refine ⟨?_, htrap, hwrap, ?_, ?_⟩
  · intro h
    exact h _ rfl rfl
  · rintro ⟨rate, hrate, -⟩
    rw [htrap] at hrate
    cases hrate
  · rintro ⟨rate, hrate, hfloor⟩
    rw [hwrap] at hrate
    obtain rfl := Option.some.inj hrate
    obtain ⟨ds, hds, heq⟩ := hfloor (by simp [Computed]) (by decide)
    obtain rfl : [20] = ds := Option.some.inj hds
    rw [Nat.floor_div_eq_div] at heq
    revert heq
    decide

end BcmMruby.SbUtils
