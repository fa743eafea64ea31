import BcmMruby.Core.Mips

/-!
# Exception vectors

`exc_setup_hw_vector` and `exc_install_ram_vectors` of `exchandler.c`, with `_exc_setup_locore` of
`exception.S`: the code that the firmware writes into low memory for the processor to find when it
takes an exception. `steps_of_vector` executes that code, for a handler anywhere in memory, and
`vectors_installed` says that none of the other things written to low memory gets in its way.
-/

namespace BcmMruby.Exception

open Core.Mips

/-! ### Writing the vectors -/

/-- `PHYS_TO_K0`. -/
def physToK0 (pa : Word) : Word := 0x80000000 ||| pa

def physToK1 (pa : Word) : Word := 0xa0000000 ||| pa

/-- A store through a pointer. -/
def write (mem : ℕ → Word) (va v : Word) : Option (ℕ → Word) :=
  (physical va).map fun p => Function.update mem p v

/-- Stores of some words in a row. -/
def writeAll (mem : ℕ → Word) (va : Word) : List Word → Option (ℕ → Word)
  | [] => some mem
  | v :: vs => (write mem va v).bind fun mem => writeAll mem (va + 4) vs

/-- The immediate operand of `lui`: `addiu` extends the sign of its own. -/
def upper (target : Word) : Word :=
  let lower := target &&& 0xffff
  let upper := (target >>> 16) &&& 0xffff
  if lower &&& 0x8000 ≠ 0 then upper + 1 else upper

/-- The words at `vec[0]` to `vec[3]`. -/
def vectorCode (target k0code : Word) : List Word :=
  [0x3c1b0000 ||| upper target, 0x277b0000 ||| (target &&& 0xffff), 0x03600008,
    0x241a0000 ||| k0code]

def excSetupHwVector (mem : ℕ → Word) (vecoffset target k0code : Word) : Option (ℕ → Word) :=
  writeAll mem (physToK0 vecoffset) (vectorCode target k0code)

/-- `MIPS_RAM_VEC_TLBFILL` and so on. -/
def mipsRamVecTlbfill : Word := 0x0000

def mipsRamVecXtlbfill : Word := 0x0080

def mipsRamVecException : Word := 0x0180

def mipsRamVecInterrupt : Word := 0x0200

def mipsRamVecCacheerr : Word := 0x0100

def mipsRamVecEnd : ℕ := 0x0300

def cfeLocoreGlobalGp : Word := 0x0040

def cfeLocoreGlobalCerrh : Word := 0x0070

def xtypeTlbfill : Word := 8

def xtypeXtlbfill : Word := 16

def xtypeCacheerr : Word := 24

def xtypeException : Word := 32

def xtypeInterrupt : Word := 40

/-- The addresses and the register that the vectors are made from. -/
structure Globals where
  /-- `CPUCFG_TLBHANDLER`. -/
  tlbHandler : Word
  excEntry : Word
  /-- `CPUCFG_CERRHANDLER`. -/
  cerrHandler : Word
  /-- The words from `_exc_cerr_template` to `_exc_cerr_template_end`. The loops that copy them have
  their test at the end. -/
  cerrTemplate : List Word
  cerrTemplate_ne_nil : cerrTemplate ≠ []
  gp : Word

/-- One half of `_exc_setup_locore`, with uncached or with cached writes. -/
def setupLocoreHalf (g : Globals) (toK : Word → Word) (mem : ℕ → Word) : Option (ℕ → Word) :=
  (write mem (toK cfeLocoreGlobalGp) g.gp).bind fun mem =>
  (write mem (toK cfeLocoreGlobalCerrh) ((g.cerrHandler &&& 0x1fffffff) ||| 0xa0000000)).bind
    fun mem => writeAll mem (toK mipsRamVecCacheerr) g.cerrTemplate

def excSetupLocore (g : Globals) (mem : ℕ → Word) : Option (ℕ → Word) :=
  (setupLocoreHalf g physToK1 mem).bind (setupLocoreHalf g physToK0)

/-- Up to the flush of the caches and the status register. -/
def excInstallRamVectors (g : Globals) (mem : ℕ → Word) : Option (ℕ → Word) :=
  (writeAll mem (physToK0 0) (List.replicate (mipsRamVecEnd / 4) 0)).bind fun mem =>
  (excSetupHwVector mem mipsRamVecTlbfill g.tlbHandler xtypeTlbfill).bind fun mem =>
  (excSetupHwVector mem mipsRamVecXtlbfill g.excEntry xtypeXtlbfill).bind fun mem =>
  (excSetupHwVector mem mipsRamVecCacheerr g.excEntry xtypeCacheerr).bind fun mem =>
  (excSetupHwVector mem mipsRamVecException g.excEntry xtypeException).bind fun mem =>
  (excSetupHwVector mem mipsRamVecInterrupt g.excEntry xtypeInterrupt).bind fun mem =>
  excSetupLocore g mem

/-! ### What the code does -/

lemma or_of_lt {hi lo : ℕ} (h : lo < 2 ^ 16) : hi * 65536 ||| lo = hi * 65536 + lo := by
  have hshift := Nat.shiftLeft_add_eq_or_of_lt h hi
  rw [Nat.shiftLeft_eq] at hshift
  exact hshift.symm

lemma toNat_lower (target : Word) : (target &&& 0xffff).toNat = target.toNat % 65536 := by
  rw [BitVec.toNat_and]
  exact Nat.and_two_pow_sub_one_eq_mod _ 16

lemma and_bit15_ne_zero (x : Word) : x &&& 0x8000 ≠ 0 ↔ x.toNat / 2 ^ 15 % 2 = 1 := by
  have htwo : (0x8000 : Word) = BitVec.twoPow 32 15 := by decide
  have hbit : x.getLsbD 15 = decide (x.toNat / 2 ^ 15 % 2 = 1) := Nat.testBit_eq_decide_div_mod_eq
  rw [htwo, BitVec.and_twoPow, hbit]
  by_cases h : x.toNat / 2 ^ 15 % 2 = 1
  · simp only [h, decide_true, if_true, iff_true]
    decide
  · simp only [h, decide_false, Bool.false_eq_true, if_false, iff_false]
    exact fun hne => hne rfl

lemma toNat_upper (target : Word) :
    (upper target).toNat =
      target.toNat / 65536 + if 0x8000 ≤ target.toNat % 65536 then 1 else 0 := by
  have ht := target.isLt
  have hlow := toNat_lower target
  have hshift : ((target >>> 16) &&& 0xffff).toNat = target.toNat / 65536 := by
    rw [toNat_lower, BitVec.toNat_ushiftRight, Nat.shiftRight_eq_div_pow]
    omega
  have hiff : (target &&& 0xffff) &&& 0x8000 ≠ 0 ↔ 0x8000 ≤ target.toNat % 65536 := by
    rw [and_bit15_ne_zero, hlow]
    omega
  rw [upper]
  by_cases h : 0x8000 ≤ target.toNat % 65536
  · rw [if_pos (hiff.mpr h), if_pos h, BitVec.toNat_add, hshift]
    have hone : (1 : Word).toNat = 1 := rfl
    omega
  · rw [if_neg (fun hbit => h (hiff.mp hbit)), if_neg h, hshift, Nat.add_zero]

/-- A carry out of the upper half gets lost in the code for register `k1`. -/
lemma decode_lui (target : Word) :
    decode (0x3c1b0000 ||| upper target) =
      some (.plain (.lui k1 ((upper target).setWidth 16))) := by
  have hu := toNat_upper target
  have ht := target.isLt
  have hor : (0x3c1b0000 ||| upper target).toNat =
      0x3c1b * 65536 + (upper target).toNat % 65536 := by
    have hbase : (0x3c1b0000 : Word).toNat = 0x3c1b * 65536 := rfl
    rw [BitVec.toNat_or, hbase]
    by_cases hlt : (upper target).toNat < 2 ^ 16
    · have hmod : (upper target).toNat % 65536 = (upper target).toNat := Nat.mod_eq_of_lt hlt
      rw [hmod]
      exact or_of_lt hlt
    · have heq : (upper target).toNat = 65536 := by
        split_ifs at hu <;> omega
      rw [heq]
      decide
  have himm : (0x3c1b0000 ||| upper target).setWidth 16 = (upper target).setWidth 16 := by
    apply BitVec.eq_of_toNat_eq
    rw [BitVec.toNat_setWidth, BitVec.toNat_setWidth, hor]
    omega
  have hop : (0x3c1b * 65536 + (upper target).toNat % 65536) / 2 ^ 26 = 0x0f := by omega
  have hrt : (0x3c1b * 65536 + (upper target).toNat % 65536) / 2 ^ 16 % 32 = 27 := by omega
  simp only [decode, hor, hop, hrt, himm, if_true]

lemma decode_addiu (base : ℕ) {rs rt : Reg} {word imm : Word}
    (hword : word.toNat = base * 65536) (himm : imm.toNat < 2 ^ 16)
    (hop : base / 2 ^ 10 = 0x09) (hrs : base / 2 ^ 5 % 32 = rs.toNat)
    (hrt : base % 32 = rt.toNat) :
    decode (word ||| imm) = some (.plain (.addiu rt rs (imm.setWidth 16))) := by
  have hor : (word ||| imm).toNat = base * 65536 + imm.toNat := by
    rw [BitVec.toNat_or, hword, or_of_lt himm]
  have hset : (word ||| imm).setWidth 16 = imm.setWidth 16 := by
    apply BitVec.eq_of_toNat_eq
    rw [BitVec.toNat_setWidth, BitVec.toNat_setWidth, hor]
    omega
  have hop' : (base * 65536 + imm.toNat) / 2 ^ 26 = 0x09 := by omega
  have hrs' : (base * 65536 + imm.toNat) / 2 ^ 21 % 32 = rs.toNat := by omega
  have hrt' : (base * 65536 + imm.toNat) / 2 ^ 16 % 32 = rt.toNat := by omega
  have hne : (0x09 : ℕ) ≠ 0x0f := by decide
  simp only [decode, hor, hop', hrs', hrt', hset, if_neg hne, if_true, BitVec.ofNat_toNat,
    BitVec.setWidth_eq]

/-- The two halves make up the address again. -/
lemma lui_addiu (target : Word) :
    ((upper target).setWidth 16).setWidth 32 <<< 16 +
      ((target &&& 0xffff).setWidth 16).signExtend 32 = target := by
  have hu := toNat_upper target
  have ht := target.isLt
  have hlow := toNat_lower target
  have hsign : (((target &&& 0xffff).setWidth 16).signExtend 32).toNat =
      target.toNat % 65536 +
        if 0x8000 ≤ target.toNat % 65536 then 2 ^ 32 - 2 ^ 16 else 0 := by
    have hmsb : ((target &&& 0xffff).setWidth 16).msb =
        decide (0x8000 ≤ target.toNat % 65536) := by
      rw [BitVec.msb_eq_decide, BitVec.toNat_setWidth, hlow, Nat.mod_mod]
    rw [BitVec.toNat_signExtend, hmsb, BitVec.toNat_setWidth, BitVec.toNat_setWidth, hlow]
    by_cases h : 0x8000 ≤ target.toNat % 65536
    · simp only [h, decide_true, if_true]
      omega
    · simp only [h, decide_false, Bool.false_eq_true, if_false]
      omega
  apply BitVec.eq_of_toNat_eq
  rw [BitVec.toNat_add, hsign, BitVec.toNat_shiftLeft, BitVec.toNat_setWidth,
    BitVec.toNat_setWidth, hu, Nat.shiftLeft_eq]
  split_ifs <;> omega

/-- Words in a row, from the place `p` on. -/
def HasWords (mem : ℕ → Word) (p : ℕ) (vs : List Word) : Prop :=
  ∀ i < vs.length, vs[i]? = some (mem (p + 4 * i))

lemma physical_of_toNat {va : Word} {p : ℕ} (hva : va.toNat = 0x80000000 + p) (h4 : p % 4 = 0)
    (hp : p < 0x20000000) : physical va = some p := by
  rw [physical, if_pos (by omega), hva]
  congr 1
  omega

/-- From the vector, the processor gets to the handler with the code in `k0`, whatever the address
of the handler is; besides `k1` the code leaves everything as it was. -/
theorem steps_of_vector {m : Machine} {pc : Word} {p : ℕ} {target k0code : Word}
    (hpc : pc.toNat = 0x80000000 + p) (h4 : p % 4 = 0) (hp : p + 16 ≤ 0x20000000)
    (hcode : k0code.toNat < 0x8000) (hmem : HasWords m.mem p (vectorCode target k0code)) :
    steps 4 ⟨m, pc, pc + 4⟩ =
      some ⟨(m.set k1 target).set k0 k0code, target, target + 4⟩ := by
  have hnext : ∀ (a : Word) (q : ℕ), a.toNat = 0x80000000 + q → q + 4 < 0x20000000 →
      (a + 4).toNat = 0x80000000 + (q + 4) := by
    intro a q ha hq
    have hfour : (4 : Word).toNat = 4 := rfl
    rw [BitVec.toNat_add]
    omega
  have hpc₁ := hnext _ _ hpc (by omega)
  have hpc₂ := hnext _ _ hpc₁ (by omega)
  have hpc₃ := hnext _ _ hpc₂ (by omega)
  have hword : ∀ i < 4, (vectorCode target k0code)[i]? = some (m.mem (p + 4 * i)) := hmem
  have h0 := hword 0 (by decide)
  have h1 := hword 1 (by decide)
  have h2 := hword 2 (by decide)
  have h3 := hword 3 (by decide)
  simp only [vectorCode, List.getElem?_cons_zero, List.getElem?_cons_succ, Option.some.injEq]
    at h0 h1 h2 h3
  have d0 := decode_lui target
  have d1 : decode (0x277b0000 ||| (target &&& 0xffff)) =
      some (.plain (.addiu k1 k1 ((target &&& 0xffff).setWidth 16))) :=
    decode_addiu 0x277b rfl (by rw [toNat_lower]; omega) rfl rfl rfl
  have d2 : decode 0x03600008 = some (.jr k1) := by decide
  have d3 : decode (0x241a0000 ||| k0code) = some (.plain (.addiu k0 zero (k0code.setWidth 16))) :=
    decode_addiu 0x241a rfl (by omega) rfl rfl rfl
  rw [h0] at d0
  rw [h1] at d1
  rw [h2] at d2
  rw [h3] at d3
  have s0 : step ⟨m, pc, pc + 4⟩ = some ⟨_, pc + 4, pc + 4 + 4⟩ :=
    step_plain (physical_of_toNat hpc h4 (by omega)) d0 rfl
  have s1 : step ⟨m.set k1 (((upper target).setWidth 16).setWidth 32 <<< 16), pc + 4,
      pc + 4 + 4⟩ = some ⟨m.set k1 target, pc + 4 + 4, pc + 4 + 4 + 4⟩ := by
    refine step_plain (i := .addiu k1 k1 ((target &&& 0xffff).setWidth 16))
      (physical_of_toNat hpc₁ (by omega) (by omega)) ?_ ?_
    · rw [mem_set]
      exact d1
    · rw [exec, get_set_self _ _ _ (by decide), set_set, lui_addiu]
  have s2 : step ⟨m.set k1 target, pc + 4 + 4, pc + 4 + 4 + 4⟩ =
      some ⟨m.set k1 target, pc + 4 + 4 + 4, target⟩ := by
    have hjump : step ⟨m.set k1 target, pc + 4 + 4, pc + 4 + 4 + 4⟩ =
        some ⟨_, _, (m.set k1 target).get k1⟩ :=
      step_jr (r := k1) (physical_of_toNat hpc₂ (by omega) (by omega))
        (by rw [mem_set]; exact d2)
    rwa [get_set_self _ _ _ (by decide)] at hjump
  have s3 : step ⟨m.set k1 target, pc + 4 + 4 + 4, target⟩ =
      some ⟨(m.set k1 target).set k0 k0code, target, target + 4⟩ := by
    refine step_plain (i := .addiu k0 zero (k0code.setWidth 16))
      (physical_of_toNat hpc₃ (by omega) (by omega)) ?_ ?_
    · rw [mem_set]
      exact d3
    · have hsign : (k0code.setWidth 16).signExtend 32 = k0code := by
        have hset : k0code.setWidth 16 = BitVec.ofNat 16 k0code.toNat := by
          apply BitVec.eq_of_toNat_eq
          simp
        apply BitVec.eq_of_toNat_eq
        rw [hset, toNat_offset hcode]
      have hzero : (0 : Word) + k0code = k0code := BitVec.zero_add k0code
      rw [exec, get_zero, hsign, hzero]
  simp only [steps, s0, s1, s2, s3, Option.bind_some]

/-! ### What is in low memory -/

/-- An unmapped address, cached or uncached, of the place `p`. -/
def Unmapped (va : Word) (p : ℕ) : Prop :=
  va.toNat = 0x80000000 + p ∨ va.toNat = 0xa0000000 + p

lemma Unmapped.physical {va : Word} {p : ℕ} (h : Unmapped va p) (h4 : p % 4 = 0)
    (hp : p < 0x20000000) : physical va = some p := by
  have hrange : va.toNat % 4 = 0 ∧ 0x80000000 ≤ va.toNat ∧ va.toNat < 0xc0000000 := by
    rcases h with h | h <;> omega
  rw [Core.Mips.physical, if_pos hrange]
  congr 1
  rcases h with h | h <;> omega

lemma Unmapped.next {va : Word} {p : ℕ} (h : Unmapped va p) (hp : p + 4 < 0x20000000) :
    Unmapped (va + 4) (p + 4) := by
  have hfour : (4 : Word).toNat = 4 := rfl
  rcases h with h | h
  · left
    rw [BitVec.toNat_add]
    omega
  · right
    rw [BitVec.toNat_add]
    omega

lemma write_eq {mem : ℕ → Word} {va : Word} {p : ℕ} (h : Unmapped va p) (h4 : p % 4 = 0)
    (hp : p < 0x20000000) (v : Word) : write mem va v = some (Function.update mem p v) := by
  rw [write, h.physical h4 hp, Option.map_some]

lemma writeAll_eq {va : Word} {p : ℕ} (vs : List Word) (mem : ℕ → Word) (h : Unmapped va p)
    (h4 : p % 4 = 0) (hp : p + 4 * vs.length < 0x20000000) :
    ∃ mem', writeAll mem va vs = some mem' ∧ HasWords mem' p vs ∧
      ∀ q, q < p ∨ p + 4 * vs.length ≤ q → mem' q = mem q := by
  induction vs generalizing va p mem with
  | nil => exact ⟨mem, rfl, fun i hi => absurd hi (Nat.not_lt_zero i), fun _ _ => rfl⟩
  | cons v vs ih =>
    rw [List.length_cons] at hp
    obtain ⟨mem', hmem', hwords, hframe⟩ :=
      ih (Function.update mem p v) (h.next (by omega)) (by omega) (by omega)
    refine ⟨mem', ?_, ?_, ?_⟩
    · rw [writeAll, write_eq h h4 (by omega), Option.bind_some, hmem']
    · intro i hi
      cases i with
      | zero => simp [hframe p (.inl (by omega))]
      | succ i =>
        have hplace : p + 4 * (i + 1) = p + 4 + 4 * i := by omega
        rw [List.getElem?_cons_succ, hplace]
        exact hwords i (by simpa using hi)
    · intro q hq
      rw [List.length_cons] at hq
      rw [hframe q (by omega), Function.update_of_ne (by omega)]

lemma HasWords.congr {mem mem' : ℕ → Word} {p : ℕ} {vs : List Word} (h : HasWords mem p vs)
    (heq : ∀ q, p ≤ q → q < p + 4 * vs.length → mem' q = mem q) : HasWords mem' p vs := by
  intro i hi
  rw [heq (p + 4 * i) (by omega) (by omega)]
  exact h i hi

lemma unmapped_physToK0 {pa : Word} {p : ℕ} (hpa : pa.toNat = p) (hp : p < 0x10000) :
    Unmapped (physToK0 pa) p := by
  left
  have hbase : (0x80000000 : Word).toNat = 0x8000 * 65536 := rfl
  rw [physToK0, BitVec.toNat_or, hbase, or_of_lt (by omega), hpa]

lemma unmapped_physToK1 {pa : Word} {p : ℕ} (hpa : pa.toNat = p) (hp : p < 0x10000) :
    Unmapped (physToK1 pa) p := by
  right
  have hbase : (0xa0000000 : Word).toNat = 0xa000 * 65536 := rfl
  rw [physToK1, BitVec.toNat_or, hbase, or_of_lt (by omega), hpa]

lemma excSetupHwVector_eq {vecoffset : Word} {p : ℕ} (hp : vecoffset.toNat = p)
    (h4 : p % 4 = 0) (hlt : p < 0x10000) (target k0code : Word) (mem : ℕ → Word) :
    ∃ mem', excSetupHwVector mem vecoffset target k0code = some mem' ∧
      HasWords mem' p (vectorCode target k0code) ∧
      ∀ q, q < p ∨ p + 16 ≤ q → mem' q = mem q :=
  writeAll_eq (vectorCode target k0code) mem (unmapped_physToK0 hp hlt) h4
    (show p + 4 * 4 < 0x20000000 by omega)

lemma setupLocoreHalf_eq {g : Globals} (hlen : g.cerrTemplate.length ≤ 32) {toK : Word → Word}
    (htoK : ∀ {pa p}, pa.toNat = p → p < 0x10000 → Unmapped (toK pa) p) (mem : ℕ → Word) :
    ∃ mem', setupLocoreHalf g toK mem = some mem' ∧ HasWords mem' 0x100 g.cerrTemplate ∧
      mem' 0x40 = g.gp ∧ mem' 0x70 = (g.cerrHandler &&& 0x1fffffff) ||| 0xa0000000 ∧
      ∀ q, q ≠ 0x40 → q ≠ 0x70 → q < 0x100 ∨ 0x180 ≤ q → mem' q = mem q := by
  have hgp : Unmapped (toK cfeLocoreGlobalGp) 0x40 := htoK rfl (by decide)
  have hcerrh : Unmapped (toK cfeLocoreGlobalCerrh) 0x70 := htoK rfl (by decide)
  have hvec : Unmapped (toK mipsRamVecCacheerr) 0x100 := htoK rfl (by decide)
  obtain ⟨mem', hmem', hwords, hframe⟩ := writeAll_eq g.cerrTemplate
    (Function.update (Function.update mem 0x40 g.gp) 0x70
      ((g.cerrHandler &&& 0x1fffffff) ||| 0xa0000000)) hvec (by decide) (by omega)
  refine ⟨mem', ?_, hwords, ?_, ?_, ?_⟩
  · rw [setupLocoreHalf, write_eq hgp (by decide) (by decide), Option.bind_some,
      write_eq hcerrh (by decide) (by decide), Option.bind_some, hmem']
  · rw [hframe _ (.inl (by decide))]
    rfl
  · rw [hframe _ (.inl (by decide))]
    rfl
  · intro q h40 h70 hq
    rw [hframe q (by omega), Function.update_of_ne h70, Function.update_of_ne h40]

/-- The vectors in use: their places, the handlers and the codes. The vector for cache errors gets
code of its own. -/
def vectors (g : Globals) : List (Word × Word × Word) :=
  [(mipsRamVecTlbfill, g.tlbHandler, xtypeTlbfill), (mipsRamVecXtlbfill, g.excEntry, xtypeXtlbfill),
    (mipsRamVecException, g.excEntry, xtypeException),
    (mipsRamVecInterrupt, g.excEntry, xtypeInterrupt)]

/-- The words of a vector are still there after everything that is written behind it. -/
lemma excInstallRamVectors_eq (g : Globals) (hlen : g.cerrTemplate.length ≤ 32)
    (mem : ℕ → Word) :
    ∃ mem', excInstallRamVectors g mem = some mem' ∧
      (∀ v ∈ vectors g, HasWords mem' v.1.toNat (vectorCode v.2.1 v.2.2)) ∧
      HasWords mem' 0x100 g.cerrTemplate ∧ mem' 0x40 = g.gp ∧
      mem' 0x70 = (g.cerrHandler &&& 0x1fffffff) ||| 0xa0000000 ∧
      ∀ q, 0x300 ≤ q → mem' q = mem q := by
  have hzero : Unmapped (physToK0 0) 0 := unmapped_physToK0 (p := 0) rfl (by decide)
  obtain ⟨mem₀, h₀, -, f₀⟩ := writeAll_eq (List.replicate (mipsRamVecEnd / 4) 0) mem hzero
    (by decide) (by rw [List.length_replicate]; decide)
  obtain ⟨mem₁, h₁, w₁, f₁⟩ := excSetupHwVector_eq (show mipsRamVecTlbfill.toNat = 0 from rfl)
    (by decide) (by decide) g.tlbHandler xtypeTlbfill mem₀
  obtain ⟨mem₂, h₂, w₂, f₂⟩ := excSetupHwVector_eq (show mipsRamVecXtlbfill.toNat = 0x80 from rfl)
    (by decide) (by decide) g.excEntry xtypeXtlbfill mem₁
  obtain ⟨mem₃, h₃, -, f₃⟩ := excSetupHwVector_eq (show mipsRamVecCacheerr.toNat = 0x100 from rfl)
    (by decide) (by decide) g.excEntry xtypeCacheerr mem₂
  obtain ⟨mem₄, h₄, w₄, f₄⟩ := excSetupHwVector_eq (show mipsRamVecException.toNat = 0x180 from rfl)
    (by decide) (by decide) g.excEntry xtypeException mem₃
  obtain ⟨mem₅, h₅, w₅, f₅⟩ := excSetupHwVector_eq (show mipsRamVecInterrupt.toNat = 0x200 from rfl)
    (by decide) (by decide) g.excEntry xtypeInterrupt mem₄
  obtain ⟨mem₆, h₆, -, -, -, f₆⟩ := setupLocoreHalf_eq hlen unmapped_physToK1 mem₅
  obtain ⟨mem₇, h₇, w₇, hgp, hcerrh, f₇⟩ := setupLocoreHalf_eq hlen unmapped_physToK0 mem₆
  refine ⟨mem₇, ?_, ?_, w₇, hgp, hcerrh, ?_⟩
  · rw [excInstallRamVectors, h₀, Option.bind_some, h₁, Option.bind_some, h₂, Option.bind_some, h₃,
      Option.bind_some, h₄, Option.bind_some, h₅, Option.bind_some, excSetupLocore, h₆,
      Option.bind_some, h₇]
  · have hlen4 : ∀ target k0code, (vectorCode target k0code).length = 4 := fun _ _ => rfl
    simp only [vectors, List.forall_mem_cons, List.not_mem_nil, false_implies, implies_true,
      and_true]
    refine ⟨w₁.congr ?_, w₂.congr ?_, w₄.congr ?_, w₅.congr ?_⟩ <;> intro q hlo hhi <;>
      rw [hlen4] at hhi
    · rw [f₇ q (by omega) (by omega) (by omega), f₆ q (by omega) (by omega) (by omega),
        f₅ q (by omega), f₄ q (by omega), f₃ q (by omega), f₂ q (by omega)]
    · rw [f₇ q (by omega) (by omega) (by omega), f₆ q (by omega) (by omega) (by omega),
        f₅ q (by omega), f₄ q (by omega), f₃ q (by omega)]
    · rw [f₇ q (by omega) (by omega) (by omega), f₆ q (by omega) (by omega) (by omega),
        f₅ q (by omega)]
    · rw [f₇ q (by omega) (by omega) (by omega), f₆ q (by omega) (by omega) (by omega)]
  · intro q hq
    have hend : 0 + 4 * (List.replicate (mipsRamVecEnd / 4) (0 : Word)).length = 0x300 := by
      rw [List.length_replicate]
      decide
    rw [f₇ q (by omega) (by omega) (by omega), f₆ q (by omega) (by omega) (by omega),
      f₅ q (by omega), f₄ q (by omega), f₃ q (by omega), f₂ q (by omega), f₁ q (by omega),
      f₀ q (by omega)]

/-- Once the vectors are installed, every exception other than a cache error gets to its handler
with its code in `k0`, and the memory holds what the handler is going to look up there. The code for
cache errors must not reach the next vector. -/
theorem vectors_installed (g : Globals) (hlen : g.cerrTemplate.length ≤ 32) (mem : ℕ → Word) :
    ∃ mem', excInstallRamVectors g mem = some mem' ∧
      (∀ v ∈ vectors g, ∀ m : Machine, m.mem = mem' →
        steps 4 ⟨m, physToK0 v.1, physToK0 v.1 + 4⟩ =
          some ⟨(m.set k1 v.2.1).set k0 v.2.2, v.2.1, v.2.1 + 4⟩) ∧
      HasWords mem' 0x100 g.cerrTemplate ∧ mem' 0x40 = g.gp ∧
      mem' 0x70 = (g.cerrHandler &&& 0x1fffffff) ||| 0xa0000000 ∧
      ∀ q, 0x300 ≤ q → mem' q = mem q := by
  obtain ⟨mem', hmem', hvec, hrest⟩ := excInstallRamVectors_eq g hlen mem
  refine ⟨mem', hmem', ?_, hrest⟩
  have hpc : ∀ off : Word, off.toNat < 0x10000 → (physToK0 off).toNat = 0x80000000 + off.toNat := by
    intro off hoff
    have hbase : (0x80000000 : Word).toNat = 0x8000 * 65536 := rfl
    rw [physToK0, BitVec.toNat_or, hbase, or_of_lt hoff]
  have hsmall : ∀ v ∈ vectors g,
      v.1.toNat < 0x10000 ∧ v.1.toNat % 4 = 0 ∧ v.2.2.toNat < 0x8000 := by
    simp only [vectors, List.forall_mem_cons, List.not_mem_nil, false_implies, implies_true,
      and_true]
    decide
  rintro v hv m rfl
  obtain ⟨hlt, h4, hcode⟩ := hsmall v hv
  exact steps_of_vector (hpc _ hlt) h4 (by omega) hcode (hvec v hv)

/-- A cache error handler of three words; the lower half of `_exc_entry` is negative. -/
def threeWords : Globals :=
  ⟨0x80008000, 0x8000c004, 0x80009000, [1, 2, 3], by decide, 0x8001fff0⟩

/-- Over an empty memory. -/
theorem vectors_installed_example :
    ∃ mem', excInstallRamVectors threeWords (fun _ => 0) = some mem' ∧
      (∀ v ∈ vectors threeWords, ∀ m : Machine, m.mem = mem' →
        steps 4 ⟨m, physToK0 v.1, physToK0 v.1 + 4⟩ =
          some ⟨(m.set k1 v.2.1).set k0 v.2.2, v.2.1, v.2.1 + 4⟩) ∧
      HasWords mem' 0x100 [1, 2, 3] ∧ mem' 0x40 = 0x8001fff0 ∧ mem' 0x70 = 0xa0009000 := by
  obtain ⟨mem', hmem', hsteps, hcerr, hgp, hcerrh, -⟩ :=
    vectors_installed threeWords (by decide) fun _ => 0
  exact ⟨mem', hmem', hsteps, hcerr, hgp, hcerrh⟩

end BcmMruby.Exception
