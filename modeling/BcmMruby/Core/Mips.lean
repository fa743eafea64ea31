import Mathlib.Tactic

/-!
# A MIPS processor

The part of the instruction set that low-level code is made of: loads and stores of words, address
arithmetic, moves from and to the special registers, and `jr` with its delay slot. Memory is
addressed physically; the unmapped segments `kseg0` and `kseg1` both lead to the lowest part of it.
`execAll_saves` and `execAll_loads` describe lists of stores and loads relative to one base, and
`exists_loop` is the rule for a loop with its test at the end.
-/

namespace Core.Mips

abbrev Word : Type := BitVec 32

abbrev Reg : Type := BitVec 5

abbrev zero : Reg := 0#5
abbrev t0 : Reg := 8#5
abbrev k0 : Reg := 26#5
abbrev k1 : Reg := 27#5

structure Machine where
  reg : Reg → Word
  hi : Word
  lo : Word
  cp0 : Reg → Word
  mem : ℕ → Word

/-- Register 0 is always 0. -/
def Machine.get (m : Machine) (r : Reg) : Word := if r = 0#5 then 0 else m.reg r

def Machine.set (m : Machine) (r : Reg) (v : Word) : Machine :=
  if r = 0#5 then m else { m with reg := Function.update m.reg r v }

def Machine.store (m : Machine) (p : ℕ) (v : Word) : Machine :=
  { m with mem := Function.update m.mem p v }

/-- Where an access to a word goes. An address that is not aligned, or in a mapped segment, has no
place. -/
def physical (a : Word) : Option ℕ :=
  if a.toNat % 4 = 0 ∧ 0x80000000 ≤ a.toNat ∧ a.toNat < 0xc0000000 then
    some (a.toNat % 0x20000000)
  else none

inductive Instr where
  | lui (rt : Reg) (imm : BitVec 16)
  | addiu (rt rs : Reg) (imm : BitVec 16)
  | addu (rd rs rt : Reg)
  | addi (rt rs : Reg) (imm : BitVec 16)
  | add (rd rs rt : Reg)
  | slt (rd rs rt : Reg)
  | srl (rd rt : Reg) (sa : ℕ)
  | sll (rd rt : Reg) (sa : ℕ)
  | lw (rt : Reg) (offset : BitVec 16) (base : Reg)
  | sw (rt : Reg) (offset : BitVec 16) (base : Reg)
  | mfc0 (rt cd : Reg)
  | mflo (rd : Reg)
  | mfhi (rd : Reg)
  | mtlo (rs : Reg)
  | mthi (rs : Reg)
  deriving DecidableEq

/-- The sum where an overflow traps. -/
def sum (x y : Word) : Option Word := if x.saddOverflow y then none else some (x + y)

def exec (m : Machine) : Instr → Option Machine
  | .lui rt imm => some (m.set rt (imm.setWidth 32 <<< 16))
  | .addiu rt rs imm => some (m.set rt (m.get rs + imm.signExtend 32))
  | .addu rd rs rt => some (m.set rd (m.get rs + m.get rt))
  | .addi rt rs imm => (sum (m.get rs) (imm.signExtend 32)).map (m.set rt)
  | .add rd rs rt => (sum (m.get rs) (m.get rt)).map (m.set rd)
  | .slt rd rs rt => some (m.set rd (if (m.get rs).slt (m.get rt) then 1 else 0))
  | .srl rd rt sa => some (m.set rd (m.get rt >>> sa))
  | .sll rd rt sa => some (m.set rd (m.get rt <<< sa))
  | .lw rt offset base =>
    (physical (m.get base + offset.signExtend 32)).map fun p => m.set rt (m.mem p)
  | .sw rt offset base =>
    (physical (m.get base + offset.signExtend 32)).map fun p => m.store p (m.get rt)
  | .mfc0 rt cd => some (m.set rt (m.cp0 cd))
  | .mflo rd => some (m.set rd m.lo)
  | .mfhi rd => some (m.set rd m.hi)
  | .mtlo rs => some { m with lo := m.get rs }
  | .mthi rs => some { m with hi := m.get rs }

def execAll (m : Machine) : List Instr → Option Machine
  | [] => some m
  | i :: is => (exec m i).bind fun m => execAll m is

@[simp] lemma execAll_nil (m : Machine) : execAll m [] = some m := rfl

@[simp] lemma execAll_cons (m : Machine) (i : Instr) (is : List Instr) :
    execAll m (i :: is) = (exec m i).bind fun m => execAll m is := rfl

lemma execAll_append (m : Machine) (is js : List Instr) :
    execAll m (is ++ js) = (execAll m is).bind fun m => execAll m js := by
  induction is generalizing m with
  | nil => rfl
  | cons i is ih => cases h : exec m i <;> simp [h, ih]

/-! ### Registers -/

section

variable (m : Machine) (r : Reg) (v : Word)

@[simp] lemma get_zero : m.get 0#5 = 0 := if_pos rfl

lemma get_set (q : Reg) : (m.set r v).get q = if q = r ∧ r ≠ 0#5 then v else m.get q := by
  unfold Machine.set
  by_cases hr : r = 0#5
  · rw [if_pos hr, if_neg fun h => h.2 hr]
  · rw [if_neg hr]
    by_cases hq : q = r
    · rw [if_pos ⟨hq, hr⟩, hq, Machine.get, if_neg hr]
      exact Function.update_self _ _ _
    · rw [if_neg fun h => hq h.1, Machine.get, Machine.get]
      exact congrArg (if q = 0#5 then 0 else ·) (Function.update_of_ne hq _ _)

lemma get_set_self (hr : r ≠ 0#5) : (m.set r v).get r = v := by rw [get_set, if_pos ⟨rfl, hr⟩]

lemma get_set_of_ne {q : Reg} (hq : q ≠ r) : (m.set r v).get q = m.get q := by
  rw [get_set, if_neg fun h => hq h.1]

lemma set_set (v' : Word) : (m.set r v).set r v' = m.set r v' := by
  unfold Machine.set
  by_cases hr : r = 0#5
  · simp only [if_pos hr]
  · simp only [if_neg hr, Function.update_idem]

@[simp] lemma mem_set : (m.set r v).mem = m.mem := by
  rw [Machine.set]
  split_ifs <;> rfl

@[simp] lemma cp0_set : (m.set r v).cp0 = m.cp0 := by
  rw [Machine.set]
  split_ifs <;> rfl

@[simp] lemma hi_set : (m.set r v).hi = m.hi := by
  rw [Machine.set]
  split_ifs <;> rfl

@[simp] lemma lo_set : (m.set r v).lo = m.lo := by
  rw [Machine.set]
  split_ifs <;> rfl

lemma mem_store (p q : ℕ) : (m.store p v).mem q = if q = p then v else m.mem q := by
  simp [Machine.store, Function.update_apply]

@[simp] lemma get_store (p : ℕ) : (m.store p v).get r = m.get r := rfl

@[simp] lemma get_mem (mem : ℕ → Word) : { m with mem := mem }.get r = m.get r := rfl

@[simp] lemma get_lo (w : Word) : { m with lo := w }.get r = m.get r := rfl

@[simp] lemma get_hi (w : Word) : { m with hi := w }.get r = m.get r := rfl

end

/-! ### Addresses in `kseg0` -/

lemma physical_of_kseg0 {a : Word} (h4 : a.toNat % 4 = 0) (hlow : 0x80000000 ≤ a.toNat)
    (hhigh : a.toNat < 0xa0000000) : physical a = some (a.toNat - 0x80000000) := by
  have hplace : a.toNat % 0x20000000 = a.toNat - 0x80000000 := by omega
  rw [physical, if_pos ⟨h4, hlow, by omega⟩, hplace]

lemma toInt_of_kseg0 {a : Word} (h : 0x80000000 ≤ a.toNat) : a.toInt = a.toNat - 2 ^ 32 := by
  rw [BitVec.toInt_eq_toNat_cond, if_neg (by omega)]
  push_cast
  rfl

/-- No trap within `kseg0`, and no carry. -/
lemma sum_of_kseg0 {a b : Word} (ha : 0x80000000 ≤ a.toNat) (hb : a.toNat + b.toNat ≤ 0xa0000000) :
    sum a b = some (a + b) ∧ (a + b).toNat = a.toNat + b.toNat := by
  have hb' : b.toInt = b.toNat := BitVec.toInt_eq_toNat_of_lt (by omega)
  refine ⟨if_neg ?_, by rw [BitVec.toNat_add]; omega⟩
  rw [BitVec.saddOverflow, toInt_of_kseg0 ha, hb', Bool.or_eq_true, decide_eq_true_eq,
    decide_eq_true_eq]
  norm_num
  omega

lemma slt_of_kseg0 {a b : Word} (ha : 0x80000000 ≤ a.toNat) (hb : 0x80000000 ≤ b.toNat) :
    a.slt b = decide (a.toNat < b.toNat) := by
  rw [BitVec.slt, toInt_of_kseg0 ha, toInt_of_kseg0 hb]
  exact decide_eq_decide.mpr (by omega)

section

variable {m : Machine} {b : Reg}

lemma exec_lw_of_kseg0 (h4 : (m.get b).toNat % 4 = 0) (hlow : 0x80000000 ≤ (m.get b).toNat)
    (hhigh : (m.get b).toNat < 0xa0000000) (rt : Reg) :
    exec m (.lw rt 0 b) = some (m.set rt (m.mem ((m.get b).toNat - 0x80000000))) := by
  have hoff : m.get b + (0 : BitVec 16).signExtend 32 = m.get b := BitVec.add_zero _
  rw [exec, hoff, physical_of_kseg0 h4 hlow hhigh, Option.map_some]

lemma exec_sw_of_kseg0 (h4 : (m.get b).toNat % 4 = 0) (hlow : 0x80000000 ≤ (m.get b).toNat)
    (hhigh : (m.get b).toNat < 0xa0000000) (rt : Reg) :
    exec m (.sw rt 0 b) = some (m.store ((m.get b).toNat - 0x80000000) (m.get rt)) := by
  have hoff : m.get b + (0 : BitVec 16).signExtend 32 = m.get b := BitVec.add_zero _
  rw [exec, hoff, physical_of_kseg0 h4 hlow hhigh, Option.map_some]

/-- To the next word. -/
lemma exec_next_of_kseg0 (hlow : 0x80000000 ≤ (m.get b).toNat)
    (hhigh : (m.get b).toNat + 4 ≤ 0xa0000000) :
    exec m (.addi b b 4) = some (m.set b (m.get b + 4)) ∧
      (m.get b + 4).toNat = (m.get b).toNat + 4 := by
  have hfour : (4 : BitVec 16).signExtend 32 = 4 := by decide
  obtain ⟨hsum, htoNat⟩ := sum_of_kseg0 (b := 4) hlow hhigh
  exact ⟨by rw [exec, hfour, hsum, Option.map_some], htoNat⟩

end

/-! ### Loops -/

/-- `1:`, the instructions, and `bne r, $0, 1b`. -/
def loop (is : List Instr) (r : Reg) : ℕ → Machine → Option Machine
  | 0, _ => none
  | fuel + 1, m => (execAll m is).bind fun m => if m.get r = 0 then some m else loop is r fuel m

/-- `P i` holds after `i` turns, and `n` turns are made. -/
lemma exists_loop {is : List Instr} {r : Reg} {P : ℕ → Machine → Prop} {n : ℕ} (hn : 0 < n)
    (hstep : ∀ i < n, ∀ m, P i m → ∃ m', execAll m is = some m' ∧ P (i + 1) m' ∧
      (m'.get r = 0 ↔ i + 1 = n)) {m : Machine} (h : P 0 m) {fuel : ℕ} (hfuel : n ≤ fuel) :
    ∃ m', loop is r fuel m = some m' ∧ P n m' := by
  suffices hrun : ∀ k i m fuel, i + k = n → 0 < k → P i m → k ≤ fuel →
      ∃ m', loop is r fuel m = some m' ∧ P n m' from
    hrun n 0 m fuel (Nat.zero_add n) hn h hfuel
  intro k
  induction k with
  | zero => exact fun _ _ _ _ hk => absurd hk (lt_irrefl 0)
  | succ k ih =>
    intro i m fuel hi _ hP hk
    obtain ⟨fuel, rfl⟩ : ∃ j, fuel = j + 1 := ⟨fuel - 1, by omega⟩
    obtain ⟨m', hm', hP', htest⟩ := hstep i (by omega) m hP
    rw [loop, hm', Option.bind_some]
    by_cases hlast : i + 1 = n
    · exact ⟨m', if_pos (htest.mpr hlast), hlast ▸ hP'⟩
    · rw [if_neg (htest.not.mpr hlast)]
      exact ih (i + 1) m' fuel (by omega) (by omega) hP' (by omega)

/-! ### Blocks of stores and loads -/

/-- A block of memory in `kseg0`. -/
structure Block (f : Word) (size : ℕ) : Prop where
  aligned : f.toNat % 4 = 0
  low : 0x80000000 ≤ f.toNat
  high : f.toNat + size ≤ 0xa0000000
  size_le : size ≤ 0x8000

/-- The place of the word at an offset. -/
def place (f : Word) (offset : ℕ) : ℕ := f.toNat - 0x80000000 + offset

lemma place_eq {f : Word} {s : ℕ} (h : f.toNat = 0x80000000 + s) (offset : ℕ) :
    place f offset = s + offset := by
  unfold place
  omega

lemma place_inj {f : Word} {x y : ℕ} : place f x = place f y ↔ x = y := by
  simp [place]

lemma toNat_offset {n : ℕ} (hn : n < 0x8000) :
    ((BitVec.ofNat 16 n).signExtend 32).toNat = n := by
  rw [BitVec.signExtend_eq_setWidth_of_msb_false, BitVec.toNat_setWidth, BitVec.toNat_ofNat]
  · omega
  · rw [BitVec.msb_eq_decide, BitVec.toNat_ofNat]
    simp only [decide_eq_false_iff_not]
    omega

section

variable {f : Word} {size : ℕ} {m : Machine} {b : Reg}

lemma Block.physical (H : Block f size) {offset : ℕ} (h4 : offset % 4 = 0)
    (hsize : offset + 4 ≤ size) :
    physical (f + (BitVec.ofNat 16 offset).signExtend 32) = some (place f offset) := by
  obtain ⟨haligned, hlow, hhigh, hle⟩ := H
  have hsum : (f + (BitVec.ofNat 16 offset).signExtend 32).toNat = f.toNat + offset := by
    rw [BitVec.toNat_add, toNat_offset (by omega)]
    omega
  rw [Mips.physical, hsum, if_pos (by omega), place]
  congr 1
  omega

/-- Stores of registers at offsets from `b`. -/
def saves (b : Reg) (xs : List (Reg × ℕ)) : List Instr :=
  xs.map fun x => .sw x.1 (BitVec.ofNat 16 x.2) b

def loads (b : Reg) (xs : List (Reg × ℕ)) : List Instr :=
  xs.map fun x => .lw x.1 (BitVec.ofNat 16 x.2) b

lemma execAll_saves (H : Block f size) {xs : List (Reg × ℕ)} (hb : m.get b = f)
    (hoff : ∀ x ∈ xs, x.2 % 4 = 0 ∧ x.2 + 4 ≤ size) (hnodup : (xs.map Prod.snd).Nodup) :
    ∃ m', execAll m (saves b xs) = some m' ∧
      (∀ x ∈ xs, m'.mem (place f x.2) = m.get x.1) ∧
      (∀ p, (∀ x ∈ xs, p ≠ place f x.2) → m'.mem p = m.mem p) ∧
      (∀ r, m'.get r = m.get r) ∧ m'.hi = m.hi ∧ m'.lo = m.lo ∧ m'.cp0 = m.cp0 := by
  induction xs generalizing m with
  | nil => exact ⟨m, rfl, by simp, fun _ _ => rfl, fun _ => rfl, rfl, rfl, rfl⟩
  | cons x xs ih =>
    obtain ⟨hx, hxs⟩ := List.forall_mem_cons.mp hoff
    rw [List.map_cons, List.nodup_cons] at hnodup
    obtain ⟨m', hm', hin, hout, hrest⟩ :=
      ih (m := m.store (place f x.2) (m.get x.1)) hb hxs hnodup.2
    refine ⟨m', ?_, ?_, ?_, hrest⟩
    · rw [saves, List.map_cons, execAll_cons, exec, hb, H.physical hx.1 hx.2, Option.map_some,
        Option.bind_some]
      exact hm'
    · refine List.forall_mem_cons.mpr ⟨?_, hin⟩
      rw [hout, mem_store, if_pos rfl]
      intro y hy
      rw [Ne, place_inj]
      exact fun e => hnodup.1 (e ▸ List.mem_map_of_mem hy)
    · intro p hp
      obtain ⟨hpx, hpxs⟩ := List.forall_mem_cons.mp hp
      rw [hout p hpxs, mem_store, if_neg hpx]

lemma execAll_loads (H : Block f size) {xs : List (Reg × ℕ)} (hb : m.get b = f)
    (hoff : ∀ x ∈ xs, x.2 % 4 = 0 ∧ x.2 + 4 ≤ size) (hnodup : (0#5 :: b :: xs.map Prod.fst).Nodup) :
    ∃ m', execAll m (loads b xs) = some m' ∧
      (∀ x ∈ xs, m'.get x.1 = m.mem (place f x.2)) ∧
      (∀ r ∉ xs.map Prod.fst, m'.get r = m.get r) ∧
      m'.mem = m.mem ∧ m'.hi = m.hi ∧ m'.lo = m.lo ∧ m'.cp0 = m.cp0 := by
  induction xs generalizing m with
  | nil => exact ⟨m, rfl, by simp, fun _ _ => rfl, rfl, rfl, rfl, rfl⟩
  | cons x xs ih =>
    obtain ⟨hx, hxs⟩ := List.forall_mem_cons.mp hoff
    simp only [List.map_cons, List.nodup_cons, List.mem_cons, not_or] at hnodup
    obtain ⟨⟨h0b, h0x, h0⟩, ⟨hbx, hb'⟩, hx', hnodup'⟩ := hnodup
    have hb₁ : (m.set x.1 (m.mem (place f x.2))).get b = f := by rw [get_set_of_ne _ _ _ hbx, hb]
    have hrest : (0#5 :: b :: xs.map Prod.fst).Nodup := by
      simp only [List.nodup_cons, List.mem_cons, not_or]
      exact ⟨⟨h0b, h0⟩, hb', hnodup'⟩
    obtain ⟨m', hm', hin, hout, hmem, hhi, hlo, hcp0⟩ := ih hb₁ hxs hrest
    refine ⟨m', ?_, ?_, ?_, by rw [hmem, mem_set], by rw [hhi, hi_set], by rw [hlo, lo_set],
      by rw [hcp0, cp0_set]⟩
    · rw [loads, List.map_cons, execAll_cons, exec, hb, H.physical hx.1 hx.2, Option.map_some,
        Option.bind_some]
      exact hm'
    · refine List.forall_mem_cons.mpr ⟨?_, fun y hy => by rw [hin y hy, mem_set]⟩
      rw [hout _ hx', get_set_self _ _ _ (Ne.symm h0x)]
    · intro r hr
      simp only [List.map_cons, List.mem_cons, not_or] at hr
      rw [hout r hr.2, get_set_of_ne _ _ _ hr.1]

end

/-! ### Instructions in memory -/

inductive Code where
  | plain (i : Instr)
  | jr (rs : Reg)
  deriving DecidableEq

/-- The instructions that occur in memory as words. -/
def decode (w : Word) : Option Code :=
  let op := w.toNat / 2 ^ 26
  let rs : Reg := BitVec.ofNat 5 (w.toNat / 2 ^ 21 % 32)
  let rt : Reg := BitVec.ofNat 5 (w.toNat / 2 ^ 16 % 32)
  let imm : BitVec 16 := w.setWidth 16
  if op = 0x0f then some (.plain (.lui rt imm))
  else if op = 0x09 then some (.plain (.addiu rt rs imm))
  else if op = 0 ∧ w.toNat % 2 ^ 6 = 0x08 then some (.jr rs)
  else none

/-- A processor with the address of the instruction to be executed and of the one after it, which
is the delay slot when the first is a jump. -/
structure Cpu where
  machine : Machine
  pc : Word
  npc : Word

def step (c : Cpu) : Option Cpu :=
  (physical c.pc).bind fun p => (decode (c.machine.mem p)).bind fun
    | .plain i => (exec c.machine i).map fun m => ⟨m, c.npc, c.npc + 4⟩
    | .jr rs => some ⟨c.machine, c.npc, c.machine.get rs⟩

def steps : ℕ → Cpu → Option Cpu
  | 0, c => some c
  | n + 1, c => (step c).bind (steps n)

section

variable {m m' : Machine} {pc npc : Word} {p : ℕ}

lemma step_plain {i : Instr} (hpc : physical pc = some p)
    (hdecode : decode (m.mem p) = some (.plain i)) (hexec : exec m i = some m') :
    step ⟨m, pc, npc⟩ = some ⟨m', npc, npc + 4⟩ := by
  simp only [step, hpc, Option.bind_some, hdecode, hexec, Option.map_some]

lemma step_jr {r : Reg} (hpc : physical pc = some p)
    (hdecode : decode (m.mem p) = some (.jr r)) :
    step ⟨m, pc, npc⟩ = some ⟨m, npc, m.get r⟩ := by
  simp only [step, hpc, Option.bind_some, hdecode]

end

end Core.Mips
