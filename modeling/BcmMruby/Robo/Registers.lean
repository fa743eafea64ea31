import BcmMruby.Core.Bytes

/-!
# Registers of the switch

A register of the switch is read and written through a handful of MII registers: page and address
go to two of them, and the contents, in words of 16 bits, through the others. `read_reg` and
`write_reg` move them to and from memory, in as many bytes as the caller wants.
-/

namespace BcmMruby.Robo

open Core

structure Switch where
  accessControl : BitVec 16
  rwControl : BitVec 16
  data : ℕ → BitVec 16
  /-- By page and address, in words, the lowest one first. -/
  regs : Byte → Byte → ℕ → BitVec 16

structure State where
  mem : ℕ → Byte
  switch : Switch

def roboswAccessControlReg : ℕ := 0x10
def roboswRwControlReg : ℕ := 0x11
def roboswDataRegBase : ℕ := 0x18

def accessControlRw : BitVec 16 := 0x0001
def rwControlWrite : BitVec 16 := 0x0001
def rwControlRead : BitVec 16 := 0x0002

def miiWrite (sw : Switch) (reg : ℕ) (value : BitVec 16) : Switch :=
  if reg = roboswAccessControlReg then { sw with accessControl := value }
  else if reg = roboswRwControlReg then { sw with rwControl := value }
  else { sw with data := Function.update sw.data (reg - roboswDataRegBase) value }

def miiRead (sw : Switch) (reg : ℕ) : BitVec 16 :=
  if reg = roboswAccessControlReg then sw.accessControl
  else if reg = roboswRwControlReg then sw.rwControl
  else sw.data (reg - roboswDataRegBase)

/-- The loop that waits for the switch to carry out a command: the command bits are then clear. -/
def await (sw : Switch) : Switch :=
  let page := (sw.accessControl >>> 8).setWidth 8
  let addr := (sw.rwControl >>> 8).setWidth 8
  let done := { sw with rwControl := sw.rwControl &&& ~~~(0x0003 : BitVec 16) }
  if sw.rwControl &&& rwControlWrite ≠ 0 then
    { done with
      regs := Function.update sw.regs page (Function.update (sw.regs page) addr sw.data) }
  else if sw.rwControl &&& rwControlRead ≠ 0 then { done with data := sw.regs page addr }
  else done

def roboswR (sw : Switch) (page addr : Byte) (len : ℕ) : BitVec 32 × Switch :=
  let sw := miiWrite sw roboswAccessControlReg (page.setWidth 16 <<< 8 ||| accessControlRw)
  let sw := miiWrite sw roboswRwControlReg (addr.setWidth 16 <<< 8 ||| rwControlRead)
  let sw := await sw
  let res := (miiRead sw roboswDataRegBase).setWidth 32
  (if len = 4 then res ||| (miiRead sw (roboswDataRegBase + 1)).setWidth 32 <<< 16 else res, sw)

/-- A `uint16_t` in memory. -/
def loadHalf (m : ℕ → Byte) (off : ℕ) : BitVec 16 :=
  (m (off + 1)).setWidth 16 <<< 8 ||| (m off).setWidth 16

/-- The words of the value that the `switch` writes. -/
def writeData (sw : Switch) (m : ℕ → Byte) (val len : ℕ) : Switch :=
  match len with
  | 1 => miiWrite sw roboswDataRegBase ((m val).setWidth 16)
  | 2 => miiWrite sw roboswDataRegBase (loadHalf m val)
  | 4 =>
    let sw := miiWrite sw roboswDataRegBase ((loadWord m val).setWidth 16)
    miiWrite sw (roboswDataRegBase + 1) ((loadWord m val >>> 16).setWidth 16)
  | 6 =>
    let sw := miiWrite sw (roboswDataRegBase + 2) (loadHalf m (val + 4))
    let sw := miiWrite sw (roboswDataRegBase + 1) (loadHalf m (val + 2))
    miiWrite sw (roboswDataRegBase + 0) (loadHalf m val)
  | 8 =>
    let sw := miiWrite sw (roboswDataRegBase + 3) (loadHalf m (val + 6))
    let sw := miiWrite sw (roboswDataRegBase + 2) (loadHalf m (val + 4))
    let sw := miiWrite sw (roboswDataRegBase + 1) (loadHalf m (val + 2))
    miiWrite sw (roboswDataRegBase + 0) (loadHalf m val)
  | _ => sw

def roboswW (sw : Switch) (m : ℕ → Byte) (page addr : Byte) (val len : ℕ) : Switch :=
  let sw := miiWrite sw roboswAccessControlReg (page.setWidth 16 <<< 8 ||| accessControlRw)
  let sw := writeData sw m val len
  await (miiWrite sw roboswRwControlReg (addr.setWidth 16 <<< 8 ||| rwControlWrite))

/-- `*(uint16_t *)val = robosw_r(...)`. -/
def miiRreg (s : State) (page addr : Byte) (val len : ℕ) : State :=
  let (res, switch) := roboswR s.switch page addr len
  ⟨store s.mem val [byte res 0, byte res 1], switch⟩

def miiWreg (s : State) (page reg : Byte) (val len : ℕ) : State :=
  { s with switch := roboswW s.switch s.mem page reg val len }

/-- A byte of a register. -/
def regByte (words : ℕ → BitVec 16) (i : ℕ) : Byte := (words (i / 2) >>> (8 * (i % 2))).setWidth 8

/-- `read_reg` stores the low bytes of the register, as many as it is asked for, and changes no
other byte of memory. -/
def ReadExact (s : State) (page addr : Byte) (val len : ℕ) : Prop :=
  ∀ i, (miiRreg s page addr val len).mem i =
    if val ≤ i ∧ i < val + len then regByte (s.switch.regs page addr) (i - val) else s.mem i

/-- What `write_reg` takes from `val`, `read_reg` puts to `dst`. -/
def WriteRead (s : State) (page addr : Byte) (val dst len : ℕ) : Prop :=
  ∀ k < len, (miiRreg (miiWreg s page addr val len) page addr dst len).mem (dst + k) =
    s.mem (val + k)

/-! ### Commands -/

lemma getLsbD_of_lt_256 {low : BitVec 16} (h : low.toNat < 2 ^ 8) {i : ℕ} (hi : 8 ≤ i) :
    low.getLsbD i = false :=
  Nat.testBit_lt_two_pow (h.trans_le (Nat.pow_le_pow_right (by decide) hi))

/-- The upper half of a command is a page or an address. -/
lemma high_byte (b : Byte) {low : BitVec 16} (hlow : low.toNat < 2 ^ 8) :
    ((b.setWidth 16 <<< 8 ||| low) >>> 8).setWidth 8 = b := by
  apply BitVec.eq_of_getLsbD_eq
  intro i hi
  have hzero := getLsbD_of_lt_256 hlow (Nat.le_add_right 8 i)
  have h16 : 8 + i < 16 := by omega
  simp only [BitVec.getLsbD_setWidth, BitVec.getLsbD_ushiftRight, BitVec.getLsbD_or,
    BitVec.getLsbD_shiftLeft, hzero, hi, h16]
  simp only [decide_true, Bool.true_and, Nat.not_lt.mpr (Nat.le_add_right 8 i), decide_false,
    Bool.not_false, Nat.add_sub_cancel_left, Bool.or_false, show i < 16 by omega]

lemma and_low (b : Byte) (low : BitVec 16) {mask : BitVec 16} (hmask : mask.toNat < 2 ^ 8) :
    (b.setWidth 16 <<< 8 ||| low) &&& mask = low &&& mask := by
  apply BitVec.eq_of_getLsbD_eq
  intro i hi
  by_cases h8 : i < 8
  · simp [h8]
  · have hzero := getLsbD_of_lt_256 hmask (Nat.not_lt.mp h8)
    simp only [BitVec.getLsbD_and, hzero, Bool.and_false]

/-- A read command brings the words of the register to the data registers. -/
lemma data_await {sw : Switch} {page addr : Byte}
    (hpage : sw.accessControl = page.setWidth 16 <<< 8 ||| accessControlRw)
    (haddr : sw.rwControl = addr.setWidth 16 <<< 8 ||| rwControlRead) :
    (await sw).data = sw.regs page addr := by
  have hwrite : ¬ sw.rwControl &&& rwControlWrite ≠ 0 := by
    rw [haddr, and_low addr _ (by decide)]
    decide
  have hread : sw.rwControl &&& rwControlRead ≠ 0 := by
    rw [haddr, and_low addr _ (by decide)]
    decide
  rw [await, if_neg hwrite, if_pos hread, hpage, haddr]
  simp only [high_byte page (by decide : accessControlRw.toNat < 2 ^ 8),
    high_byte addr (by decide : rwControlRead.toNat < 2 ^ 8)]

/-- A write command takes them from there. -/
lemma regs_await {sw : Switch} {page addr : Byte}
    (hpage : sw.accessControl = page.setWidth 16 <<< 8 ||| accessControlRw)
    (haddr : sw.rwControl = addr.setWidth 16 <<< 8 ||| rwControlWrite) :
    (await sw).regs page addr = sw.data := by
  have hwrite : sw.rwControl &&& rwControlWrite ≠ 0 := by
    rw [haddr, and_low addr _ (by decide)]
    decide
  rw [await, if_pos hwrite, hpage, haddr]
  simp only [high_byte page (by decide : accessControlRw.toNat < 2 ^ 8),
    high_byte addr (by decide : rwControlWrite.toNat < 2 ^ 8), Function.update_self]

lemma roboswR_eq (sw : Switch) (page addr : Byte) (len : ℕ) :
    (roboswR sw page addr len).1 =
      if len = 4 then
        (sw.regs page addr 0).setWidth 32 ||| (sw.regs page addr 1).setWidth 32 <<< 16
      else (sw.regs page addr 0).setWidth 32 := by
  have hdata : (await (miiWrite (miiWrite sw roboswAccessControlReg
      (page.setWidth 16 <<< 8 ||| accessControlRw)) roboswRwControlReg
      (addr.setWidth 16 <<< 8 ||| rwControlRead))).data = sw.regs page addr :=
    data_await rfl rfl
  simp only [roboswR, miiRead, hdata]
  rfl

/-- The half word that `read_reg` stores. -/
lemma byte_roboswR (sw : Switch) (page addr : Byte) (len : ℕ) {i : ℕ} (hi : i < 2) :
    byte (roboswR sw page addr len).1 i = regByte (sw.regs page addr) i := by
  have hword : i / 2 = 0 := by omega
  have hbit : i % 2 = i := by omega
  rw [roboswR_eq, regByte, hword, hbit]
  apply BitVec.eq_of_getLsbD_eq
  intro j hj
  have h16 : 8 * i + j < 16 := by omega
  split_ifs <;> simp [byte, hj, h16, show 8 * i + j < 32 by omega]

/-! ### Reading -/

lemma mem_miiRreg (s : State) (page addr : Byte) (val len k : ℕ) :
    (miiRreg s page addr val len).mem (val + k) =
      if k < 2 then regByte (s.switch.regs page addr) k else s.mem (val + k) := by
  have h0 := byte_roboswR s.switch page addr len (i := 0) (by decide)
  have h1 := byte_roboswR s.switch page addr len (i := 1) (by decide)
  simp only [miiRreg, store, Nat.le_add_right, if_true, Nat.add_sub_cancel_left, h0, h1]
  rcases k with _ | _ | k <;> rfl

lemma mem_miiRreg_of_lt (s : State) (page addr : Byte) {val i : ℕ} (len : ℕ) (hi : i < val) :
    (miiRreg s page addr val len).mem i = s.mem i :=
  store_of_disjoint _ (.inl hi)

/-- Two bytes are stored whatever the width. -/
lemma readExact_iff (s : State) (page addr : Byte) (val len : ℕ) :
    ReadExact s page addr val len ↔ ∀ k, (k < 2 ↔ len ≤ k) →
      s.mem (val + k) = regByte (s.switch.regs page addr) k := by
  constructor
  · intro h k hk
    have hmem := h (val + k)
    rw [mem_miiRreg, Nat.add_sub_cancel_left] at hmem
    by_cases h2 : k < 2
    · have hlen := hk.mp h2
      rw [if_pos h2, if_neg (by omega)] at hmem
      exact hmem.symm
    · have hlen : k < len := by
        by_contra hge
        exact h2 (hk.mpr (Nat.not_lt.mp hge))
      rw [if_neg h2, if_pos (by omega)] at hmem
      exact hmem
  · intro h i
    by_cases hi : val ≤ i
    · obtain ⟨k, rfl⟩ := Nat.exists_eq_add_of_le hi
      rw [mem_miiRreg, Nat.add_sub_cancel_left]
      by_cases h2 : k < 2 <;> by_cases hlen : k < len
      · rw [if_pos h2, if_pos (by omega)]
      · rw [if_pos h2, if_neg (by omega)]
        exact (h k (iff_of_true h2 (Nat.not_lt.mp hlen))).symm
      · rw [if_neg h2, if_pos (by omega)]
        exact h k (iff_of_false h2 (Nat.not_le.mpr hlen))
      · rw [if_neg h2, if_neg (by omega)]
    · rw [mem_miiRreg_of_lt s page addr len (by omega), if_neg (by omega)]

/-! ### Writing and reading -/

/-- The widths that `robosw_w` knows. -/
def widths : List ℕ := [1, 2, 4, 6, 8]

lemma setWidth_loadWord (m : ℕ → Byte) (off : ℕ) :
    (loadWord m off).setWidth 16 = loadHalf m off := by
  apply BitVec.eq_of_getLsbD_eq
  intro i hi
  simp [loadWord, word, loadHalf, hi]

lemma data_writeData {sw : Switch} {m : ℕ → Byte} {val len : ℕ} (hlen : len ∈ widths) :
    (writeData sw m val len).data 0 =
      if len = 1 then (m val).setWidth 16 else loadHalf m val := by
  simp only [widths, List.mem_cons, List.not_mem_nil, or_false] at hlen
  obtain rfl | rfl | rfl | rfl | rfl := hlen <;>
    simp [writeData, miiWrite, roboswDataRegBase, roboswAccessControlReg, roboswRwControlReg,
      setWidth_loadWord]

lemma regByte_writeData {sw : Switch} {m : ℕ → Byte} {val len i : ℕ} (hlen : len ∈ widths)
    (hi : i < 2) (hilen : i < len) :
    regByte (writeData sw m val len).data i = m (val + i) := by
  have hword : i / 2 = 0 := by omega
  have hbit : i % 2 = i := by omega
  rw [regByte, hword, hbit, data_writeData hlen]
  apply BitVec.eq_of_getLsbD_eq
  intro j hj
  match i, hi with
  | 0, _ => split_ifs <;> simp [loadHalf, hj]
  | 1, _ =>
    have hne : len ≠ 1 := by omega
    have h8 : 8 + j < 16 := by omega
    simp [hne, loadHalf, hj, h8]

lemma accessControl_writeData (sw : Switch) (m : ℕ → Byte) (val len : ℕ) :
    (writeData sw m val len).accessControl = sw.accessControl := by
  unfold writeData
  split <;> rfl

/-- A register that has been written keeps the words of the value. -/
lemma regs_miiWreg (s : State) (page addr : Byte) (val len : ℕ) :
    ∃ sw : Switch, (miiWreg s page addr val len).switch.regs page addr =
      (writeData sw s.mem val len).data := by
  refine ⟨miiWrite s.switch roboswAccessControlReg
    (page.setWidth 16 <<< 8 ||| accessControlRw), ?_⟩
  exact regs_await (accessControl_writeData _ s.mem val len) rfl

lemma writeRead_iff (s : State) (page addr : Byte) (val dst : ℕ) {len : ℕ} (hlen : len ∈ widths) :
    WriteRead s page addr val dst len ↔
      ∀ k, 2 ≤ k → k < len → s.mem (dst + k) = s.mem (val + k) := by
  obtain ⟨sw, hregs⟩ := regs_miiWreg s page addr val len
  have hmem : ∀ k < len, (miiRreg (miiWreg s page addr val len) page addr dst len).mem (dst + k) =
      if k < 2 then s.mem (val + k) else s.mem (dst + k) := by
    intro k hk
    rw [mem_miiRreg, hregs]
    split_ifs with h2
    · exact regByte_writeData hlen h2 hk
    · rfl
  constructor
  · intro h k h2 hk
    have hread := h k hk
    rw [hmem k hk, if_neg (Nat.not_lt.mpr h2)] at hread
    exact hread
  · intro h k hk
    rw [hmem k hk]
    split_ifs with h2
    · rfl
    · exact h k (Nat.not_lt.mp h2) hk

/-! ### Main result -/

/-- `read_reg` stores exactly the bytes it is asked for only if the ones it stores besides, or
leaves out, are in memory already: it always stores two. What is written comes back if the bytes
behind the first two are there already. -/
theorem readReg_exact_iff (s : State) (page addr : Byte) (val dst : ℕ) {len : ℕ}
    (hlen : len ∈ widths) :
    (ReadExact s page addr val len ↔ ∀ k, (k < 2 ↔ len ≤ k) →
      s.mem (val + k) = regByte (s.switch.regs page addr) k) ∧
    (WriteRead s page addr val dst len ↔
      ∀ k, 2 ≤ k → k < len → s.mem (dst + k) = s.mem (val + k)) :=
  ⟨readExact_iff s page addr val len, writeRead_iff s page addr val dst hlen⟩

/-- Memory that holds 1, 2, 3 and so on, and a switch whose registers are all 0. -/
def counted : State := ⟨fun i => BitVec.ofNat 8 (i + 1), ⟨0, 0, fun _ => 0, fun _ _ _ => 0⟩⟩

/-- With two bytes both directions agree. -/
theorem readReg_exact_two :
    ReadExact counted 0x34 0x10 0 2 ∧ WriteRead counted 0x34 0x10 0 8 2 := by
  obtain ⟨hread, hwrite⟩ := readReg_exact_iff counted 0x34 0x10 0 8 (show 2 ∈ widths by decide)
  exact ⟨hread.mpr (by omega), hwrite.mpr (by omega)⟩

/-- Reading one byte clears the byte behind it, and reading four leaves the upper two as they were,
also right after they have been written from elsewhere. -/
theorem readReg_inexact :
    ¬ ReadExact counted 0 0 0 1 ∧ ¬ ReadExact counted 0 0 0 4 ∧ ¬ WriteRead counted 0 0 0 8 4 := by
  refine ⟨fun h => ?_, fun h => ?_, fun h => ?_⟩
  · exact absurd (h 1) (by decide)
  · exact absurd (h 2) (by decide)
  · exact absurd (h 2 (by decide)) (by decide)

end BcmMruby.Robo
