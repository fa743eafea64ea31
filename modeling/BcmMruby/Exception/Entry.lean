import BcmMruby.Exception.Vectors

/-!
# The exception entry

`_exc_entry` of `exception.S`: the registers go into a frame on the stack, the handler for the code
in `k0` is looked up in `_exc_vectab` and called, and the registers come back. The handler is
compiled code; all that `exception_transparent` asks of it is what the calling convention promises,
and this leaves the first words of the frame to the handler.
-/

namespace BcmMruby.Exception

open Core.Mips

/-! ### The code -/

abbrev AT : Reg := 1#5
abbrev v0 : Reg := 2#5
abbrev a0 : Reg := 4#5
abbrev a1 : Reg := 5#5
abbrev t1 : Reg := 9#5
abbrev t2 : Reg := 10#5
abbrev t3 : Reg := 11#5
abbrev t4 : Reg := 12#5
abbrev t5 : Reg := 13#5
abbrev t6 : Reg := 14#5
abbrev t9 : Reg := 25#5
abbrev gp : Reg := 28#5
abbrev sp : Reg := 29#5

abbrev c0Badvaddr : Reg := 8#5
abbrev c0Sr : Reg := 12#5
abbrev c0Cause : Reg := 13#5
abbrev c0Epc : Reg := 14#5
abbrev c0Prid : Reg := 15#5

/-- `EXCEPTION_SIZE`. -/
abbrev exceptionSize : ℕ := 4 * 74

/-- `_XCP0IDX`. -/
abbrev xcp0 (x : ℕ) : ℕ := 4 * x

/-- `_XGRIDX`; the general registers come first, then `lo` and `hi`. -/
abbrev xgr (x : ℕ) : ℕ := 4 * (x + 8)

/-- Registers with their places in the frame. -/
def slots (rs : List Reg) : List (Reg × ℕ) := rs.map fun r => (r, xgr r.toNat)

def la (r : Reg) (addr : Word) : List Instr :=
  [.lui r ((upper addr).setWidth 16), .addiu r r ((addr &&& 0xffff).setWidth 16)]

def move (rd rs : Reg) : Instr := .addu rd rs zero

/-- All general registers but `k0` and `k1`. -/
def saved : List Reg :=
  [0, 1, 2, 3, 4, 5, 6, 7, 8, 9, 10, 11, 12, 13, 14, 15, 16, 17, 18, 19, 20, 21, 22, 23, 24, 25,
    28, 29, 30, 31]

def frameSetup : List Instr :=
  [.addiu k1 sp (BitVec.ofInt 16 (-exceptionSize)), .srl k1 k1 3, .sll k1 k1 3]

def specialLoads : List Instr :=
  [.mfc0 t0 c0Cause, .mfc0 t1 c0Sr, .mfc0 t2 c0Badvaddr, .mfc0 t3 c0Epc, .mfc0 t4 c0Prid,
    .mflo t5, .mfhi t6]

/-- `XCP0_SR` and so on. -/
def specialSlots : List (Reg × ℕ) :=
  [(t0, xcp0 1), (t1, xcp0 0), (t2, xcp0 3), (t3, xcp0 2), (t4, xcp0 4), (t5, xgr 32),
    (t6, xgr 33)]

def lookup (vectab : Word) : List Instr :=
  la gp (physToK0 cfeLocoreGlobalGp) ++ [.lw gp 0 gp, move a0 k0, move a1 k1] ++ la t0 vectab ++
    [.srl k0 k0 3, .sll k0 k0 2, .addu t0 t0 k0, .lw t9 0 t0, move sp k1]

/-- `_exc_entry` as far as the call of the handler in `t9`. -/
def entry (vectab : Word) : List Instr :=
  frameSetup ++ (saves k1 (slots saved) ++ (specialLoads ++ (saves k1 specialSlots ++
    lookup vectab)))

/-- The registers that are loaded last. -/
def restored : List Reg :=
  [4, 5, 6, 7, 8, 9, 10, 11, 12, 13, 14, 15, 16, 17, 18, 19, 20, 21, 22, 23, 24, 25, 28, 29, 30, 31,
    2, 3]

/-- From the return of the handler to `ERET`. -/
def leave : List Instr :=
  [move k1 sp] ++ (loads k1 [(AT, xgr 1), (t0, xgr 32), (t1, xgr 33)] ++
    ([.mtlo t0, .mthi t1] ++ loads k1 (slots restored)))

/-- Where the frame is. -/
def frame (m : Machine) : Word :=
  ((m.get sp + (BitVec.ofInt 16 (-exceptionSize)).signExtend 32) >>> 3) <<< 3

/-- `_exc_setvector` writes here, and `_exc_entry` reads. -/
def vectorAt (vectab code : Word) : Word := vectab + (code >>> 3) <<< 2

/-! ### Entering -/

variable {m : Machine} {vectab : Word}

lemma t0_ne_zero : t0 ≠ 0#5 := by decide

lemma k0_ne_zero : k0 ≠ 0#5 := by decide

lemma k1_ne_zero : k1 ≠ 0#5 := by decide

lemma gp_ne_zero : gp ≠ 0#5 := by decide

lemma execAll_frameSetup (m : Machine) :
    execAll m frameSetup = some (m.set k1 (frame m)) := by
  simp only [frameSetup, execAll_cons, execAll_nil, exec, Option.bind_some,
    get_set_self _ _ _ k1_ne_zero, set_set, frame]

lemma execAll_la (m : Machine) {r : Reg} (hr : r ≠ 0#5) (addr : Word) :
    execAll m (la r addr) = some (m.set r addr) := by
  simp only [la, execAll_cons, execAll_nil, exec, Option.bind_some, get_set_self _ _ _ hr, set_set,
    lui_addiu]

lemma exec_move (m : Machine) (rd rs : Reg) : exec m (move rd rs) = some (m.set rd (m.get rs)) := by
  have hzero : m.get rs + 0 = m.get rs := BitVec.add_zero _
  simp only [move, exec, get_zero, hzero]

lemma execAll_specialLoads (m : Machine) :
    ∃ m', execAll m specialLoads = some m' ∧ m'.get t0 = m.cp0 c0Cause ∧ m'.get t1 = m.cp0 c0Sr ∧
      m'.get t2 = m.cp0 c0Badvaddr ∧ m'.get t3 = m.cp0 c0Epc ∧ m'.get t4 = m.cp0 c0Prid ∧
      m'.get t5 = m.lo ∧ m'.get t6 = m.hi ∧ m'.get k0 = m.get k0 ∧ m'.get k1 = m.get k1 ∧
      m'.mem = m.mem ∧ m'.cp0 = m.cp0 := by
  refine ⟨_, rfl, ?_⟩
  simp [get_set, t0, t1, t2, t3, t4, t5, t6, k0, k1]

lemma exec_srl (m : Machine) (rd rt : Reg) (sa : ℕ) :
    exec m (.srl rd rt sa) = some (m.set rd (m.get rt >>> sa)) := rfl

lemma exec_sll (m : Machine) (rd rt : Reg) (sa : ℕ) :
    exec m (.sll rd rt sa) = some (m.set rd (m.get rt <<< sa)) := rfl

lemma exec_addu (m : Machine) (rd rs rt : Reg) :
    exec m (.addu rd rs rt) = some (m.set rd (m.get rs + m.get rt)) := rfl

/-- `gp` and the handler come from memory, the arguments and the stack are the handler's. -/
lemma execAll_lookup {q : ℕ} (hq : physical (vectorAt vectab (m.get k0)) = some q) :
    ∃ m', execAll m (lookup vectab) = some m' ∧ m'.get gp = m.mem 0x40 ∧ m'.get t9 = m.mem q ∧
      m'.get a0 = m.get k0 ∧ m'.get a1 = m.get k1 ∧ m'.get sp = m.get k1 ∧ m'.mem = m.mem ∧
      m'.cp0 = m.cp0 := by
  have hgp : physical (physToK0 cfeLocoreGlobalGp) = some 0x40 := by decide
  have hoff : ∀ a : Word, a + (0 : BitVec 16).signExtend 32 = a := fun a => BitVec.add_zero a
  have hlw : ∀ m : Machine, ∀ rt b : Reg, exec m (.lw rt 0 b) =
      (physical (m.get b)).map fun p => m.set rt (m.mem p) := fun m rt b => by
    rw [exec, hoff]
  -- up to `la t0, _exc_vectab`
  obtain ⟨m₁, hm₁, hgp₁, ha0₁, ha1₁, ht0₁, hk0₁, hk1₁, hmem₁, hcp0₁⟩ : ∃ m₁,
      execAll m (la gp (physToK0 cfeLocoreGlobalGp) ++ [.lw gp 0 gp, move a0 k0, move a1 k1] ++
        la t0 vectab) = some m₁ ∧ m₁.get gp = m.mem 0x40 ∧ m₁.get a0 = m.get k0 ∧
        m₁.get a1 = m.get k1 ∧ m₁.get t0 = vectab ∧ m₁.get k0 = m.get k0 ∧
        m₁.get k1 = m.get k1 ∧ m₁.mem = m.mem ∧ m₁.cp0 = m.cp0 := by
    refine ⟨(((m.set gp (m.mem 0x40)).set a0 (m.get k0)).set a1 (m.get k1)).set t0 vectab, ?_, ?_⟩
    · simp only [execAll_append, execAll_la _ gp_ne_zero, execAll_la _ t0_ne_zero,
        Option.bind_some, execAll_cons, execAll_nil, exec_move, hlw,
        get_set_self _ _ _ gp_ne_zero, hgp, Option.map_some, mem_set, set_set]
      simp [get_set, gp, a0, a1, k0, k1]
    · simp [get_set, gp, a0, a1, t0, k0, k1]
  refine ⟨(((m₁.set k0 ((m.get k0 >>> 3) <<< 2)).set t0 (vectorAt vectab (m.get k0))).set t9
    (m.mem q)).set sp (m.get k1), ?_, ?_⟩
  · have ht0 : (m₁.set k0 ((m.get k0 >>> 3) <<< 2)).get t0 + (m.get k0 >>> 3) <<< 2 =
        vectorAt vectab (m.get k0) := by
      simp [get_set, t0, k0, ht0₁, vectorAt]
    have hk1 : (((m₁.set k0 ((m.get k0 >>> 3) <<< 2)).set t0 (vectorAt vectab (m.get k0))).set t9
        (m.mem q)).get k1 = m.get k1 := by
      simp [get_set, t0, k0, k1, t9, hk1₁]
    rw [lookup, execAll_append, hm₁, Option.bind_some]
    simp only [execAll_cons, execAll_nil, Option.bind_some, hlw, exec_srl, exec_sll, exec_addu,
      get_set_self _ _ _ k0_ne_zero, get_set_self _ _ _ t0_ne_zero, set_set, hk0₁, ht0, hq,
      Option.map_some, mem_set, hmem₁, exec_move, hk1]
  · simp [get_set, gp, t9, a0, a1, sp, t0, k0, hgp₁, ha0₁, ha1₁, hmem₁, hcp0₁]

/-- What the handler finds, with its own address in `t9` and the frame as its second argument. -/
structure Entered (m m₁ : Machine) (q : ℕ) : Prop where
  handler : m₁.get t9 = m.mem q
  globals : m₁.get gp = m.mem 0x40
  code : m₁.get a0 = m.get k0
  frame_arg : m₁.get a1 = frame m
  stack : m₁.get sp = frame m
  general : ∀ r ∈ saved, m₁.mem (place (frame m) (xgr r.toNat)) = m.get r
  lo : m₁.mem (place (frame m) (xgr 32)) = m.lo
  hi : m₁.mem (place (frame m) (xgr 33)) = m.hi
  special : m₁.mem (place (frame m) (xcp0 0)) = m.cp0 c0Sr ∧
    m₁.mem (place (frame m) (xcp0 1)) = m.cp0 c0Cause ∧
    m₁.mem (place (frame m) (xcp0 2)) = m.cp0 c0Epc ∧
    m₁.mem (place (frame m) (xcp0 3)) = m.cp0 c0Badvaddr ∧
    m₁.mem (place (frame m) (xcp0 4)) = m.cp0 c0Prid
  outside : ∀ p, (∀ i < 74, p ≠ place (frame m) (4 * i)) → m₁.mem p = m.mem p
  cp0 : m₁.cp0 = m.cp0

lemma slots_off : ∀ x ∈ slots saved, x.2 % 4 = 0 ∧ x.2 + 4 ≤ exceptionSize := by decide

lemma slots_nodup : ((slots saved).map Prod.snd).Nodup := by decide

lemma specialSlots_off : ∀ x ∈ specialSlots, x.2 % 4 = 0 ∧ x.2 + 4 ≤ exceptionSize := by decide

lemma specialSlots_nodup : (specialSlots.map Prod.snd).Nodup := by decide

/-- The general registers do not go where the others go. -/
lemma slots_disjoint : ∀ x ∈ slots saved, ∀ y ∈ specialSlots, x.2 ≠ y.2 := by decide

lemma exists_four_mul {n : ℕ} (h : n % 4 = 0 ∧ n + 4 ≤ exceptionSize) : ∃ i < 74, n = 4 * i := by
  simp only [exceptionSize] at h
  exact ⟨n / 4, by omega, by omega⟩

lemma execAll_entry (H : Block (frame m) exceptionSize) {q : ℕ}
    (hq : physical (vectorAt vectab (m.get k0)) = some q)
    (hqf : ∀ i < 74, q ≠ place (frame m) (4 * i))
    (hgp : ∀ i < 74, 0x40 ≠ place (frame m) (4 * i)) :
    ∃ m₁, execAll m (entry vectab) = some m₁ ∧ Entered m m₁ q := by
  set f := frame m
  have hk1 : (m.set k1 f).get k1 = f := get_set_self _ _ _ k1_ne_zero
  obtain ⟨m₂, hm₂, hin₂, hout₂, hget₂, hhi₂, hlo₂, hcp0₂⟩ :=
    execAll_saves H hk1 slots_off slots_nodup
  rw [mem_set] at hout₂
  rw [hi_set] at hhi₂
  rw [lo_set] at hlo₂
  rw [cp0_set] at hcp0₂
  obtain ⟨m₃, hm₃, ht0, ht1, ht2, ht3, ht4, ht5, ht6, hk0₃, hk1₃, hmem₃, hcp0₃⟩ :=
    execAll_specialLoads m₂
  rw [hget₂, hk1] at hk1₃
  obtain ⟨m₄, hm₄, hin₄, hout₄, hget₄, -, -, hcp0₄⟩ :=
    execAll_saves H hk1₃ specialSlots_off specialSlots_nodup
  have hk0 : m₄.get k0 = m.get k0 := by
    rw [hget₄, hk0₃, hget₂, get_set_of_ne _ _ _ (show k0 ≠ k1 by decide)]
  have hk1₄ : m₄.get k1 = f := by rw [hget₄, hk1₃]
  have hq₄ : physical (vectorAt vectab (m₄.get k0)) = some q := by rw [hk0, hq]
  obtain ⟨m₁, hm₁, hgp₁, ht9₁, ha0₁, ha1₁, hsp₁, hmem, hcp0⟩ := execAll_lookup hq₄
  have houtside : ∀ p, (∀ i < 74, p ≠ place f (4 * i)) → m₄.mem p = m.mem p := by
    intro p hp
    rw [hout₄, hmem₃, hout₂]
    · intro x hx
      obtain ⟨i, hi, h⟩ := exists_four_mul (slots_off x hx)
      exact h ▸ hp i hi
    · intro x hx
      obtain ⟨i, hi, h⟩ := exists_four_mul (specialSlots_off x hx)
      exact h ▸ hp i hi
  refine ⟨m₁, ?_, ?_⟩
  · rw [entry, execAll_append, execAll_frameSetup, Option.bind_some, execAll_append, hm₂,
      Option.bind_some, execAll_append, hm₃, Option.bind_some, execAll_append, hm₄,
      Option.bind_some, hm₁]
  · refine ⟨by rw [ht9₁, houtside q hqf], by rw [hgp₁, houtside 0x40 hgp], by rw [ha0₁, hk0],
      by rw [ha1₁, hk1₄], by rw [hsp₁, hk1₄], ?_, ?_, ?_, ?_, ?_, by rw [hcp0, hcp0₄, hcp0₃, hcp0₂]⟩
    · intro r hr
      have hx : (r, xgr r.toNat) ∈ slots saved := List.mem_map_of_mem hr
      have hr1 : r ≠ k1 := by
        rintro rfl
        exact absurd hr (by decide)
      rw [hmem, hout₄ _ fun y hy => place_inj.not.mpr (slots_disjoint _ hx y hy), hmem₃,
        hin₂ _ hx, get_set_of_ne _ _ _ hr1]
    · rw [hmem, hin₄ (t5, xgr 32) (by decide), ht5, hlo₂]
    · rw [hmem, hin₄ (t6, xgr 33) (by decide), ht6, hhi₂]
    · rw [hmem, hin₄ (t1, xcp0 0) (by decide), hin₄ (t0, xcp0 1) (by decide),
        hin₄ (t3, xcp0 2) (by decide), hin₄ (t2, xcp0 3) (by decide),
        hin₄ (t4, xcp0 4) (by decide), ht0, ht1, ht2, ht3, ht4, hcp0₂]
      exact ⟨rfl, rfl, rfl, rfl, rfl⟩
    · intro p hp
      rw [hmem, houtside p hp]

/-! ### Leaving -/

lemma restored_off :
    ∀ x ∈ slots restored, x.2 % 4 = 0 ∧ x.2 + 4 ≤ exceptionSize := by decide

lemma restored_nodup : (0 :: k1 :: (slots restored).map Prod.fst).Nodup := by decide

/-- Register 0 and `AT` aside, what was saved is loaded at the end. -/
lemma mem_restored : ∀ r : Reg, r ≠ 0#5 → r ≠ AT → r ≠ k0 → r ≠ k1 → r ∈ restored := by decide

lemma restored_subset : ∀ r ∈ restored, r ∈ saved := by decide

lemma execAll_leave {m m₁ m₂ : Machine} {q : ℕ} (H : Block (frame m) exceptionSize)
    (hm₁ : Entered m m₁ q) (hsp : m₂.get sp = frame m)
    (hkept : ∀ i, 8 ≤ i → i < 74 → m₂.mem (place (frame m) (4 * i)) =
      m₁.mem (place (frame m) (4 * i))) :
    ∃ m₃, execAll m₂ leave = some m₃ ∧ (∀ r, r ≠ k0 → r ≠ k1 → m₃.get r = m.get r) ∧
      m₃.hi = m.hi ∧ m₃.lo = m.lo ∧ m₃.mem = m₂.mem ∧ m₃.cp0 = m₂.cp0 := by
  set f := frame m
  have hxgr : ∀ i, i < 66 → m₂.mem (place f (xgr i)) = m₁.mem (place f (xgr i)) :=
    fun i hi => hkept (i + 8) (by omega) (by omega)
  have hk1 : (m₂.set k1 f).get k1 = f := get_set_self _ _ _ k1_ne_zero
  obtain ⟨m₄, hm₄, hin₄, hout₄, hmem₄, -, -, hcp0₄⟩ := execAll_loads H hk1
    (show ∀ x ∈ [(AT, xgr 1), (t0, xgr 32), (t1, xgr 33)], x.2 % 4 = 0 ∧ x.2 + 4 ≤ exceptionSize
      by decide) (by decide)
  rw [mem_set] at hin₄ hmem₄
  rw [cp0_set] at hcp0₄
  obtain ⟨hAT, ht0, ht1⟩ : m₄.get AT = m₂.mem (place f (xgr 1)) ∧
      m₄.get t0 = m₂.mem (place f (xgr 32)) ∧ m₄.get t1 = m₂.mem (place f (xgr 33)) := by
    simpa using hin₄
  have hk1₄ : m₄.get k1 = f := by rw [hout₄ k1 (by decide), hk1]
  obtain ⟨m₅, hm₅, hget₅, hhi₅, hlo₅, hmem₅, hcp0₅⟩ : ∃ m₅,
      execAll m₄ [.mtlo t0, .mthi t1] = some m₅ ∧ (∀ r, m₅.get r = m₄.get r) ∧
        m₅.hi = m₄.get t1 ∧ m₅.lo = m₄.get t0 ∧ m₅.mem = m₄.mem ∧ m₅.cp0 = m₄.cp0 :=
    ⟨_, rfl, fun _ => rfl, rfl, rfl, rfl, rfl⟩
  obtain ⟨m₃, hm₃, hin₃, hout₃, hmem₃, hhi₃, hlo₃, hcp0₃⟩ :=
    execAll_loads H ((hget₅ k1).trans hk1₄) restored_off restored_nodup
  refine ⟨m₃, ?_, ?_, ?_, ?_, by rw [hmem₃, hmem₅, hmem₄], by rw [hcp0₃, hcp0₅, hcp0₄]⟩
  · rw [leave, execAll_append, execAll_cons, exec_move, hsp, Option.bind_some, execAll_nil,
      Option.bind_some, execAll_append, hm₄, Option.bind_some, execAll_append, hm₅,
      Option.bind_some, hm₃]
  · intro r hr0 hr1
    by_cases hr : r ∈ restored
    · have hx : (r, xgr r.toNat) ∈ slots restored := List.mem_map_of_mem hr
      have hlt := r.isLt
      rw [hin₃ _ hx, hmem₅, hmem₄, hxgr r.toNat (by omega),
        hm₁.general r (restored_subset r hr)]
    · rw [hout₃ r (by simpa [slots] using hr), hget₅]
      rcases eq_or_ne r 0#5 with rfl | hzero
      · simp
      · obtain rfl : r = AT := by
          by_contra hat
          exact hr (mem_restored r hzero hat hr0 hr1)
        have hgeneral := hm₁.general AT (by decide)
        rw [show xgr AT.toNat = xgr 1 from rfl] at hgeneral
        rw [hAT, hxgr 1 (by decide), hgeneral]
  · rw [hhi₃, hhi₅, ht1, hxgr 33 (by decide), hm₁.hi]
  · rw [hlo₃, hlo₅, ht0, hxgr 32 (by decide), hm₁.lo]

/-- An exception is invisible to the code it interrupts, but for `k0`, `k1` and what the handler
writes to memory outside of the frame: if the handler gives back the stack pointer and leaves the
frame alone from the general registers on, these registers come back, with `lo` and `hi`. The frame
is in `kseg0`, and neither the entry of `_exc_vectab` nor the stored `gp` is in it. -/
theorem exception_transparent (vectab : Word) (m : Machine) (q : ℕ)
    (H : Block (frame m) exceptionSize)
    (hq : physical (vectorAt vectab (m.get k0)) = some q)
    (hqf : ∀ i < 74, q ≠ place (frame m) (4 * i))
    (hgp : ∀ i < 74, 0x40 ≠ place (frame m) (4 * i)) :
    ∃ m₁, execAll m (entry vectab) = some m₁ ∧ Entered m m₁ q ∧
      ∀ m₂ : Machine, m₂.get sp = frame m →
        (∀ i, 8 ≤ i → i < 74 →
          m₂.mem (place (frame m) (4 * i)) = m₁.mem (place (frame m) (4 * i))) →
        ∃ m₃, execAll m₂ leave = some m₃ ∧ (∀ r, r ≠ k0 → r ≠ k1 → m₃.get r = m.get r) ∧
          m₃.hi = m.hi ∧ m₃.lo = m.lo ∧ m₃.mem = m₂.mem ∧ m₃.cp0 = m₂.cp0 := by
  obtain ⟨m₁, hm₁, hentered⟩ := execAll_entry H hq hqf hgp
  exact ⟨m₁, hm₁, hentered, fun m₂ hsp hkept => execAll_leave H hentered hsp hkept⟩

/-- An interrupt with the stack at `0x80010000`. -/
def interrupted : Machine where
  reg := fun r => if r = sp then 0x80010000 else if r = k0 then xtypeInterrupt else 7
  hi := 1
  lo := 2
  cp0 := fun _ => 3
  mem := fun _ => 0

theorem exception_transparent_interrupted :
    ∃ m₁, execAll interrupted (entry 0x80001000) = some m₁ ∧ Entered interrupted m₁ 0x1014 ∧
      ∀ m₂ : Machine, m₂.get sp = frame interrupted →
        (∀ i, 8 ≤ i → i < 74 →
          m₂.mem (place (frame interrupted) (4 * i)) =
            m₁.mem (place (frame interrupted) (4 * i))) →
        ∃ m₃, execAll m₂ leave = some m₃ ∧
          (∀ r, r ≠ k0 → r ≠ k1 → m₃.get r = interrupted.get r) ∧
          m₃.hi = 1 ∧ m₃.lo = 2 ∧ m₃.mem = m₂.mem ∧ m₃.cp0 = m₂.cp0 := by
  have hframe : (frame interrupted).toNat = 0x8000fed8 := by decide
  refine exception_transparent 0x80001000 interrupted 0x1014 ⟨?_, ?_, ?_, ?_⟩ (by decide)
    (fun i _ => ?_) fun i _ => ?_
  · rw [hframe]
  · omega
  · rw [hframe]
    decide
  · decide
  · rw [place, hframe]
    omega
  · rw [place, hframe]
    omega

end BcmMruby.Exception
