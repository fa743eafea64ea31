import BcmMruby.Exception.Entry

/-!
# The start of the firmware

`start.S`: `start` clears the `bss` and calls `main`, and `relocsp` moves the stack, which `main`
asks for when there is more memory than 8 MB. Both loops run upwards and test at the end. The words
of a stack that is longer than the distance it is moved by are copied over and over.
-/

namespace BcmMruby.Boot

open Core.Mips Exception

/-! ### The code -/

/-- `blt rs, rt, 1b` in a loop that ends with a test of `AT`. -/
def blt (rs rt : Reg) : Instr := .slt AT rs rt

def clearTurn : List Instr := [.sw zero 0 t0, .addi t0 t0 4, blt t0 t1]

/-- `start` as far as the call of `main`. -/
def start (fbss fend : Word) (fuel : ℕ) (m : Machine) : Option Machine :=
  (execAll m (.lui sp 0x8080 :: (la t0 fbss ++ la t1 fend))).bind fun m =>
    (loop clearTurn AT fuel m).bind fun m => execAll m [.addiu sp sp (BitVec.ofInt 16 (-8))]

def copyTurn : List Instr := [.lw t3 0 t0, .sw t3 0 t2, .addi t0 t0 4, .addi t2 t2 4, blt t0 t1]

/-- `relocsp`; its result is in `v0`. -/
def relocsp (fuel : ℕ) (m : Machine) : Option Machine :=
  (execAll m [move t0 sp, .lui t1 0x8080, move t2 sp, .add t2 t2 a0]).bind fun m =>
    (loop copyTurn AT fuel m).bind fun m => execAll m [.add sp sp a0, move v0 sp]

/-! ### The loops -/

lemma exec_blt (m : Machine) (rs rt : Reg) (hs : 0x80000000 ≤ (m.get rs).toNat)
    (ht : 0x80000000 ≤ (m.get rt).toNat) :
    exec m (blt rs rt) =
      some (m.set AT (if (m.get rs).toNat < (m.get rt).toNat then 1 else 0)) := by
  rw [blt, exec, slt_of_kseg0 hs ht]
  simp only [decide_eq_true_eq]

/-- What the turns of the first loop leave. -/
structure Cleared (m : Machine) (a n : ℕ) (e : Word) (i : ℕ) (m' : Machine) : Prop where
  next : (m'.get t0).toNat = 0x80000000 + (a + 4 * i)
  stop : m'.get t1 = e
  zeros : ∀ j < i, m'.mem (a + 4 * j) = 0
  rest : ∀ p, (∀ j < i, p ≠ a + 4 * j) → m'.mem p = m.mem p
  regs : ∀ r ∉ [AT, t0, t1], m'.get r = m.get r

lemma Cleared.step {m m' : Machine} {a n i : ℕ} {e : Word} (H : Cleared m a n e i m')
    (ha : a % 4 = 0) (hhigh : a + 4 * n ≤ 0x20000000) (hi : i < n)
    (he : 0x80000000 ≤ e.toNat) (hstop : e.toNat ≤ 0x80000000 + (a + 4 * n))
    (hlast : i + 1 < n → 0x80000000 + (a + 4 * (i + 1)) < e.toNat) :
    ∃ m'', execAll m' clearTurn = some m'' ∧ Cleared m a n e (i + 1) m'' ∧
      (m''.get AT = 0 ↔ i + 1 = n) := by
  obtain ⟨hnext, ht1, hzeros, hrest, hregs⟩ := H
  have hsub : (m'.get t0).toNat - 0x80000000 = a + 4 * i := by omega
  have hsw := exec_sw_of_kseg0 (m := m') (b := t0) (by omega) (by omega) (by omega) zero
  rw [hsub, get_zero] at hsw
  let m₁ := m'.store (a + 4 * i) 0
  have ht0₁ : (m₁.get t0).toNat = 0x80000000 + (a + 4 * i) := hnext
  obtain ⟨haddi, hadd⟩ := exec_next_of_kseg0 (m := m₁) (b := t0) (by omega) (by omega)
  let m₂ := m₁.set t0 (m₁.get t0 + 4)
  have ht0₂ : (m₂.get t0).toNat = 0x80000000 + (a + 4 * (i + 1)) := by
    rw [get_set_self _ _ _ (by decide), hadd, ht0₁]
    omega
  have ht1₂ : m₂.get t1 = e := by
    rw [get_set_of_ne _ _ _ (by decide)]
    exact ht1
  have hblt := exec_blt m₂ t0 t1 (by omega) (by rwa [ht1₂])
  rw [ht0₂, ht1₂] at hblt
  let m₃ := m₂.set AT (if 0x80000000 + (a + 4 * (i + 1)) < e.toNat then 1 else 0)
  refine ⟨m₃, ?_, ⟨?_, ?_, ?_, ?_, ?_⟩, ?_⟩
  · rw [clearTurn, execAll_cons, hsw, Option.bind_some, execAll_cons, haddi, Option.bind_some,
      execAll_cons, hblt, Option.bind_some, execAll_nil]
  · rw [get_set_of_ne _ _ _ (by decide), ht0₂]
  · rw [get_set_of_ne _ _ _ (by decide), ht1₂]
  · intro j hj
    rw [mem_set, mem_set, mem_store]
    split_ifs with hij
    · rfl
    · exact hzeros j (by omega)
  · intro p hp
    rw [mem_set, mem_set, mem_store, if_neg (hp i (by omega))]
    exact hrest p fun j hj => hp j (by omega)
  · intro r hr
    simp only [List.mem_cons, List.not_mem_nil, or_false, not_or] at hr
    rw [get_set_of_ne _ _ _ hr.1, get_set_of_ne _ _ _ hr.2.1]
    exact hregs r (by simp [hr])
  · rw [get_set_self _ _ _ (by decide)]
    by_cases hlt : i + 1 < n
    · rw [if_pos (hlast hlt)]
      exact iff_of_false (by decide) (by omega)
    · rw [if_neg (by omega)]
      exact iff_of_true rfl (by omega)

/-- What the turns of the second loop leave: a stack of `n` words from `s` on is copied `k` words
upwards. -/
structure Copied (m : Machine) (s k : ℕ) (e : Word) (i : ℕ) (m' : Machine) : Prop where
  next : (m'.get t0).toNat = 0x80000000 + (s + 4 * i)
  dest : (m'.get t2).toNat = 0x80000000 + (s + 4 * k + 4 * i)
  stop : m'.get t1 = e
  words : ∀ j < i, m'.mem (s + 4 * k + 4 * j) = m.mem (s + 4 * (j % k))
  rest : ∀ p, (∀ j < i, p ≠ s + 4 * k + 4 * j) → m'.mem p = m.mem p
  regs : ∀ r ∉ [AT, t0, t1, t2, t3], m'.get r = m.get r

/-- The word that is read may have been written in an earlier turn. -/
lemma Copied.mem_next {m m' : Machine} {s k i : ℕ} {e : Word} (H : Copied m s k e i m') :
    m'.mem (s + 4 * i) = m.mem (s + 4 * (i % k)) := by
  by_cases hk : k ≤ i ∧ 0 < k
  · have hword := H.words (i - k) (by omega)
    have hplace : s + 4 * k + 4 * (i - k) = s + 4 * i := by omega
    rwa [hplace, ← Nat.mod_eq_sub_mod hk.1] at hword
  · have hmod : i % k = i := by
      rcases Nat.eq_zero_or_pos k with rfl | hpos
      · exact Nat.mod_zero i
      · exact Nat.mod_eq_of_lt (by omega)
    rw [hmod]
    exact H.rest _ fun j hj => by omega

lemma Copied.step {m m' : Machine} {s k n i : ℕ} {e : Word} (H : Copied m s k e i m')
    (hs : s % 4 = 0) (hhigh : s + 4 * k + 4 * n ≤ 0x20000000) (hi : i < n)
    (he : e.toNat = 0x80000000 + (s + 4 * n)) :
    ∃ m'', execAll m' copyTurn = some m'' ∧ Copied m s k e (i + 1) m'' ∧
      (m''.get AT = 0 ↔ i + 1 = n) := by
  have hword := H.mem_next
  obtain ⟨hnext, hdest, ht1, hwords, hrest, hregs⟩ := H
  have hsrc : (m'.get t0).toNat - 0x80000000 = s + 4 * i := by omega
  have hlw := exec_lw_of_kseg0 (m := m') (b := t0) (by omega) (by omega) (by omega) t3
  rw [hsrc, hword] at hlw
  let m₁ := m'.set t3 (m.mem (s + 4 * (i % k)))
  have ht2₁ : (m₁.get t2).toNat = 0x80000000 + (s + 4 * k + 4 * i) := by
    rw [get_set_of_ne _ _ _ (by decide), hdest]
  have hdst : (m₁.get t2).toNat - 0x80000000 = s + 4 * k + 4 * i := by
    rw [ht2₁, Nat.add_sub_cancel_left]
  have hsw := exec_sw_of_kseg0 (m := m₁) (b := t2) (by omega) (by omega) (by omega) t3
  rw [hdst, get_set_self _ _ _ (by decide)] at hsw
  let m₂ := m₁.store (s + 4 * k + 4 * i) (m.mem (s + 4 * (i % k)))
  have ht0₂ : (m₂.get t0).toNat = 0x80000000 + (s + 4 * i) := by
    rw [get_store, get_set_of_ne _ _ _ (by decide), hnext]
  obtain ⟨haddi₀, hadd₀⟩ := exec_next_of_kseg0 (m := m₂) (b := t0) (by omega) (by omega)
  let m₃ := m₂.set t0 (m₂.get t0 + 4)
  have ht2₃ : (m₃.get t2).toNat = 0x80000000 + (s + 4 * k + 4 * i) := by
    rw [get_set_of_ne _ _ _ (by decide), get_store, ht2₁]
  obtain ⟨haddi₂, hadd₂⟩ := exec_next_of_kseg0 (m := m₃) (b := t2) (by omega) (by omega)
  let m₄ := m₃.set t2 (m₃.get t2 + 4)
  have ht0₄ : (m₄.get t0).toNat = 0x80000000 + (s + 4 * (i + 1)) := by
    rw [get_set_of_ne _ _ _ (by decide), get_set_self _ _ _ (by decide), hadd₀, ht0₂]
    omega
  have ht1₄ : m₄.get t1 = e := by
    rw [get_set_of_ne _ _ _ (by decide), get_set_of_ne _ _ _ (by decide), get_store,
      get_set_of_ne _ _ _ (by decide), ht1]
  have ht1 : 0x80000000 ≤ (m₄.get t1).toNat := by
    rw [ht1₄, he]
    exact Nat.le_add_right _ _
  have hblt := exec_blt m₄ t0 t1 (by omega) ht1
  rw [ht0₄, ht1₄] at hblt
  let m₅ := m₄.set AT (if 0x80000000 + (s + 4 * (i + 1)) < e.toNat then 1 else 0)
  have hmem : m₅.mem = m₂.mem := by
    simp only [m₅, m₄, m₃, mem_set]
  refine ⟨m₅, ?_, ⟨?_, ?_, ?_, ?_, ?_, ?_⟩, ?_⟩
  · rw [copyTurn, execAll_cons, hlw, Option.bind_some, execAll_cons, hsw, Option.bind_some,
      execAll_cons, haddi₀, Option.bind_some, execAll_cons, haddi₂, Option.bind_some, execAll_cons,
      hblt, Option.bind_some, execAll_nil]
  · rw [get_set_of_ne _ _ _ (by decide), ht0₄]
  · rw [get_set_of_ne _ _ _ (by decide), get_set_self _ _ _ (by decide), hadd₂, ht2₃]
    omega
  · rw [get_set_of_ne _ _ _ (by decide), ht1₄]
  · intro j hj
    rw [hmem, mem_store, mem_set]
    by_cases hij : j = i
    · rw [hij, if_pos rfl]
    · rw [if_neg (by omega)]
      exact hwords j (by omega)
  · intro p hp
    rw [hmem, mem_store, mem_set, if_neg (hp i (by omega))]
    exact hrest p fun j hj => hp j (by omega)
  · intro r hr
    simp only [List.mem_cons, List.not_mem_nil, or_false, not_or] at hr
    obtain ⟨hAT, h0, h1, h2, h3⟩ := hr
    rw [get_set_of_ne _ _ _ hAT, get_set_of_ne _ _ _ h2, get_set_of_ne _ _ _ h0, get_store,
      get_set_of_ne _ _ _ h3]
    exact hregs r (by simp [hAT, h0, h1, h2, h3])
  · rw [get_set_self _ _ _ (by decide), he]
    by_cases hlt : i + 1 < n
    · rw [if_pos (by omega)]
      exact iff_of_false (by decide) (by omega)
    · rw [if_neg (by omega)]
      exact iff_of_true rfl (by omega)

/-! ### Clearing the bss -/

/-- Where the linker puts the `bss`. -/
structure Placed (fbss fend : Word) : Prop where
  aligned : fbss.toNat % 4 = 0 ∧ fend.toNat % 4 = 0
  low : 0x80000000 ≤ fbss.toNat
  ordered : fbss.toNat ≤ fend.toNat
  high : fend.toNat + 4 ≤ 0xa0000000

/-- The words that `start` clears; one is cleared even if there are none. -/
def bssWords (fbss fend : Word) : ℕ := max 1 ((fend.toNat - fbss.toNat) / 4)

lemma exec_lui (m : Machine) (rt : Reg) (imm : BitVec 16) :
    exec m (.lui rt imm) = some (m.set rt (imm.setWidth 32 <<< 16)) := rfl

/-- `main` is called with an empty stack below 8 MB, with the arguments that `start` has got, with a
`bss` of zeros and with the rest of the memory as it was. -/
theorem start_clears {fbss fend : Word} (H : Placed fbss fend) (m : Machine) {fuel : ℕ}
    (hfuel : bssWords fbss fend ≤ fuel) :
    ∃ m', start fbss fend fuel m = some m' ∧ m'.get sp = 0x807ffff8 ∧
      (∀ i < bssWords fbss fend, m'.mem (place fbss (4 * i)) = 0) ∧
      (∀ p, (∀ i < bssWords fbss fend, p ≠ place fbss (4 * i)) → m'.mem p = m.mem p) ∧
      ∀ r ∉ [AT, t0, t1, sp], m'.get r = m.get r := by
  obtain ⟨⟨hbss, hend⟩, hlow, hle, hhigh⟩ := H
  obtain ⟨a, ha⟩ : ∃ a, fbss.toNat = 0x80000000 + a := ⟨_, (Nat.add_sub_cancel' hlow).symm⟩
  have hplace := place_eq ha
  let m₀ := ((m.set sp 0x80800000).set t0 fbss).set t1 fend
  have hsetup : execAll m (.lui sp 0x8080 :: (la t0 fbss ++ la t1 fend)) = some m₀ := by
    rw [execAll_cons, exec_lui, Option.bind_some, execAll_append, execAll_la _ (by decide),
      Option.bind_some, execAll_la _ (by decide)]
    rfl
  have hstart : Cleared m₀ a (bssWords fbss fend) fend 0 m₀ := by
    refine ⟨?_, get_set_self _ _ _ (by decide), fun j hj => absurd hj (Nat.not_lt_zero j),
      fun _ _ => rfl, fun _ _ => rfl⟩
    rw [get_set_of_ne _ _ _ (by decide), get_set_self _ _ _ (by decide), ha, Nat.mul_zero,
      Nat.add_zero]
  have hwords : bssWords fbss fend = max 1 ((fend.toNat - fbss.toNat) / 4) := rfl
  have hturn : ∀ i < bssWords fbss fend, ∀ m', Cleared m₀ a (bssWords fbss fend) fend i m' →
      ∃ m'', execAll m' clearTurn = some m'' ∧ Cleared m₀ a (bssWords fbss fend) fend (i + 1) m'' ∧
        (m''.get AT = 0 ↔ i + 1 = bssWords fbss fend) := fun i hi m' H =>
    H.step (by omega) (by omega) hi (by omega) (by omega) (by omega)
  obtain ⟨m₁, hloop, hcleared⟩ := exists_loop (by omega) hturn hstart hfuel
  have hsp₁ : m₁.get sp = 0x80800000 := by
    rw [hcleared.regs sp (by decide), get_set_of_ne _ _ _ (by decide),
      get_set_of_ne _ _ _ (by decide), get_set_self _ _ _ (by decide)]
  refine ⟨m₁.set sp 0x807ffff8, ?_, get_set_self _ _ _ (by decide), ?_, ?_, ?_⟩
  · have hexec : exec m₁ (.addiu sp sp (BitVec.ofInt 16 (-8))) =
        some (m₁.set sp 0x807ffff8) := by
      rw [exec, hsp₁]
      rfl
    rw [start, hsetup, Option.bind_some, hloop, Option.bind_some, execAll_cons, hexec,
      Option.bind_some, execAll_nil]
  · intro i hi
    rw [mem_set, hplace]
    exact hcleared.zeros i hi
  · intro p hp
    rw [mem_set, hcleared.rest p fun i hi => hplace (4 * i) ▸ hp i hi]
    simp only [m₀, mem_set]
  · intro r hr
    simp only [List.mem_cons, List.not_mem_nil, or_false, not_or] at hr
    obtain ⟨hAT, h0, h1, hsp⟩ := hr
    rw [get_set_of_ne _ _ _ hsp, hcleared.regs r (by simp [hAT, h0, h1]), get_set_of_ne _ _ _ h1,
      get_set_of_ne _ _ _ h0, get_set_of_ne _ _ _ hsp]

/-- What the loader leaves: arguments, and a memory that is not clear. -/
def loaded : Machine where
  reg _ := 3
  hi := 0
  lo := 0
  cp0 _ := 0
  mem _ := 0xffffffff

theorem start_clears_two :
    ∃ m', start 0x80010000 0x80010008 2 loaded = some m' ∧ m'.get sp = 0x807ffff8 ∧
      (∀ i < 2, m'.mem (place 0x80010000 (4 * i)) = 0) ∧
      (∀ p, (∀ i < 2, p ≠ place 0x80010000 (4 * i)) → m'.mem p = 0xffffffff) ∧
      ∀ r ∉ [AT, t0, t1, sp], m'.get r = loaded.get r :=
  start_clears ⟨by decide, by decide, by decide, by decide⟩ loaded (by decide)

/-! ### Moving the stack -/

/-- A stack below 8 MB, and room above for it and for the distance in `a0`. -/
structure Stack (m : Machine) : Prop where
  aligned : (m.get sp).toNat % 4 = 0
  low : 0x80000000 ≤ (m.get sp).toNat
  high : (m.get sp).toNat < 0x80800000
  distance : (m.get a0).toNat % 4 = 0
  room : 0x80800000 + (m.get a0).toNat ≤ 0xa0000000

/-- The number of words on a stack. -/
def size (stack : Word) : ℕ := (0x80800000 - stack.toNat) / 4

/-- The stack pointer is moved, and returned; `f` says where each word of the stack comes from. -/
structure Moved (f : ℕ → ℕ) (m m' : Machine) : Prop where
  stack : m'.get sp = m.get sp + m.get a0
  result : m'.get v0 = m.get sp + m.get a0
  words : ∀ i < size (m.get sp),
    m'.mem (place (m'.get sp) (4 * i)) = m.mem (place (m.get sp) (4 * f i))
  rest : ∀ p, (∀ i < size (m.get sp), p ≠ place (m'.get sp) (4 * i)) → m'.mem p = m.mem p
  regs : ∀ r ∉ [AT, v0, t0, t1, t2, t3, sp], m'.get r = m.get r

lemma exec_add (m : Machine) (rd rs rt : Reg) :
    exec m (.add rd rs rt) = (sum (m.get rs) (m.get rt)).map (m.set rd) := rfl

lemma exists_moved {m : Machine} (H : Stack m) {fuel : ℕ} (hfuel : size (m.get sp) ≤ fuel) :
    ∃ m', relocsp fuel m = some m' ∧ Moved (· % ((m.get a0).toNat / 4)) m m' := by
  obtain ⟨hsp, hlow, hhigh, ha0, hroom⟩ := H
  obtain ⟨s, hs⟩ : ∃ s, (m.get sp).toNat = 0x80000000 + s := ⟨_, (Nat.add_sub_cancel' hlow).symm⟩
  obtain ⟨k, hk⟩ : ∃ k, (m.get a0).toNat = 4 * k := ⟨_, (Nat.mul_div_cancel' (by omega)).symm⟩
  have hsize : s + 4 * size (m.get sp) = 0x800000 ∧ 0 < size (m.get sp) := by
    unfold size
    omega
  have hdiv : (m.get a0).toNat / 4 = k := by omega
  obtain ⟨hsum, htoNat⟩ := sum_of_kseg0 (a := m.get sp) (b := m.get a0) hlow (by omega)
  rw [hs, hk] at htoNat
  let m₀ := ((m.set t0 (m.get sp)).set t1 0x80800000).set t2 (m.get sp + m.get a0)
  have hmem₀ : m₀.mem = m.mem := by simp only [m₀, mem_set]
  have hsetup : execAll m [move t0 sp, .lui t1 0x8080, move t2 sp, .add t2 t2 a0] = some m₀ := by
    have hsp₁ : ((m.set t0 (m.get sp)).set t1 0x80800000).get sp = m.get sp := by
      rw [get_set_of_ne _ _ _ (by decide), get_set_of_ne _ _ _ (by decide)]
    have ha0₁ : (((m.set t0 (m.get sp)).set t1 0x80800000).set t2 (m.get sp)).get a0 =
        m.get a0 := by
      rw [get_set_of_ne _ _ _ (by decide), get_set_of_ne _ _ _ (by decide),
        get_set_of_ne _ _ _ (by decide)]
    have htop : (0x8080 : BitVec 16).setWidth 32 <<< 16 = (0x80800000 : Word) := by decide
    rw [execAll_cons, exec_move, Option.bind_some, execAll_cons, exec_lui, htop, Option.bind_some,
      execAll_cons, exec_move, hsp₁, Option.bind_some, execAll_cons, exec_add, ha0₁,
      get_set_self _ _ _ (by decide), hsum, Option.map_some, Option.bind_some, set_set, execAll_nil]
  have hstart : Copied m₀ s k 0x80800000 0 m₀ := by
    refine ⟨?_, ?_, ?_, fun j hj => absurd hj (Nat.not_lt_zero j), fun _ _ => rfl, fun _ _ => rfl⟩
    · rw [get_set_of_ne _ _ _ (by decide), get_set_of_ne _ _ _ (by decide),
        get_set_self _ _ _ (by decide), hs, Nat.mul_zero, Nat.add_zero]
    · rw [get_set_self _ _ _ (by decide), htoNat, Nat.mul_zero, Nat.add_zero, Nat.add_assoc]
    · rw [get_set_of_ne _ _ _ (by decide), get_set_self _ _ _ (by decide)]
  have hturn : ∀ i < size (m.get sp), ∀ m', Copied m₀ s k 0x80800000 i m' →
      ∃ m'', execAll m' copyTurn = some m'' ∧ Copied m₀ s k 0x80800000 (i + 1) m'' ∧
        (m''.get AT = 0 ↔ i + 1 = size (m.get sp)) := by
    intro i hi m' H
    refine H.step (by omega) (by omega) hi ?_
    rw [hsize.1]
    rfl
  obtain ⟨m₁, hloop, hcopied⟩ := exists_loop hsize.2 hturn hstart hfuel
  have hsp₁ : m₁.get sp = m.get sp := by
    rw [hcopied.regs sp (by decide)]
    simp [m₀, get_set, sp, t0, t1, t2]
  have ha0₁ : m₁.get a0 = m.get a0 := by
    rw [hcopied.regs a0 (by decide)]
    simp [m₀, get_set, a0, t0, t1, t2]
  have hsp₂ : ((m₁.set sp (m.get sp + m.get a0)).set v0 (m.get sp + m.get a0)).get sp =
      m.get sp + m.get a0 := by
    rw [get_set_of_ne _ _ _ (by decide), get_set_self _ _ _ (by decide)]
  have hplace := place_eq (f := m.get sp + m.get a0) (s := s + 4 * k)
    (by rw [htoNat, Nat.add_assoc])
  refine ⟨_, ?_, hsp₂, get_set_self _ _ _ (by decide), ?_, ?_, ?_⟩
  · rw [relocsp, hsetup, Option.bind_some, hloop, Option.bind_some, execAll_cons, exec_add, hsp₁,
      ha0₁, hsum, Option.map_some, Option.bind_some, execAll_cons, exec_move,
      get_set_self _ _ _ (by decide), Option.bind_some, execAll_nil]
  · intro i hi
    rw [hsp₂, hplace, place_eq hs, hdiv, mem_set, mem_set, hcopied.words i hi, hmem₀]
  · intro p hp
    rw [hsp₂] at hp
    rw [mem_set, mem_set, hcopied.rest p fun i hi => hplace (4 * i) ▸ hp i hi, hmem₀]
  · intro r hr
    simp only [List.mem_cons, List.not_mem_nil, or_false, not_or] at hr
    obtain ⟨hAT, hv0, h0, h1, h2, h3, hsp⟩ := hr
    rw [get_set_of_ne _ _ _ hv0, get_set_of_ne _ _ _ hsp,
      hcopied.regs r (by simp [hAT, h0, h1, h2, h3]), get_set_of_ne _ _ _ h2,
      get_set_of_ne _ _ _ h1, get_set_of_ne _ _ _ h0]

lemma Moved.congr {f g : ℕ → ℕ} {m m' : Machine} (H : Moved f m m')
    (h : ∀ i < size (m.get sp), f i = g i) : Moved g m m' where
  stack := H.stack
  result := H.result
  words i hi := by rw [H.words i hi, h i hi]
  rest := H.rest
  regs := H.regs

/-- The stack pointer is moved and returned, whatever the distance, and the words of the stack are
repeated as far as the distance reaches; the stack arrives as it was, whatever is on it, exactly if
it is moved by nothing or at least by its own length. -/
theorem relocsp_moved_iff {m : Machine} (H : Stack m) {fuel : ℕ} (hfuel : size (m.get sp) ≤ fuel) :
    (∀ mem, ∃ m', relocsp fuel { m with mem := mem } = some m' ∧
        Moved (· % ((m.get a0).toNat / 4)) { m with mem := mem } m') ∧
      ((∀ mem, ∃ m', relocsp fuel { m with mem := mem } = some m' ∧
        Moved id { m with mem := mem } m') ↔
        m.get a0 = 0 ∨ 4 * size (m.get sp) ≤ (m.get a0).toNat) := by
  have hmoved : ∀ mem, ∃ m', relocsp fuel { m with mem := mem } = some m' ∧
      Moved (· % ((m.get a0).toNat / 4)) { m with mem := mem } m' := fun mem =>
    exists_moved (m := { m with mem := mem }) ⟨H.aligned, H.low, H.high, H.distance, H.room⟩ hfuel
  have hdistance := H.distance
  refine ⟨hmoved, ?_, ?_⟩
  · intro h
    by_contra hnot
    obtain ⟨hzero, hshort⟩ := not_or.mp hnot
    have hpos : (m.get a0).toNat ≠ 0 := fun h0 => hzero (BitVec.eq_of_toNat_eq h0)
    -- the first word of the stack, and the word that is written over by it
    obtain ⟨m₁, hm₁, hid⟩ := h fun p => if p = place (m.get sp) 0 then 1 else 0
    obtain ⟨m₂, hm₂, hmod⟩ := hmoved fun p => if p = place (m.get sp) 0 then 1 else 0
    obtain rfl := Option.some.inj (hm₁.symm.trans hm₂)
    have hk : (m.get a0).toNat / 4 < size (m.get sp) := by omega
    have hword := (hid.words _ hk).symm.trans (hmod.words _ hk)
    simp only [get_mem, id, Nat.mod_self, Nat.mul_zero, if_true, place_inj] at hword
    rw [if_neg (by omega)] at hword
    cases hword
  · intro h mem
    obtain ⟨m', hm', hmod⟩ := hmoved mem
    refine ⟨m', hm', hmod.congr fun i hi => ?_⟩
    rw [get_mem] at hi
    rcases h with h | h
    · rw [h]
      exact Nat.mod_zero i
    · exact Nat.mod_eq_of_lt (by omega)

/-- 256 bytes on the stack of a machine with 16 MB. -/
def sixteen : Machine where
  reg r := if r = sp then 0x807fff00 else if r = a0 then 0x00800000 else 0
  hi := 0
  lo := 0
  cp0 _ := 0
  mem _ := 0

theorem relocsp_moved_sixteen :
    4 * size (sixteen.get sp) = 256 ∧
      (∀ mem, ∃ m', relocsp 64 { sixteen with mem := mem } = some m' ∧
        Moved (· % 0x200000) { sixteen with mem := mem } m') ∧
      ∀ mem, ∃ m', relocsp 64 { sixteen with mem := mem } = some m' ∧
        Moved id { sixteen with mem := mem } m' := by
  have hstack : Stack sixteen :=
    ⟨by decide, by decide, by decide, by decide, by decide⟩
  obtain ⟨hmoved, hiff⟩ := relocsp_moved_iff hstack (show size (sixteen.get sp) ≤ 64 by decide)
  exact ⟨by decide, hmoved, hiff.mpr (.inr (by decide))⟩

end BcmMruby.Boot
