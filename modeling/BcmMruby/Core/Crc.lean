import BcmMruby.Core.Xor

/-!
# Cyclic redundancy checks

The register of a check that takes the lowest bit first. A turn is linear, and a bijection if the
polynomial has its constant term, which is the highest bit here; so the check of two messages of the
same length that differ in a burst of bits, no longer than the register, is never the same. `Table`
is the table for a byte at a time.
-/

namespace Core.Crc

variable {w : ℕ} {poly : BitVec w}

/-- The register after one turn without input. -/
def shift (poly r : BitVec w) : BitVec w := (r >>> 1) ^^^ if r.getLsbD 0 then poly else 0

def bit (b : Bool) : BitVec w := if b then 1 else 0

def feed (poly r : BitVec w) (b : Bool) : BitVec w := shift poly (r ^^^ bit b)

/-- The register after some bits. -/
def check (poly r : BitVec w) (bs : List Bool) : BitVec w := bs.foldl (feed poly) r

/-! ### Linearity -/

lemma shift_linear (poly : BitVec w) : XorLinear (shift poly) := by
  intro a b
  have hbit : (if (a ^^^ b).getLsbD 0 then poly else 0) =
      (if a.getLsbD 0 then poly else 0) ^^^ if b.getLsbD 0 then poly else 0 := by
    rw [BitVec.getLsbD_xor]
    cases a.getLsbD 0 <;> cases b.getLsbD 0 <;> simp
  rw [shift, shift, shift, hbit, BitVec.ushiftRight_xor_distrib]
  ac_rfl

lemma bit_xor (a b : Bool) : (bit (a ^^ b) : BitVec w) = bit a ^^^ bit b := by
  cases a <;> cases b <;> simp [bit]

lemma feed_xor (r s : BitVec w) (a b : Bool) :
    feed poly (r ^^^ s) (a ^^ b) = feed poly r a ^^^ feed poly s b := by
  rw [feed, feed, feed, ← shift_linear, bit_xor]
  congr 1
  ac_rfl

/-- The check of a difference is the difference of the checks. -/
lemma check_xor {as bs : List Bool} (hlen : as.length = bs.length) (r s : BitVec w) :
    check poly (r ^^^ s) (List.zipWith (· ^^ ·) as bs) = check poly r as ^^^ check poly s bs := by
  induction as generalizing bs r s with
  | nil =>
    obtain rfl : bs = [] := List.eq_nil_of_length_eq_zero hlen.symm
    rfl
  | cons a as ih =>
    cases bs with
    | nil => cases hlen
    | cons b bs =>
      rw [List.zipWith_cons_cons, check, List.foldl_cons, feed_xor]
      exact ih (Nat.succ.inj hlen) _ _

lemma getLsbD_shift (r : BitVec w) (i : ℕ) :
    (shift poly r).getLsbD i = (r.getLsbD (i + 1) ^^ (r.getLsbD 0 && poly.getLsbD i)) := by
  rw [shift, BitVec.getLsbD_xor, BitVec.getLsbD_ushiftRight, Nat.add_comm 1 i]
  cases r.getLsbD 0 <;> simp

/-- The highest bit of the register tells the lowest one of before. -/
lemma shift_injective (hpoly : poly.msb = true) : Function.Injective (shift poly) := by
  refine (shift_linear poly).injective fun y hy => ?_
  have hbits : ∀ i, (shift poly y).getLsbD i = false := fun i => by simp [hy]
  have hw : 0 < w := by
    rcases Nat.eq_zero_or_pos w with rfl | hw
    · simp [BitVec.msb] at hpoly
    · exact hw
  have hlow : y.getLsbD 0 = false := by
    have htop := hbits (w - 1)
    rw [getLsbD_shift, Nat.sub_add_cancel hw, BitVec.getLsbD_of_ge y w le_rfl,
      ← BitVec.msb_eq_getLsbD_last, hpoly] at htop
    simpa using htop
  apply BitVec.eq_of_getLsbD_eq
  intro i _
  cases i with
  | zero => simpa using hlow
  | succ i =>
    have hi := hbits i
    rw [getLsbD_shift, hlow] at hi
    simpa using hi

/-! ### Short inputs -/

/-- Bits as a word, the first one lowest. -/
def pack : List Bool → BitVec w
  | [] => 0
  | b :: bs => bit b ^^^ (pack bs <<< 1)

lemma getLsbD_bit (b : Bool) (i : ℕ) :
    (bit b : BitVec w).getLsbD i = (b && decide (i = 0 ∧ i < w)) := by
  cases b
  · simp [bit]
  · have hone : (1 : BitVec w).getLsbD i = (decide (0 < w) && decide (i = 0)) :=
      BitVec.getLsbD_one
    rw [bit, if_pos rfl, hone, Bool.true_and, ← Bool.decide_and]
    exact decide_eq_decide.mpr ⟨fun h => ⟨h.2, h.2 ▸ h.1⟩, fun h => ⟨h.1 ▸ h.2, h.1⟩⟩

lemma getLsbD_pack (bs : List Bool) {i : ℕ} (hi : i < w) :
    (pack bs : BitVec w).getLsbD i = bs.getD i false := by
  induction bs generalizing i with
  | nil => simp [pack]
  | cons b bs ih =>
    rw [pack, BitVec.getLsbD_xor, getLsbD_bit, BitVec.getLsbD_shiftLeft]
    cases i with
    | zero => simp [hi]
    | succ i => simp [hi, ih (Nat.lt_of_succ_lt hi)]

/-- A turn drops the first of the bits that are in the register. -/
lemma shift_pack_shiftLeft {bs : List Bool} (h : bs.length < w) :
    shift poly (pack bs <<< 1) = pack bs := by
  apply BitVec.eq_of_getLsbD_eq
  intro i hi
  have hlow : (pack bs <<< 1 : BitVec w).getLsbD 0 = false := by simp
  rw [getLsbD_shift, hlow, Bool.false_and, Bool.xor_false, BitVec.getLsbD_shiftLeft]
  by_cases hlast : i + 1 < w
  · simp [hlast]
  · rw [getLsbD_pack bs hi, List.getD_eq_getElem?_getD, List.getElem?_eq_none (by omega)]
    simp [hlast]

/-- An input no longer than the register may as well be in it from the start. -/
lemma check_eq_iterate {bs : List Bool} (h : bs.length ≤ w) (r : BitVec w) :
    check poly r bs = (shift poly)^[bs.length] (r ^^^ pack bs) := by
  induction bs generalizing r with
  | nil =>
    rw [pack, check, List.foldl_nil, List.length_nil, Function.iterate_zero, id_eq]
    exact BitVec.xor_zero.symm
  | cons b bs ih =>
    have hassoc : r ^^^ (bit b ^^^ pack bs <<< 1) = (r ^^^ bit b) ^^^ pack bs <<< 1 := by ac_rfl
    rw [check, List.foldl_cons, List.length_cons, Function.iterate_succ_apply, pack, hassoc,
      shift_linear poly, shift_pack_shiftLeft h]
    exact ih (Nat.le_of_succ_le h) _

lemma check_append (r : BitVec w) (as bs : List Bool) :
    check poly r (as ++ bs) = check poly (check poly r as) bs := List.foldl_append

/-- Zeros only turn the register. -/
lemma check_replicate_false (r : BitVec w) (n : ℕ) :
    check poly r (List.replicate n false) = (shift poly)^[n] r := by
  induction n generalizing r with
  | zero => rfl
  | succ n ih =>
    have hfeed : feed poly r false = shift poly r := by
      rw [feed, bit, if_neg Bool.false_ne_true]
      congr 1
      exact BitVec.xor_zero
    rw [List.replicate_succ, check, List.foldl_cons, hfeed, Function.iterate_succ_apply]
    exact ih _

/-! ### Bursts -/

/-- The lists differ in some of the `n` places from `start` on, and in no other. -/
structure Burst {α : Type*} (start n : ℕ) (as bs : List α) : Prop where
  length : as.length = bs.length
  ne : as ≠ bs
  within : ∀ i, as[i]? ≠ bs[i]? → start ≤ i ∧ i < start + n

section

variable {start n : ℕ} {as bs : List Bool}

lemma getElem?_zipWith_xor (hlen : as.length = bs.length) {i : ℕ} (hi : i < as.length) :
    (List.zipWith (· ^^ ·) as bs)[i]? = some (decide (as[i]? ≠ bs[i]?)) := by
  have hi' : i < bs.length := hlen ▸ hi
  rw [List.getElem?_zipWith, List.getElem?_eq_getElem hi, List.getElem?_eq_getElem hi']
  cases as[i] <;> cases bs[i] <;> simp

/-- Outside the window there is no difference. -/
lemma Burst.eq_false (h : Burst start n as bs) {i : ℕ} {b : Bool}
    (hb : (List.zipWith (· ^^ ·) as bs)[i]? = some b) (hi : i < start ∨ start + n ≤ i) :
    b = false := by
  have hlt : i < as.length := by
    have := (List.getElem?_eq_some_iff.mp hb).1
    rw [List.length_zipWith] at this
    omega
  rw [getElem?_zipWith_xor h.length hlt, Option.some.injEq] at hb
  rw [← hb, decide_eq_false_iff_not, not_not]
  by_contra hne
  have := h.within i hne
  omega

/-- The differences are zeros, some bits not all of which are zeros, and zeros. -/
lemma Burst.exists_eq_append (h : Burst start n as bs) :
    ∃ k mid l, List.zipWith (· ^^ ·) as bs =
      List.replicate k false ++ (mid ++ List.replicate l false) ∧ mid.length ≤ n ∧ true ∈ mid := by
  set ds := List.zipWith (· ^^ ·) as bs
  have hpre : ds.take start = List.replicate (ds.take start).length false := by
    refine List.eq_replicate_iff.mpr ⟨rfl, fun b hb => ?_⟩
    obtain ⟨i, hi, rfl⟩ := List.mem_iff_getElem.mp hb
    rw [List.length_take] at hi
    exact h.eq_false (i := i) (by rw [List.getElem_take, List.getElem?_eq_getElem])
      (.inl (by omega))
  have hpost : (ds.drop start).drop n = List.replicate ((ds.drop start).drop n).length false := by
    refine List.eq_replicate_iff.mpr ⟨rfl, fun b hb => ?_⟩
    obtain ⟨i, hi, rfl⟩ := List.mem_iff_getElem.mp hb
    exact h.eq_false (i := start + (n + i))
      (by rw [List.getElem_drop, List.getElem_drop, List.getElem?_eq_getElem]) (.inr (by omega))
  refine ⟨(ds.take start).length, (ds.drop start).take n, ((ds.drop start).drop n).length, ?_,
    List.length_take_le _ _, ?_⟩
  · rw [← hpost, List.take_append_drop, ← hpre, List.take_append_drop]
  · obtain ⟨i, hne⟩ : ∃ i, as[i]? ≠ bs[i]? := by
      by_contra hall
      push Not at hall
      exact h.ne (List.ext_getElem? hall)
    have hlt : i < as.length := by
      by_contra hge
      refine hne ?_
      rw [List.getElem?_eq_none (by omega), List.getElem?_eq_none (by rw [← h.length]; omega)]
    have hwithin := h.within i hne
    have hds : ds[i]? = some true := by
      rw [getElem?_zipWith_xor h.length hlt, decide_eq_true hne]
    refine List.mem_iff_getElem?.mpr ⟨i - start, ?_⟩
    rw [List.getElem?_take_of_lt (by omega), List.getElem?_drop, Nat.add_sub_cancel' hwithin.1, hds]

end

lemma pack_ne_zero {bs : List Bool} (hlen : bs.length ≤ w) (hbs : true ∈ bs) :
    (pack bs : BitVec w) ≠ 0 := by
  obtain ⟨i, hi, htrue⟩ := List.mem_iff_getElem.mp hbs
  intro hzero
  have hbit := getLsbD_pack bs (show i < w by omega)
  rw [hzero, List.getD_eq_getElem?_getD, List.getElem?_eq_getElem hi, htrue] at hbit
  simp at hbit

/-- A burst that is not longer than the register changes the check. -/
theorem check_ne_of_burst (hpoly : poly.msb = true) {start : ℕ} {as bs : List Bool}
    (h : Burst start w as bs) (r : BitVec w) : check poly r as ≠ check poly r bs := by
  intro heq
  obtain ⟨k, mid, l, hds, hmid, htrue⟩ := h.exists_eq_append
  have hzero : ∀ n, (shift poly)^[n] 0 = 0 := fun n => ((shift_linear poly).iterate n).zero
  have hself : r ^^^ r = 0 := BitVec.xor_self
  have hdiff : check poly (r ^^^ r) (List.zipWith (· ^^ ·) as bs) =
      check poly r as ^^^ check poly r bs := check_xor h.length r r
  rw [heq, hself, BitVec.xor_self, hds, check_append, check_replicate_false, hzero, check_append,
    check_replicate_false, check_eq_iterate hmid] at hdiff
  have hpack := (shift_injective hpoly).iterate l (hdiff.trans (hzero l).symm)
  have hpack' := (shift_injective hpoly).iterate mid.length (hpack.trans (hzero mid.length).symm)
  exact pack_ne_zero hmid htrue ((BitVec.zero_xor (x := pack mid)).symm.trans hpack')

/-! ### Bytes -/

/-- The bits of a message, the lowest bit of each byte first. -/
def byteBits (b : BitVec 8) : List Bool := (List.range 8).map b.getLsbD

def messageBits (xs : List (BitVec 8)) : List Bool := xs.flatMap byteBits

/-- `table[i]` is what eight turns make of `i`. -/
def Table (poly : BitVec w) (table : List (BitVec w)) : Prop :=
  ∀ i < 256, table[i]? = some ((shift poly)^[8] (BitVec.ofNat w i))

/-- A turn of the check with a table. -/
def tableStep (table : List (BitVec w)) (r : BitVec w) (b : BitVec 8) : BitVec w :=
  table.getD ((r ^^^ b.setWidth w).setWidth 8).toNat 0 ^^^ (r >>> 8)

lemma length_byteBits (b : BitVec 8) : (byteBits b).length = 8 := rfl

lemma getLsbD_pack_byteBits (b : BitVec 8) {i : ℕ} (hi : i < w) :
    (pack (byteBits b) : BitVec w).getLsbD i = b.getLsbD i := by
  rw [getLsbD_pack _ hi, byteBits, List.getD_eq_getElem?_getD, List.getElem?_map]
  by_cases h8 : i < 8
  · rw [List.getElem?_range h8]
    rfl
  · rw [List.getElem?_eq_none (by simpa using Nat.not_lt.mp h8),
      BitVec.getLsbD_of_ge b i (by omega)]
    rfl

lemma byteBits_injective : Function.Injective byteBits := by
  intro a b h
  apply BitVec.eq_of_getLsbD_eq
  intro i hi
  rw [← getLsbD_pack_byteBits (w := 8) a hi, ← getLsbD_pack_byteBits (w := 8) b hi, h]

lemma length_messageBits (xs : List (BitVec 8)) : (messageBits xs).length = 8 * xs.length := by
  induction xs with
  | nil => rfl
  | cons x xs ih =>
    rw [messageBits, List.flatMap_cons, List.length_append, length_byteBits, List.length_cons]
    rw [messageBits] at ih
    omega

/-- A byte that is replaced is a burst. -/
lemma burst_of_byte {n : ℕ} (hn : 8 ≤ n) {a b : BitVec 8} (hne : a ≠ b)
    (pre post : List (BitVec 8)) :
    Burst (8 * pre.length) n (messageBits (pre ++ a :: post)) (messageBits (pre ++ b :: post)) := by
  have hbits : ∀ c, messageBits (pre ++ c :: post) =
      messageBits pre ++ (byteBits c ++ messageBits post) := fun c => by
    rw [messageBits, List.flatMap_append, List.flatMap_cons]
    rfl
  have hlen := length_messageBits pre
  refine ⟨by simp [length_messageBits], ?_, ?_⟩
  · rw [hbits, hbits]
    intro h
    exact hne (byteBits_injective (List.append_cancel_right (List.append_cancel_left h)))
  · intro i h
    by_contra hout
    refine h ?_
    rw [hbits, hbits]
    by_cases hi : i < 8 * pre.length
    · rw [List.getElem?_append_left (by omega), List.getElem?_append_left (by omega)]
    · have ha := length_byteBits a
      have hb := length_byteBits b
      rw [List.getElem?_append_right (by omega), List.getElem?_append_right (by omega),
        List.getElem?_append_right (by omega), List.getElem?_append_right (by omega), ha, hb]

/-- If the lowest bits are zero, the register only moves. -/
lemma iterate_shift_of_low {k : ℕ} {z : BitVec w} (h : ∀ i < k, z.getLsbD i = false) :
    (shift poly)^[k] z = z >>> k := by
  induction k generalizing z with
  | zero => simp
  | succ k ih =>
    have hz : shift poly z = z >>> 1 := by
      rw [shift, h 0 (Nat.succ_pos k), if_neg Bool.false_ne_true]
      exact BitVec.xor_zero
    have hlow : ∀ i < k, (z >>> 1).getLsbD i = false := by
      intro i hi
      rw [BitVec.getLsbD_ushiftRight]
      exact h _ (by omega)
    rw [Function.iterate_succ_apply, hz, ih hlow, Nat.add_comm, BitVec.shiftRight_add]

/-- A byte at a time. -/
lemma check_byteBits (hw : 8 ≤ w) {table : List (BitVec w)} (htable : Table poly table)
    (r : BitVec w) (b : BitVec 8) :
    check poly r (byteBits b) = tableStep table r b := by
  rw [tableStep]
  set x := r ^^^ b.setWidth w
  set low : BitVec w := (x.setWidth 8).setWidth w
  have hpack : r ^^^ pack (byteBits b) = x := by
    have hb : pack (byteBits b) = b.setWidth w := by
      apply BitVec.eq_of_getLsbD_eq
      intro i hi
      rw [getLsbD_pack_byteBits b hi, BitVec.getLsbD_setWidth]
      simp [hi]
    rw [hb]
  have hlow : table.getD (x.setWidth 8).toNat 0 = (shift poly)^[8] low := by
    rw [List.getD_eq_getElem?_getD, htable _ (x.setWidth 8).isLt, Option.getD_some,
      BitVec.ofNat_toNat]
  have hbits : ∀ i, low.getLsbD i = (decide (i < 8) && x.getLsbD i) := by
    intro i
    rw [BitVec.getLsbD_setWidth, BitVec.getLsbD_setWidth]
    by_cases hi : i < w
    · simp [hi]
    · simp [hi, BitVec.getLsbD_of_ge x i (by omega)]
  have hhigh : (x ^^^ low) >>> 8 = r >>> 8 := by
    apply BitVec.eq_of_getLsbD_eq
    intro i hi
    have hge : ¬ 8 + i < 8 := by omega
    simp only [BitVec.getLsbD_ushiftRight, BitVec.getLsbD_xor, hbits, x, BitVec.getLsbD_setWidth,
      BitVec.getLsbD_of_ge b (8 + i) (by omega), hge, decide_false, Bool.false_and, Bool.and_false,
      Bool.xor_false]
  have hsplit : x = low ^^^ (x ^^^ low) := by
    rw [BitVec.xor_comm x, ← BitVec.xor_assoc, BitVec.xor_self]
    exact (BitVec.zero_xor).symm
  have hiterate : (shift poly)^[8] (x ^^^ low) = (x ^^^ low) >>> 8 :=
    iterate_shift_of_low fun i hi => by simp [hbits, hi]
  rw [check_eq_iterate ((length_byteBits b).le.trans hw), hpack, length_byteBits, hlow, ← hhigh,
    ← hiterate, ← (shift_linear poly).iterate 8, ← hsplit]

/-- A message, a byte at a time. -/
theorem check_messageBits (hw : 8 ≤ w) {table : List (BitVec w)} (htable : Table poly table)
    (r : BitVec w) (xs : List (BitVec 8)) :
    check poly r (messageBits xs) = xs.foldl (tableStep table) r := by
  induction xs generalizing r with
  | nil => rfl
  | cons b xs ih =>
    rw [messageBits, List.flatMap_cons, check_append, List.foldl_cons, ← check_byteBits hw htable]
    exact ih _

end Core.Crc
