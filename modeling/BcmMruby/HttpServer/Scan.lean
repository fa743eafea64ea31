import BcmMruby.HttpServer.Request

/-!
# What the test for the end of a request reads

The test indexes `reqbuff` with the length of the segment, which is that of the pbuf and not the one
that has been copied, and it takes that length from the pbuf again after `pbuf_free`. Which of its
reads are made depends on the bytes read, since `&&` and `||` stop early.
-/

namespace BcmMruby.HttpServer.Scan

open Core

/-- The accesses of `httpsvr_recv` to the pbuf, and those of the test to `reqbuff`. -/
inductive Access where
  /-- `p->tot_len`. -/
  | totLen
  /-- `pbuf_copy_partial`. -/
  | copy
  /-- `pbuf_free`. -/
  | free
  | reqbuff (i : ℤ)
  deriving DecidableEq

/-- The value of a condition and the accesses made for it. -/
abbrev Traced := Bool × List Access

/-- `reqbuff[p->tot_len - k] == c`. -/
def look (reqbuff : ℤ → Byte) (totLen k : ℕ) (c : Byte) : Traced :=
  (reqbuff (totLen - k) = c, [.totLen, .reqbuff (totLen - k)])

/-- `a && b`. -/
def both (a b : Traced) : Traced := if a.1 then (b.1, a.2 ++ b.2) else a

/-- `a || b`. -/
def either (a b : Traced) : Traced := if a.1 then a else (b.1, a.2 ++ b.2)

/-- The test. -/
def test (reqbuff : ℤ → Byte) (totLen : ℕ) : Traced :=
  let at_ := look reqbuff totLen
  either (both (at_ 2 10) (at_ 1 10))
    (both (both (both (at_ 4 13) (at_ 3 10)) (at_ 2 13)) (at_ 1 10))

lemma test_fst (reqbuff : ℤ → Byte) (totLen : ℕ) :
    (test reqbuff totLen).1 = endOfRequest reqbuff totLen := by
  have hboth : ∀ a b, (both a b).1 = (a.1 && b.1) := by
    intro a b
    cases ha : a.1 <;> simp [both, ha]
  have heither : ∀ a b, (either a b).1 = (a.1 || b.1) := by
    intro a b
    cases ha : a.1 <;> simp [either, ha]
  simp only [test, heither, hboth, look, endOfRequest, Bool.and_assoc]
  rfl

/-- `reqbuff` and the memory around it when the test runs. -/
def scanned (reqbuff : ℕ → Byte) (around : ℤ → Byte) (seg : List Byte) : ℤ → Byte :=
  indexed (store reqbuff 0 (seg.take reqbuffSize)) around

/-- The accesses of the branch of `ES_ACCEPTED` before the test: `reqlen`, the copy and
`pbuf_free`. -/
def taken (seg : List Byte) : List Access :=
  .totLen :: ((if seg.length > reqbuffSize then [] else [.totLen]) ++ [.copy, .free])

/-- The branch up to the test. -/
def firstSegment (reqbuff : ℕ → Byte) (around : ℤ → Byte) (seg : List Byte) : Traced :=
  let (found, reads) := test (scanned reqbuff around seg) seg.length
  (found, taken seg ++ reads)

/-- The pbuf is not used once it has been freed. -/
def Fresh (accesses : List Access) : Prop :=
  ∀ before after, accesses = before ++ .free :: after → .totLen ∉ after ∧ .copy ∉ after

/-- `reqbuff[i]` holds a byte of the segment. -/
def OfSegment (seg : List Byte) (i : ℤ) : Prop := 0 ≤ i ∧ i < seg.length ∧ i < reqbuffSize

def Inside (seg : List Byte) (accesses : List Access) : Prop :=
  ∀ i, .reqbuff i ∈ accesses → OfSegment seg i

structure Correct (seg : List Byte) (result : Traced) : Prop where
  fresh : Fresh result.2
  inside : Inside seg result.2
  answer : result.1 = true ↔ EndsEmpty seg

/-- The lengths for which the reads stay inside, and for the others what makes them stop early. -/
def StopsInside (seg : List Byte) : Prop :=
  (4 ≤ seg.length ∧ seg.length ≤ reqbuffSize) ∨
    ((seg.length = 2 ∨ seg.length = 3) ∧ [10, 10] <:+ seg) ∨
    (seg.length = reqbuffSize + 1 ∧ seg.getD 1023 0 ≠ 10 ∧
      ¬ (seg.getD 1021 0 = 13 ∧ seg.getD 1022 0 = 10 ∧ seg.getD 1023 0 = 13))

/-! ### Which reads are made -/

/-- The byte `k` places before the end is in `reqbuff`. -/
def Within (seg : List Byte) (k : ℕ) : Prop := k ≤ seg.length ∧ seg.length < reqbuffSize + k

lemma inside_append {seg : List Byte} {as bs : List Access} :
    Inside seg (as ++ bs) ↔ Inside seg as ∧ Inside seg bs := by
  simp only [Inside, List.mem_append, or_imp, forall_and]

lemma inside_both {seg : List Byte} {a b : Traced} :
    Inside seg (both a b).2 ↔ Inside seg a.2 ∧ (a.1 = true → Inside seg b.2) := by
  cases ha : a.1 <;> simp [both, ha, inside_append]

lemma inside_either {seg : List Byte} {a b : Traced} :
    Inside seg (either a b).2 ↔ Inside seg a.2 ∧ (a.1 = false → Inside seg b.2) := by
  cases ha : a.1 <;> simp [either, ha, inside_append]

lemma inside_look {seg : List Byte} (reqbuff : ℤ → Byte) {k : ℕ} (hk : 0 < k) (c : Byte) :
    Inside seg (look reqbuff seg.length k c).2 ↔ Within seg k := by
  have hone : Inside seg (look reqbuff seg.length k c).2 ↔ OfSegment seg (seg.length - k) := by
    simp [Inside, look]
  rw [hone, OfSegment, Within]
  omega

/-- The byte `k` places before the end, where the test finds it. -/
lemma scanned_eq {seg : List Byte} (reqbuff : ℕ → Byte) (around : ℤ → Byte) {k : ℕ} (hk : 0 < k)
    (h : Within seg k) :
    scanned reqbuff around seg (seg.length - k) = seg.getD (seg.length - k) 0 := by
  obtain ⟨hle, hlt⟩ := h
  have hcast : (seg.length : ℤ) - k = ((seg.length - k : ℕ) : ℤ) := by omega
  have hi : seg.length - k < (seg.take reqbuffSize).length := by
    rw [List.length_take]
    omega
  rw [scanned, hcast, indexed_store reqbuff around (by simp) hi, List.getD_eq_getElem?_getD,
    List.getD_eq_getElem?_getD, List.getElem?_take_of_lt (by omega)]

/-- The reads of the test, in the order in which the bytes decide about them. -/
lemma inside_test {seg : List Byte} (b : ℤ → Byte) (n : ℤ) (hn : n = seg.length) :
    Inside seg (test b seg.length).2 ↔
      (Within seg 2 ∧ (b (n - 2) = 10 → Within seg 1)) ∧
        (¬ (b (n - 2) = 10 ∧ b (n - 1) = 10) →
          ((Within seg 4 ∧ (b (n - 4) = 13 → Within seg 3)) ∧
            (b (n - 4) = 13 ∧ b (n - 3) = 10 → Within seg 2)) ∧
          ((b (n - 4) = 13 ∧ b (n - 3) = 10) ∧ b (n - 2) = 13 → Within seg 1)) := by
  have hboth : ∀ a c, (both a c).1 = true ↔ a.1 = true ∧ c.1 = true := by
    intro a c
    cases ha : a.1 <;> simp [both, ha]
  simp only [test, inside_either, inside_both, inside_look b (by decide : 0 < 1),
    inside_look b (by decide : 0 < 2), inside_look b (by decide : 0 < 3),
    inside_look b (by decide : 0 < 4), ← Bool.not_eq_true, hboth]
  simp only [look, decide_eq_true_eq, hn, Nat.cast_ofNat, Nat.cast_one]

lemma endsEmpty_two {seg : List Byte} (h : 2 ≤ seg.length) :
    [10, 10] <:+ seg ↔ seg.getD (seg.length - 2) 0 = 10 ∧ seg.getD (seg.length - 1) 0 = 10 := by
  obtain ⟨pre, a, b, rfl⟩ : ∃ pre a b, seg = pre ++ [a, b] := by
    obtain ⟨a, b, hlast⟩ : ∃ a b, seg.drop (seg.length - 2) = [a, b] := by
      have hlen : (seg.drop (seg.length - 2)).length = 2 := by
        rw [List.length_drop]
        omega
      match seg.drop (seg.length - 2), hlen with
      | [a, b], _ => exact ⟨a, b, rfl⟩
    exact ⟨seg.take (seg.length - 2), a, b, by rw [← hlast, List.take_append_drop]⟩
  rw [suffix_append_iff (by rfl)]
  simp [eq_comm]

/-- The test stays inside the segment for these segments and for no others. -/
lemma inside_iff (reqbuff : ℕ → Byte) (around : ℤ → Byte) (seg : List Byte) :
    Inside seg (test (scanned reqbuff around seg) seg.length).2 ↔ StopsInside seg := by
  rw [inside_test _ _ rfl]
  have hbyte : ∀ k > 0, Within seg k →
      scanned reqbuff around seg (seg.length - k) = seg.getD (seg.length - k) 0 :=
    fun k hk h => scanned_eq reqbuff around hk h
  have h₁ := hbyte 1 (by decide)
  have h₂ := hbyte 2 (by decide)
  have h₃ := hbyte 3 (by decide)
  have h₄ := hbyte 4 (by decide)
  simp only [Nat.cast_ofNat, Nat.cast_one] at h₁ h₂ h₃ h₄
  have hsize : reqbuffSize = 1024 := rfl
  by_cases hmid : 4 ≤ seg.length ∧ seg.length ≤ reqbuffSize
  · have hall : ∀ k, 0 < k → k ≤ 4 → Within seg k := fun k hk hk4 => ⟨by omega, by omega⟩
    refine iff_of_true ?_ (Or.inl hmid)
    simp only [hall 1 (by decide) (by decide), hall 2 (by decide) (by decide),
      hall 3 (by decide) (by decide), hall 4 (by decide) (by decide), imp_true_iff, and_true]
  · by_cases htwo : seg.length = 2 ∨ seg.length = 3
    · have hw₁ : Within seg 1 := ⟨by omega, by omega⟩
      have hw₂ : Within seg 2 := ⟨by omega, by omega⟩
      have hw₄ : ¬ Within seg 4 := fun h => absurd h.1 (by omega)
      have hlong : seg.length ≠ reqbuffSize + 1 := by omega
      have hend := endsEmpty_two (by omega : 2 ≤ seg.length)
      simp only [StopsInside, hmid, htwo, hlong, hw₁, hw₂, hw₄, hend, h₁ hw₁, h₂ hw₂, false_and,
        false_or, or_false, true_and, imp_true_iff, imp_false, not_not]
    · by_cases hlong : seg.length = reqbuffSize + 1
      · have hw₁ : ¬ Within seg 1 := fun h => absurd h.2 (by omega)
        have hw₂ : Within seg 2 := ⟨by omega, by omega⟩
        have hw₃ : Within seg 3 := ⟨by omega, by omega⟩
        have hw₄ : Within seg 4 := ⟨by omega, by omega⟩
        have e₂ : seg.length - 2 = 1023 := by omega
        have e₃ : seg.length - 3 = 1022 := by omega
        have e₄ : seg.length - 4 = 1021 := by omega
        rw [e₂] at h₂
        rw [e₃] at h₃
        rw [e₄] at h₄
        simp only [StopsInside, hmid, htwo, and_iff_right hlong, hw₁, hw₂, hw₃, hw₄, h₂ hw₂, h₃ hw₃,
          h₄ hw₄, false_and, false_or, true_and, imp_true_iff, imp_false, and_true, and_assoc]
        -- the second look at the last byte but one is made only if the first one was in vain
        exact and_congr_right fun hne => ⟨fun H => H fun heq => hne heq.1, fun H _ => H⟩
      · refine iff_of_false (fun h => ?_) ?_
        · obtain ⟨hle, hlt⟩ := h.1.1
          omega
        · rintro (h | ⟨h, -⟩ | ⟨h, -⟩)
          · exact hmid h
          · exact htwo h
          · exact hlong h

/-- A test that stays inside is right. -/
lemma StopsInside.answer {seg : List Byte} (h : StopsInside seg) (reqbuff : ℕ → Byte)
    (around : ℤ → Byte) :
    endOfRequest (scanned reqbuff around seg) seg.length = true ↔ EndsEmpty seg := by
  have hsize : reqbuffSize = 1024 := rfl
  have hbyte : ∀ k > 0, Within seg k →
      scanned reqbuff around seg (seg.length - k) = seg.getD (seg.length - k) 0 :=
    fun k hk h => scanned_eq reqbuff around hk h
  have h₁ := hbyte 1 (by decide)
  have h₂ := hbyte 2 (by decide)
  simp only [Nat.cast_ofNat, Nat.cast_one] at h₁ h₂
  rcases h with ⟨hshort, hlong⟩ | ⟨hlen, hend⟩ | ⟨hlen, hnot, hnot'⟩
  · rw [scanned, List.take_of_length_le hlong]
    exact endOfRequest_iff reqbuff around hshort hlong
  · obtain ⟨hlast₂, hlast₁⟩ := (endsEmpty_two (by omega)).mp hend
    refine iff_of_true ?_ (Or.inl hend)
    rw [endOfRequest, h₂ ⟨by omega, by omega⟩, h₁ ⟨by omega, by omega⟩, hlast₂, hlast₁]
    rfl
  · have h₃ := hbyte 3 (by decide) ⟨by omega, by omega⟩
    have h₄ := hbyte 4 (by decide) ⟨by omega, by omega⟩
    simp only [Nat.cast_ofNat] at h₃ h₄
    have e₂ : seg.length - 2 = 1023 := by omega
    have e₃ : seg.length - 3 = 1022 := by omega
    have e₄ : seg.length - 4 = 1021 := by omega
    apply iff_of_false
    · rw [endOfRequest, h₄, h₃, h₂ ⟨by omega, by omega⟩, e₂, e₃, e₄]
      simp only [Bool.or_eq_true, Bool.and_eq_true, decide_eq_true_eq]
      rintro (⟨hten, -⟩ | ⟨hcr, -⟩)
      · exact hnot hten
      · exact hnot' ⟨hcr.1.1, hcr.1.2, hcr.2⟩
    · rintro (hend | ⟨pre, rfl⟩)
      · have hten := ((endsEmpty_two (by omega)).mp hend).1
        exact hnot (e₂ ▸ hten)
      · have hpre : pre.length = 1021 := by
          rw [List.length_append] at hlen
          exact Nat.add_right_cancel hlen
        exact hnot' (by simp [hpre])

lemma mem_both {x : Access} {a : Traced} (b : Traced) (h : x ∈ a.2) : x ∈ (both a b).2 := by
  cases ha : a.1 <;> simp [both, ha, h]

lemma mem_either {x : Access} {a : Traced} (b : Traced) (h : x ∈ a.2) : x ∈ (either a b).2 := by
  cases ha : a.1 <;> simp [either, ha, h]

/-- However the segment, its length is taken from the pbuf after `pbuf_free`. -/
lemma not_fresh (reqbuff : ℕ → Byte) (around : ℤ → Byte) (seg : List Byte) :
    ¬ Fresh (firstSegment reqbuff around seg).2 := by
  intro h
  have hread : .totLen ∈ (test (scanned reqbuff around seg) seg.length).2 :=
    mem_either _ (mem_both _ (by simp [look]))
  have hsplit : (firstSegment reqbuff around seg).2 =
      (.totLen :: ((if seg.length > reqbuffSize then [] else [.totLen]) ++ [.copy])) ++
        .free :: (test (scanned reqbuff around seg) seg.length).2 := by
    simp [firstSegment, taken]
  exact (h _ _ hsplit).1 hread

/-- Apart from the accesses, what `httpsvr_recv` goes by. -/
lemma firstSegment_fst (reqbuff : ℕ → Byte) (env : Env) (seg : List Byte) :
    ((firstSegment reqbuff env.around seg).1 && env.alloc.isSome) = answered reqbuff env seg := by
  rw [firstSegment, test_fst]
  rfl

/-- On no segment does the branch do all that it should, since it reads `p->tot_len` from a pbuf
that it has freed. The reads of the test stay inside the segment if it has between 4 and 1024
bytes, or if the bytes make the test stop early; and then its answer is right. -/
theorem endOfRequest_law (reqbuff : ℕ → Byte) (around : ℤ → Byte) (seg : List Byte) :
    ¬ Correct seg (firstSegment reqbuff around seg) ∧
      (Inside seg (firstSegment reqbuff around seg).2 ↔ StopsInside seg) ∧
      (StopsInside seg → ((firstSegment reqbuff around seg).1 = true ↔ EndsEmpty seg)) := by
  refine ⟨fun h => not_fresh reqbuff around seg h.fresh, ?_, fun h => ?_⟩
  · rw [← inside_iff reqbuff around, firstSegment, inside_append]
    refine and_iff_right fun i hi => ?_
    rw [taken] at hi
    split_ifs at hi <;> simp at hi
  · rw [firstSegment, test_fst]
    exact h.answer reqbuff around

/-- A first segment of one byte makes the test read the byte before `reqbuff`. -/
theorem test_reads_before_reqbuff :
    .reqbuff (-1) ∈ (firstSegment (fun _ => 0) (fun _ => 0) [10]).2 ∧
      ¬ Correct [10] (firstSegment (fun _ => 0) (fun _ => 0) [10]) := by
  have hread : .reqbuff (-1) ∈ (firstSegment (fun _ => 0) (fun _ => 0) [10]).2 := by decide
  exact ⟨hread, fun h => absurd (h.inside _ hread).1 (by decide)⟩

end BcmMruby.HttpServer.Scan
