import BcmMruby.Core.Run

/-!
# Waiting by the cycle counter

`cfe_usleep`, on which `delay_ms` and `udelay` are built, compares samples of the 32-bit cycle
counter with the first one and with the target, as unsigned numbers. The counter runs on between
two reads, and an interrupt can make it run far.
-/

namespace BcmMruby.Timer.Usleep

open Core

/-- Which of the loops reads the counter next. -/
inductive Pc where
  /-- `while (_getticks() > now)`. -/
  | wraparound
  /-- `while (_getticks() < newcount)`. -/
  | target
  | done
  deriving DecidableEq

structure State where
  now : BitVec 32
  newcount : BitVec 32
  pc : Pc
  /-- The counter at the last read. -/
  count : BitVec 32
  /-- The counts that it has made since the first one. -/
  elapsed : ℕ
  deriving DecidableEq

/-- `cfe_usleep`, up to its first loop. -/
def cfeUsleep (now usec clocksPerUsec : BitVec 32) : State :=
  let newcount := now + usec * clocksPerUsec
  ⟨now, newcount, if newcount < now then .wraparound else .target, now, 0⟩

/-- The counter makes `n` counts and is read. -/
def step (s : State) (n : ℕ) : Option State :=
  let ticks := s.count + BitVec.ofNat 32 n
  let s' := { s with count := ticks, elapsed := s.elapsed + n }
  match s.pc with
  | .wraparound => some { s' with pc := if s.now < ticks then .wraparound else .target }
  | .target => some { s' with pc := if ticks < s.newcount then .target else .done }
  | .done => none

/-- The counts to wait. -/
def State.toWait (s : State) : ℕ := (s.newcount - s.now).toNat

/-- The loops end with this read exactly if the counts to wait have been made. -/
def Correct (s : State) (n : ℕ) : Prop :=
  ∀ s', step s n = some s' → (s'.pc = .done ↔ s.toWait ≤ s.elapsed + n)

instance (s : State) (n : ℕ) : Decidable (Correct s n) :=
  match h : step s n with
  | some s' => decidable_of_iff (s'.pc = .done ↔ s.toWait ≤ s.elapsed + n) (by simp [Correct, h])
  | none => .isTrue (by simp [Correct, h])

/-- The counts are fewer than half the range of the counter. -/
def Advances (_ : State) (n : ℕ) : Prop := n < 2 ^ 31

instance (s : State) (n : ℕ) : Decidable (Advances s n) := inferInstanceAs (Decidable (_ < _))

/-- No read is the first one behind two marks, the end of the counter's range and the target; and
where the range ends before the target, a first read that finds the counter unmoved has the next
one behind that end. -/
def NoJump (s : State) (n : ℕ) : Prop :=
  match s.pc with
  | .wraparound => s.elapsed + n < s.toWait
  | .target =>
    if s.newcount < s.now then s.elapsed = 0 → 2 ^ 32 ≤ s.now.toNat + n
    else s.now.toNat + s.elapsed + n < 2 ^ 32
  | .done => True

instance (s : State) (n : ℕ) : Decidable (NoJump s n) :=
  match h : s.pc with
  | .wraparound => decidable_of_iff (s.elapsed + n < s.toWait) (by rw [NoJump, h])
  | .target =>
    decidable_of_iff
      (if s.newcount < s.now then s.elapsed = 0 → 2 ^ 32 ≤ s.now.toNat + n
        else s.now.toNat + s.elapsed + n < 2 ^ 32)
      (by rw [NoJump, h])
  | .done => .isTrue (by rw [NoJump, h]; trivial)

/-- What the loops have seen, as long as they have not ended too early or too late. -/
structure Inv (s : State) : Prop where
  count : s.count = s.now + BitVec.ofNat 32 s.elapsed
  toWait : s.toWait < 2 ^ 31
  wraparound : s.pc = .wraparound → s.newcount < s.now ∧ s.now.toNat + s.elapsed < 2 ^ 32
  target : s.pc = .target → s.elapsed ≤ s.toWait ∧
    (s.newcount < s.now → s.elapsed = 0 ∨ 2 ^ 32 ≤ s.now.toNat + s.elapsed)

lemma toNat_count {s : State} (hI : Inv s) (n : ℕ) :
    (s.count + BitVec.ofNat 32 n).toNat = (s.now.toNat + s.elapsed + n) % 2 ^ 32 := by
  rw [hI.count, BitVec.toNat_add, BitVec.toNat_add, BitVec.toNat_ofNat, BitVec.toNat_ofNat]
  omega

lemma toNat_newcount (s : State) :
    s.newcount.toNat = (s.now.toNat + s.toWait) % 2 ^ 32 := by
  have hn := s.newcount.isLt
  have hnow := s.now.isLt
  rw [State.toWait, BitVec.toNat_sub]
  omega

/-- The target is behind the end of the range. -/
lemma newcount_lt_iff {s : State} (hI : Inv s) :
    s.newcount < s.now ↔ 2 ^ 32 ≤ s.now.toNat + s.toWait := by
  have hnow := s.now.isLt
  have hwait := hI.toWait
  rw [BitVec.lt_def, toNat_newcount]
  omega

/-- The state behind a read. -/
def State.read (s : State) (n : ℕ) (pc : Pc) : State :=
  { s with count := s.count + BitVec.ofNat 32 n, elapsed := s.elapsed + n, pc }

lemma inv_read {s : State} {n : ℕ} {pc : Pc} (hI : Inv s)
    (hwraparound : pc = .wraparound → s.newcount < s.now ∧ s.now.toNat + s.elapsed + n < 2 ^ 32)
    (htarget : pc = .target → s.elapsed + n ≤ s.toWait ∧
      (s.newcount < s.now → s.elapsed + n = 0 ∨ 2 ^ 32 ≤ s.now.toNat + s.elapsed + n)) :
    Inv (s.read n pc) where
  count := by
    rw [State.read, hI.count, BitVec.ofNat_add, BitVec.add_assoc]
  toWait := hI.toWait
  wraparound h := by
    rw [State.read, ← Nat.add_assoc]
    exact hwraparound h
  target h := by
    rw [State.read, ← Nat.add_assoc]
    exact htarget h

/-- The first loop goes on while the counter has moved and not passed the end of its range. -/
lemma now_lt_count_iff {s : State} {n : ℕ} (hI : Inv s) (hpc : s.pc = .wraparound)
    (hn : n < 2 ^ 31) :
    s.now < s.count + BitVec.ofNat 32 n ↔
      s.elapsed + n ≠ 0 ∧ s.now.toNat + s.elapsed + n < 2 ^ 32 := by
  obtain ⟨hlt, hrange⟩ := hI.wraparound hpc
  have hnow := s.now.isLt
  have hwait := hI.toWait
  rw [newcount_lt_iff hI] at hlt
  rw [BitVec.lt_def, toNat_count hI]
  omega

/-- It cannot end the wait. -/
lemma correct_wraparound {s : State} {n : ℕ} (hI : Inv s) (hpc : s.pc = .wraparound)
    (hn : n < 2 ^ 31) {s' : State} (hs : step s n = some s') :
    (Correct s n ↔ NoJump s n) ∧ (Correct s n → Inv s') := by
  obtain ⟨hlt, hrange⟩ := hI.wraparound hpc
  have hs' : s' = s.read n
      (if s.now < s.count + BitVec.ofNat 32 n then .wraparound else .target) := by
    simpa [step, hpc, State.read] using hs.symm
  have hnot : s'.pc ≠ .done := by
    rw [hs', State.read]
    split_ifs <;> simp
  have hcorrect : Correct s n ↔ s.elapsed + n < s.toWait := by
    simp [Correct, hs, hnot]
  refine ⟨by rw [hcorrect, NoJump, hpc], fun h => ?_⟩
  have hwait := hcorrect.mp h
  have hloop := now_lt_count_iff hI hpc hn
  rw [hs']
  split_ifs with hgt
  · exact inv_read hI (fun _ => ⟨hlt, (hloop.mp hgt).2⟩) nofun
  · refine inv_read hI nofun fun _ => ⟨hwait.le, fun _ => ?_⟩
    rw [hloop] at hgt
    omega

/-- The second loop ends with a sample from the target to the end of the range. -/
lemma count_lt_newcount_iff {s : State} {n : ℕ} (hI : Inv s) (hpc : s.pc = .target)
    (hn : n < 2 ^ 31) :
    (¬ s.count + BitVec.ofNat 32 n < s.newcount ↔ s.toWait ≤ s.elapsed + n) ↔ NoJump s n := by
  obtain ⟨hle, hbehind⟩ := hI.target hpc
  have hnow := s.now.isLt
  have hwait := hI.toWait
  rw [NoJump, hpc]
  simp only
  rw [newcount_lt_iff hI] at hbehind
  rw [BitVec.lt_def, toNat_count hI, toNat_newcount]
  split_ifs with hlt <;> rw [newcount_lt_iff hI] at hlt
  · specialize hbehind hlt
    omega
  · omega

lemma correct_target {s : State} {n : ℕ} (hI : Inv s) (hpc : s.pc = .target) (hn : n < 2 ^ 31)
    {s' : State} (hs : step s n = some s') :
    (Correct s n ↔ NoJump s n) ∧ (Correct s n → Inv s') := by
  obtain ⟨hle, hbehind⟩ := hI.target hpc
  have hs' : s' = s.read n
      (if s.count + BitVec.ofNat 32 n < s.newcount then .target else .done) := by
    simpa [step, hpc, State.read] using hs.symm
  have hdone : s'.pc = .done ↔ ¬ s.count + BitVec.ofNat 32 n < s.newcount := by
    rw [hs', State.read]
    split_ifs with h <;> simp [h]
  have hcorrect : Correct s n ↔ NoJump s n := by
    rw [← count_lt_newcount_iff hI hpc hn, ← hdone]
    simp [Correct, hs]
  refine ⟨hcorrect, fun h => ?_⟩
  have hend := (count_lt_newcount_iff hI hpc hn).mpr (hcorrect.mp h)
  rw [hs']
  split_ifs with hlt
  · have hearly : ¬ s.toWait ≤ s.elapsed + n := fun hreach => hend.mpr hreach hlt
    refine inv_read hI nofun fun _ => ⟨by omega, fun hnew => ?_⟩
    have hjump := hcorrect.mp h
    rw [NoJump, hpc] at hjump
    simp only [hnew, if_true] at hjump
    specialize hbehind hnew
    omega
  · exact inv_read hI nofun nofun

lemma toWait_cfeUsleep {usec clocksPerUsec : BitVec 32} (now : BitVec 32)
    (hwait : usec.toNat * clocksPerUsec.toNat < 2 ^ 31) :
    (cfeUsleep now usec clocksPerUsec).toWait = usec.toNat * clocksPerUsec.toNat := by
  rw [State.toWait, cfeUsleep, BitVec.add_comm, BitVec.add_sub_cancel, BitVec.toNat_mul]
  exact Nat.mod_eq_of_lt (by omega)

lemma inv_cfeUsleep {now usec clocksPerUsec : BitVec 32}
    (hwait : usec.toNat * clocksPerUsec.toNat < 2 ^ 31) :
    Inv (cfeUsleep now usec clocksPerUsec) where
  count := by simp [cfeUsleep]
  toWait := by rwa [toWait_cfeUsleep now hwait]
  wraparound h := by
    refine ⟨?_, now.isLt⟩
    by_contra hle
    simp only [cfeUsleep] at h hle
    simp [hle] at h
  target _ := ⟨Nat.zero_le _, fun _ => .inl rfl⟩

/-! ### Main result -/

/-- In a run of reads that each find the counter less than half its range ahead, the loops end
with the first read that finds the counts to wait made, exactly if no read jumps. -/
theorem correct_iff_noJump {now usec clocksPerUsec : BitVec 32}
    (hwait : usec.toNat * clocksPerUsec.toNat < 2 ^ 31) {ns : List ℕ}
    (hns : Throughout step Advances (cfeUsleep now usec clocksPerUsec) ns) :
    Throughout step Correct (cfeUsleep now usec clocksPerUsec) ns ↔
      Throughout step NoJump (cfeUsleep now usec clocksPerUsec) ns := by
  refine throughout_congr_of_throughout (fun s n s' hI hn hs => ?_) (inv_cfeUsleep hwait) hns
  cases hpc : s.pc with
  | wraparound => exact correct_wraparound hI hpc hn hs
  | target => exact correct_target hI hpc hn hs
  | done => simp [step, hpc] at hs

/-- A wait of a microsecond, 120 counts, over the end of the range: the counter is read every 50
counts. -/
theorem correct_iff_noJump_across :
    (run step (cfeUsleep (-100) 1 120) [50, 50, 50]).map (·.pc) = some .done ∧
      Throughout step Correct (cfeUsleep (-100) 1 120) [50, 50, 50] := by
  refine ⟨by decide, (correct_iff_noJump (by decide) ?_).mpr ?_⟩
  · decide
  · decide

/-- The same wait before that end, with an interrupt of a hundred microseconds: the first read
behind the target is behind the end as well, and looks like an early one. -/
theorem jump_misses_target :
    ¬ ∀ now usec clocksPerUsec : BitVec 32, usec.toNat * clocksPerUsec.toNat < 2 ^ 31 →
      ∀ ns, Throughout step Advances (cfeUsleep now usec clocksPerUsec) ns →
        Throughout step Correct (cfeUsleep now usec clocksPerUsec) ns := by
  intro h
  have hcorrect := h (-200) 1 120 (by decide) [12000] (by decide)
  revert hcorrect
  decide

end BcmMruby.Timer.Usleep
