import Mathlib.Tactic

/-!
# The tick counter and the clock

`bcm_timer.c`. `jiffies` counts timer interrupts, a hundred in a second; `starttime` is the Unix
time at which it was last set to zero. All registers and counters have 32 bits.
-/

namespace BcmMruby

structure Timer where
  interval : BitVec 32
  alarm : BitVec 32
  /-- The compare register, as `_setalarm` leaves it. -/
  compare : BitVec 32
  jiffies : BitVec 32
  starttime : BitVec 32
  wdticks : BitVec 32
  wdcount : BitVec 32
  /-- The register at `CHIPC_WATCHDOG`. -/
  watchdog : BitVec 32
  deriving DecidableEq

namespace Timer

/-- `timer_isr`, after its call of `net_poll`. -/
def timerIsr (t : Timer) : Timer :=
  let t := { t with
    alarm := t.alarm + t.interval
    compare := t.alarm + t.interval
    jiffies := t.jiffies + 1 }
  if t.wdticks ≠ 0 then
    if t.wdcount = 0 then { t with watchdog := 1 } else { t with wdcount := t.wdcount - 1 }
  else t

/-- The result is an `int`: the product wraps as an unsigned number and is then read as a signed
one. -/
def sysNow (t : Timer) : ℤ := (t.jiffies * 10).toInt

def resetCounter (t : Timer) : Timer := { t with jiffies := 0 }

/-- C division rounds towards zero. -/
def time (t : Timer) : BitVec 32 := BitVec.ofInt 32 ((sysNow t).tdiv 1000) + t.starttime

@[simp] lemma jiffies_timerIsr (t : Timer) : (timerIsr t).jiffies = t.jiffies + 1 := by
  simp only [timerIsr]
  split_ifs <;> rfl

@[simp] lemma starttime_timerIsr (t : Timer) : (timerIsr t).starttime = t.starttime := by
  simp only [timerIsr]
  split_ifs <;> rfl

@[simp] lemma interval_timerIsr (t : Timer) : (timerIsr t).interval = t.interval := by
  simp only [timerIsr]
  split_ifs <;> rfl

@[simp] lemma alarm_timerIsr (t : Timer) : (timerIsr t).alarm = t.alarm + t.interval := by
  simp only [timerIsr]
  split_ifs <;> rfl

@[simp] lemma compare_timerIsr (t : Timer) : (timerIsr t).compare = t.alarm + t.interval := by
  simp only [timerIsr]
  split_ifs <;> rfl

@[simp] lemma wdticks_timerIsr (t : Timer) : (timerIsr t).wdticks = t.wdticks := by
  simp only [timerIsr]
  split_ifs <;> rfl

/-- The milliseconds as the unsigned product has them. -/
def millis (t : Timer) : ℕ := 10 * t.jiffies.toNat % 2 ^ 32

/-- They are read with their sign. -/
lemma sysNow_eq (t : Timer) :
    sysNow t = if millis t < 2 ^ 31 then (millis t : ℤ) else (millis t : ℤ) - 2 ^ 32 := by
  have hmul : (t.jiffies * 10).toNat = millis t := by
    simp [millis, BitVec.toNat_mul, Nat.mul_comm]
  rw [sysNow, BitVec.toInt_eq_toNat_cond, hmul]
  split_ifs <;> omega

lemma sysNow_tdiv_of_lt {t : Timer} (h : 10 * t.jiffies.toNat < 2 ^ 31) :
    (sysNow t).tdiv 1000 = (t.jiffies.toNat / 100 : ℕ) := by
  have hm : millis t = 10 * t.jiffies.toNat := Nat.mod_eq_of_lt (by omega)
  rw [sysNow_eq, if_pos (by omega), Int.tdiv_eq_ediv_of_nonneg (by omega)]
  omega

/-- Too small, but by less than the whole range. -/
lemma sysNow_tdiv_of_le {t : Timer} (h : 2 ^ 31 ≤ 10 * t.jiffies.toNat) :
    (sysNow t).tdiv 1000 < (t.jiffies.toNat / 100 : ℕ) ∧ -2147483 ≤ (sysNow t).tdiv 1000 := by
  have hj := t.jiffies.isLt
  have hm : millis t = 10 * t.jiffies.toNat % 2 ^ 32 := rfl
  rw [sysNow_eq]
  split_ifs with hsmall
  · have hwrap : millis t + 2 ^ 32 ≤ 10 * t.jiffies.toNat := by omega
    rw [Int.tdiv_eq_ediv_of_nonneg (by omega)]
    omega
  · have hneg : (millis t : ℤ) - 2 ^ 32 = -(2 ^ 32 - millis t) := by omega
    rw [hneg, Int.neg_tdiv, Int.tdiv_eq_ediv_of_nonneg (by omega)]
    omega

/-- The clock shows `starttime` and a second for every hundred ticks as long as the number of
milliseconds is a nonnegative `int`, and at no other time. -/
lemma time_eq_iff (t : Timer) :
    (time t).toNat = (t.starttime.toNat + t.jiffies.toNat / 100) % 2 ^ 32 ↔
      10 * t.jiffies.toNat < 2 ^ 31 := by
  have hj := t.jiffies.isLt
  have hstart := t.starttime.isLt
  have htime : ((time t).toNat : ℤ) =
      ((sysNow t).tdiv 1000 + t.starttime.toNat) % 2 ^ 32 := by
    rw [time, BitVec.toNat_add, BitVec.toNat_ofInt]
    omega
  constructor
  · intro h
    by_contra hle
    obtain ⟨hlt, hge⟩ := sysNow_tdiv_of_le (t := t) (by omega)
    omega
  · intro hlt
    rw [sysNow_tdiv_of_lt hlt] at htime
    omega

/-- Below the bound a tick keeps the time or adds a second. -/
lemma time_timerIsr {t : Timer} (h : 10 * (t.jiffies.toNat + 1) < 2 ^ 31) :
    time (timerIsr t) = time t ∨ time (timerIsr t) = time t + 1 := by
  have hj : (t.jiffies + 1).toNat = t.jiffies.toNat + 1 := by
    rw [BitVec.toNat_add]
    have hone : (1 : BitVec 32).toNat = 1 := rfl
    omega
  have hbefore := (time_eq_iff t).mpr (by omega)
  have hafter := (time_eq_iff (timerIsr t)).mpr (by rw [jiffies_timerIsr, hj]; exact h)
  rw [jiffies_timerIsr, starttime_timerIsr, hj] at hafter
  have hsucc : (time t + 1).toNat = ((time t).toNat + 1) % 2 ^ 32 := by
    simp [BitVec.toNat_add]
  by_cases hsec : (t.jiffies.toNat + 1) / 100 = t.jiffies.toNat / 100
  · left
    apply BitVec.eq_of_toNat_eq
    rw [hafter, hbefore, hsec]
  · right
    apply BitVec.eq_of_toNat_eq
    rw [hafter, hsucc, hbefore]
    omega

end Timer

end BcmMruby
