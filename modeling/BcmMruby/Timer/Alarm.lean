import BcmMruby.Core.Run
import BcmMruby.Timer

/-!
# The alarm

The counter runs on whatever the program does, and requests the timer interrupt when it meets the
compare register; writing that register takes the request back. `timer_init` puts the first alarm
`interval` ticks ahead of the counter, `timer_isr` the next one `interval` ticks ahead of the last.
How long the interrupt is kept waiting and how long `net_poll` and the rest of `timer_isr` take are
chosen by the environment.
-/

namespace BcmMruby.Timer.Alarm

open Core

/-- What is left of `timer_init`, from where it enables the interrupt. -/
inductive Pc where
  | getTicks
  | setAlarm (ticks : BitVec 32)
  | done
  deriving DecidableEq

structure State where
  timer : Timer
  count : BitVec 32
  /-- The interrupt is requested, the counter having met the compare register so many ticks ago. -/
  met : Option ℕ
  pc : Pc
  deriving DecidableEq

/-- The ticks until the counter next meets the compare register. -/
def toMeet (s : State) : ℕ :=
  if s.timer.compare = s.count then 2 ^ 32 else (s.timer.compare - s.count).toNat

def elapse (s : State) (n : ℕ) : State := { s with
  count := s.count + BitVec.ofNat 32 n
  met := match s.met with
    | some m => some (m + n)
    | none => if toMeet s ≤ n then some (n - toMeet s) else none }

/-- `_setalarm`. -/
def setalarm (s : State) (ticks : BitVec 32) : State :=
  { s with timer := { s.timer with compare := ticks }, met := none }

/-- The whole of `timer_isr`: `poll` ticks go by in `net_poll` and `rest` ticks behind the call of
`_setalarm`. -/
def isr (s : State) (poll rest : ℕ) : State :=
  let s := elapse s poll
  elapse { s with timer := timerIsr s.timer, met := none } rest

inductive Event where
  /-- The next access of `timer_init`. -/
  | init
  | wait (n : ℕ)
  | isr (poll rest : ℕ)

def step (s : State) : Event → Option State
  | .init =>
    match s.pc with
    | .getTicks =>
      let alarm := s.count + s.timer.interval
      some { s with timer := { s.timer with alarm }, pc := .setAlarm alarm }
    | .setAlarm ticks => some { setalarm s ticks with pc := .done }
    | .done => none
  | .wait n => some (elapse s n)
  | .isr poll rest => if s.met ≠ none then some (isr s poll rest) else none

def clk (isbcm5354 : Bool) (sbCpuClock : ℤ) : ℤ :=
  if isbcm5354 then 240 * 1000 * 1000 else sbCpuClock

def ticksOf (clk : ℤ) : BitVec 32 := BitVec.ofInt 32 ((clk.tdiv 2).tdiv 100)

/-- `timer_init` has set `interval` and is about to enable the interrupt; the counter and the
compare register are as the boot loader left them. -/
def init (clk : ℤ) (t : Timer) (count : BitVec 32) (met : Option ℕ) : State :=
  ⟨{ t with interval := ticksOf clk }, count, met, .getTicks⟩

/-- The compare register is ahead of the counter, by an interval at most. -/
structure Ahead (s : State) : Prop where
  pos : 0 < (s.timer.compare - s.count).toNat
  le : (s.timer.compare - s.count).toNat ≤ s.timer.interval.toNat

/-- `timer_isr` returns with the alarm ahead, and the next interrupt is requested within an
interval from there. -/
def ReturnsAhead (s : State) : Event → Prop
  | .isr poll rest =>
    Ahead (isr s poll rest) ∧
      ∀ n ≥ s.timer.interval.toNat, (elapse (isr s poll rest) n).met ≠ none
  | _ => True

/-- How far the counter is past the last alarm. -/
def overdue (s : State) : ℕ := (s.count - s.timer.alarm).toNat

/-- `timer_isr` returns less than an interval after the alarm that it answers. -/
def InTime (s : State) : Event → Prop
  | .isr poll rest => (overdue s + poll + rest) % 2 ^ 32 < s.timer.interval.toNat
  | _ => True

@[simp] lemma timer_elapse (s : State) (n : ℕ) : (elapse s n).timer = s.timer := rfl

@[simp] lemma timer_isr (s : State) (poll rest : ℕ) :
    (isr s poll rest).timer = timerIsr s.timer := rfl

lemma count_isr (s : State) (poll rest : ℕ) :
    (isr s poll rest).count = s.count + BitVec.ofNat 32 (poll + rest) := by
  simp only [isr, elapse]
  rw [BitVec.add_assoc, BitVec.ofNat_add]

/-- An alarm that is ahead is met. -/
lemma Ahead.toMeet_le {s : State} (h : Ahead s) : toMeet s ≤ s.timer.interval.toNat := by
  rw [toMeet, if_neg]
  · exact h.le
  · intro heq
    have hpos := h.pos
    simp [heq] at hpos

lemma Ahead.met_elapse {s : State} (h : Ahead s) {n : ℕ} (hn : s.timer.interval.toNat ≤ n) :
    (elapse s n).met ≠ none := by
  have hle := h.toMeet_le.trans hn
  cases hmet : s.met <;> simp [elapse, hmet, hle]

/-- Stepping `i` on from a point that the counter has passed by `x`. -/
lemma ahead_iff (a i c : BitVec 32) :
    (0 < (a + i - c).toNat ∧ (a + i - c).toNat ≤ i.toNat) ↔ (c - a).toNat < i.toNat := by
  bv_omega

lemma ahead_isr_iff (s : State) (poll rest : ℕ) :
    Ahead (isr s poll rest) ↔ (overdue s + poll + rest) % 2 ^ 32 < s.timer.interval.toNat := by
  have hpast : (s.count + BitVec.ofNat 32 (poll + rest) - s.timer.alarm).toNat =
      (overdue s + poll + rest) % 2 ^ 32 := by
    rw [overdue]
    simp only [BitVec.toNat_sub, BitVec.toNat_add, BitVec.toNat_ofNat]
    omega
  have hcompare : (isr s poll rest).timer.compare = s.timer.alarm + s.timer.interval := by simp
  have hinterval : (isr s poll rest).timer.interval = s.timer.interval := by simp
  rw [← hpast, ← ahead_iff, ← count_isr, ← hcompare, ← hinterval]
  exact ⟨fun h => ⟨h.pos, h.le⟩, fun h => ⟨h.1, h.2⟩⟩

lemma returnsAhead_iff (s : State) (e : Event) : ReturnsAhead s e ↔ InTime s e := by
  cases e with
  | isr poll rest =>
    rw [ReturnsAhead, InTime, ← ahead_isr_iff]
    refine and_iff_left_of_imp fun h n hn => h.met_elapse ?_
    simpa using hn
  | _ => rfl

/-! ### The delay of the interrupt -/

/-- The compare register holds the last alarm, and `met` counts from there. -/
structure Synced (s : State) : Prop where
  done : s.pc = .done
  compare : s.timer.compare = s.timer.alarm
  met : ∀ m, s.met = some m → s.count = s.timer.compare + BitVec.ofNat 32 m

lemma count_add_toMeet (s : State) : s.count + BitVec.ofNat 32 (toMeet s) = s.timer.compare := by
  rw [toMeet]
  split_ifs with heq
  · simp [heq]
  · bv_omega

lemma Synced.elapse {s : State} (h : Synced s) (n : ℕ) : Synced (elapse s n) := by
  refine ⟨h.done, h.compare, ?_⟩
  intro m hm
  simp only [Alarm.elapse] at hm ⊢
  split at hm
  · next k hk =>
    cases hm
    rw [h.met k hk, BitVec.ofNat_add, BitVec.add_assoc]
  · split_ifs at hm with hle
    cases hm
    rw [← count_add_toMeet s, BitVec.add_assoc, ← BitVec.ofNat_add, Nat.add_sub_cancel' hle]

lemma Synced.isr {s : State} (h : Synced s) (poll rest : ℕ) : Synced (isr s poll rest) := by
  have hset : Synced { Alarm.elapse s poll with timer := timerIsr s.timer, met := none } :=
    ⟨h.done, by simp, fun _ hm => (nomatch hm)⟩
  exact hset.elapse rest

lemma Synced.step {s s' : State} {e : Event} (h : Synced s) (hs : step s e = some s') :
    Synced s' := by
  cases e with
  | init => simp [Alarm.step, h.done] at hs
  | wait n =>
    cases hs
    exact h.elapse n
  | isr poll rest =>
    simp only [Alarm.step] at hs
    split_ifs at hs
    cases hs
    exact h.isr poll rest

/-- The counter is past the alarm by as many ticks as the interrupt has been waiting. -/
lemma Synced.overdue_eq {s : State} (h : Synced s) {m : ℕ} (hm : s.met = some m) :
    overdue s = m % 2 ^ 32 := by
  rw [overdue, h.met m hm, h.compare]
  simp only [BitVec.toNat_sub, BitVec.toNat_add, BitVec.toNat_ofNat]
  omega

/-- `timer_init` left alone. -/
lemma synced_init {clk : ℤ} {t : Timer} {count : BitVec 32} {met : Option ℕ} {c d : ℕ} {s : State}
    (hrun : run step (init clk t count met) [.wait c, .init, .wait d, .init] = some s) :
    Synced s := by
  cases hrun
  exact ⟨rfl, rfl, fun _ hm => (nomatch hm)⟩

/-- In every run from `timer_init` on, every `timer_isr` returns with the alarm ahead, and the next
interrupt within an interval, if and only if each of them returns less than an interval past the
alarm it answers, counted modulo `2 ^ 32`. Where no interrupt comes into `timer_init`, that is the
time the interrupt has been waiting and the time `timer_isr` takes. -/
theorem alarm_law (clk : ℤ) (t : Timer) (count : BitVec 32) (met : Option ℕ) (es : List Event) :
    (Throughout step ReturnsAhead (init clk t count met) es ↔
      Throughout step InTime (init clk t count met) es) ∧
    ∀ c d fs s,
      run step (init clk t count met) ([.wait c, .init, .wait d, .init] ++ fs) = some s →
      ∀ m, s.met = some m → overdue s = m % 2 ^ 32 := by
  constructor
  · exact throughout_congr (P := fun _ => True)
      (fun s e _ _ _ => ⟨returnsAhead_iff s e, fun _ => trivial⟩) trivial
  · intro c d fs s hrun m hm
    obtain ⟨u, hu, hfs⟩ := run_split hrun
    have hsynced := run_invariant_always (fun _ _ _ h hs => h.step hs) (synced_init hu) hfs
    exact hsynced.overdue_eq hm

/-- On the 240 MHz chip a `net_poll` that takes a little over the ten milliseconds of one interval
leaves the alarm behind the counter, and the next interrupt is a whole turn of the counter away. -/
theorem alarm_missed :
    ∃ s, run step (init (clk true 0) ⟨0, 0, 0, 0, 0, 0, 0, 0⟩ 0 none)
        [.init, .init, .wait 1200000, .isr 1200001 0] = some s ∧
      ¬ Ahead s ∧ (elapse s (2 ^ 32 - 2)).met = none ∧
      ¬ Throughout step ReturnsAhead (init (clk true 0) ⟨0, 0, 0, 0, 0, 0, 0, 0⟩ 0 none)
        [.init, .init, .wait 1200000, .isr 1200001 0] := by
  have hbehind : ¬ Ahead (isr ⟨⟨1200000, 1200000, 1200000, 0, 0, 0, 0, 0⟩, 1200000, some 0, .done⟩
      1200001 0) := fun h => absurd h.le (by decide)
  refine ⟨_, rfl, hbehind, by decide, ?_⟩
  intro h
  obtain ⟨-, h⟩ := h _ rfl
  obtain ⟨-, h⟩ := h _ rfl
  obtain ⟨-, h⟩ := h _ rfl
  obtain ⟨hreturns, -⟩ := h _ rfl
  exact hbehind hreturns.1

end BcmMruby.Timer.Alarm
