import BcmMruby.Core.Run
import BcmMruby.Timer

/-!
# The software watchdog

`watchdog_start` stores `wdticks` and then `wdcount`, and `timer_isr`, which tests both, can come
between the two stores. The state keeps next to the timer the session that is in effect: how many
interrupts it lasts and how many have been counted since its start or the latest reset. A session
begins with the second store, so that up to there the one before it, if there is one, goes on.
-/

namespace BcmMruby.Timer

open Core

def watchdogStart (t : Timer) (sec : ℕ) : Timer :=
  let t := { t with wdticks := BitVec.ofNat 32 (sec * 100) }
  { t with wdcount := t.wdticks }

def watchdogReset (t : Timer) : Timer := { t with wdcount := t.wdticks }

def watchdogStop (t : Timer) : Timer := { t with wdticks := 0 }

/-- `timer_isr` stores to the watchdog register, which is what resets the machine. -/
def Triggers (t : Timer) : Prop := (timerIsr { t with watchdog := 0 }).watchdog = 1

lemma triggers_iff (t : Timer) : Triggers t ↔ t.wdticks ≠ 0 ∧ t.wdcount = 0 := by
  simp only [Triggers, timerIsr]
  split_ifs with hticks hcount
  · exact iff_of_true rfl ⟨hticks, hcount⟩
  · exact iff_of_false (by decide : ¬ (0 : BitVec 32) = 1) fun h => hcount h.2
  · exact iff_of_false (by decide : ¬ (0 : BitVec 32) = 1) fun h => hticks h.1

instance (t : Timer) : Decidable (Triggers t) := decidable_of_iff _ (triggers_iff t).symm

namespace Watchdog

/-- A whole number of seconds that `watchdog_start` can turn into ticks. -/
structure Seconds where
  sec : ℕ
  pos : 1 ≤ sec
  lt : sec * 100 < 2 ^ 31
  deriving DecidableEq

def Seconds.ticks (s : Seconds) : ℕ := s.sec * 100

/-- The next store of the main program. -/
inductive Pc where
  | idle
  /-- The second one of `watchdog_start`. -/
  | storeCount (sec : Seconds)
  deriving DecidableEq

structure Session where
  sec : Seconds
  /-- Interrupts counted since the start or the latest reset. -/
  counted : ℕ
  deriving DecidableEq

structure State where
  timer : Timer
  pc : Pc
  session : Option Session
  deriving DecidableEq

inductive Event where
  /-- The first store of `watchdog_start`. -/
  | start (sec : Seconds)
  /-- The second one. -/
  | store
  | reset
  | stop
  /-- The timer interrupt. -/
  | tick

/-- The state at boot, whatever `timer_init` makes of the other globals. -/
def init (t : Timer) : State := ⟨{ t with wdticks := 0, wdcount := 0 }, .idle, none⟩

def step (s : State) : Event → Option State
  | .start sec =>
    if s.pc = .idle then
      some { s with
        timer := { s.timer with wdticks := BitVec.ofNat 32 (sec.sec * 100) }
        pc := .storeCount sec }
    else none
  | .store =>
    match s.pc with
    | .idle => none
    | .storeCount sec =>
      some {
        timer := { s.timer with wdcount := s.timer.wdticks }
        pc := .idle
        session := some ⟨sec, 0⟩ }
  | .reset =>
    if s.pc = .idle then
      some { s with
        timer := watchdogReset s.timer
        session := s.session.map fun w => { w with counted := 0 } }
    else none
  | .stop =>
    if s.pc = .idle then some { s with timer := watchdogStop s.timer, session := none } else none
  | .tick =>
    some { s with
      timer := timerIsr s.timer
      session := s.session.map fun w => { w with counted := w.counted + 1 } }

/-- Left alone, the two stores are `watchdog_start`. -/
lemma run_start {s : State} (hs : s.pc = .idle) (sec : Seconds) :
    run step s [.start sec, .store] =
      some ⟨watchdogStart s.timer sec.sec, .idle, some ⟨sec, 0⟩⟩ := by
  simp [step, hs, watchdogStart]

/-- The reset is due: a session is in effect, and all of its interrupts have been counted. -/
def Due (s : State) : Prop := ∃ w, s.session = some w ∧ w.sec.ticks ≤ w.counted

/-- The interrupt resets the machine if that is due, and only then. -/
def Correct (s : State) : Event → Prop
  | .tick => Triggers s.timer ↔ Due s
  | _ => True

/-- The interrupt does not come between the stores of a `watchdog_start` that finds the watchdog
stopped with nothing left in `wdcount`. -/
def CountLeft (s : State) : Event → Prop
  | .tick => s.pc ≠ .idle → s.session = none → s.timer.wdcount ≠ 0
  | _ => True

/-- `wdticks` and `wdcount` as the session has them. -/
structure Inv (s : State) : Prop where
  stopped : s.pc = .idle → s.session = none → s.timer.wdticks = 0
  ticks : s.pc = .idle → ∀ w, s.session = some w → s.timer.wdticks.toNat = w.sec.ticks
  window : ∀ sec, s.pc = .storeCount sec → s.timer.wdticks.toNat = sec.ticks
  count : ∀ w, s.session = some w → s.timer.wdcount.toNat = w.sec.ticks - w.counted

lemma inv_init (t : Timer) : Inv (init t) :=
  ⟨fun _ _ => rfl, fun _ _ hw => (nomatch hw), fun _ hpc => (nomatch hpc),
    fun _ hw => (nomatch hw)⟩

lemma Seconds.ticks_pos (sec : Seconds) : 0 < sec.ticks := Nat.mul_pos sec.pos (by decide)

lemma Seconds.toNat_ofNat (sec : Seconds) :
    (BitVec.ofNat 32 (sec.sec * 100)).toNat = sec.ticks := by
  have hlt := sec.lt
  rw [BitVec.toNat_ofNat, Nat.mod_eq_of_lt (by omega), ticks]

lemma ne_zero_of_toNat {v : BitVec 32} {sec : Seconds} (h : v.toNat = sec.ticks) : v ≠ 0 := by
  rintro rfl
  exact absurd h sec.ticks_pos.ne

/-- The watchdog is on in every session and while one is being started. -/
lemma Inv.wdticks_ne_zero {s : State} (h : Inv s) (hon : s.pc = .idle → s.session ≠ none) :
    s.timer.wdticks ≠ 0 := by
  cases hpc : s.pc with
  | storeCount sec => exact ne_zero_of_toNat (h.window sec hpc)
  | idle =>
    obtain ⟨w, hw⟩ := Option.ne_none_iff_exists'.mp (hon hpc)
    exact ne_zero_of_toNat (h.ticks hpc w hw)

/-- An interrupt counts down as far as zero. -/
lemma toNat_wdcount_timerIsr {t : Timer} (h : t.wdticks ≠ 0) :
    (timerIsr t).wdcount.toNat = t.wdcount.toNat - 1 := by
  simp only [timerIsr, if_pos h]
  split_ifs with hcount
  · simp [hcount]
  · have hpos : 0 < t.wdcount.toNat := Nat.pos_of_ne_zero fun h0 =>
      hcount (BitVec.eq_of_toNat_eq h0)
    have hone : (1 : BitVec 32).toNat = 1 := rfl
    have hlt := t.wdcount.isLt
    rw [BitVec.toNat_sub, hone]
    omega

lemma Inv.tick {s : State} (h : Inv s) :
    Inv { s with
      timer := timerIsr s.timer
      session := s.session.map fun w => { w with counted := w.counted + 1 } } := by
  refine ⟨?_, ?_, ?_, ?_⟩
  · intro hpc hnone
    rw [wdticks_timerIsr]
    exact h.stopped hpc (Option.map_eq_none_iff.mp hnone)
  · intro hpc w hw
    obtain ⟨v, hv, rfl⟩ := Option.map_eq_some_iff.mp hw
    rw [wdticks_timerIsr]
    exact h.ticks hpc v hv
  · intro sec hpc
    rw [wdticks_timerIsr]
    exact h.window sec hpc
  · intro w hw
    obtain ⟨v, hv, rfl⟩ := Option.map_eq_some_iff.mp hw
    have hon := h.wdticks_ne_zero fun _ => by simp [hv]
    rw [toNat_wdcount_timerIsr hon, h.count v hv]
    exact Nat.sub_sub _ _ _

lemma Inv.step {s s' : State} {e : Event} (h : Inv s) (hs : step s e = some s') : Inv s' := by
  cases e with
  | start sec =>
    simp only [Watchdog.step] at hs
    split_ifs at hs
    cases hs
    refine ⟨fun hpc => (nomatch hpc), fun hpc => (nomatch hpc), ?_, h.count⟩
    rintro _ ⟨⟩
    exact sec.toNat_ofNat
  | store =>
    simp only [Watchdog.step] at hs
    split at hs
    · cases hs
    · next sec hpc =>
      cases hs
      refine ⟨fun _ hnone => (nomatch hnone), ?_, fun _ hpc => (nomatch hpc), ?_⟩
      · rintro - _ ⟨⟩
        exact h.window sec hpc
      · rintro _ ⟨⟩
        exact h.window sec hpc
  | reset =>
    simp only [Watchdog.step] at hs
    split_ifs at hs with hpc
    cases hs
    refine ⟨?_, ?_, h.window, ?_⟩
    · intro _ hnone
      exact h.stopped hpc (Option.map_eq_none_iff.mp hnone)
    · intro _ w hw
      obtain ⟨v, hv, rfl⟩ := Option.map_eq_some_iff.mp hw
      exact h.ticks hpc v hv
    · intro w hw
      obtain ⟨v, hv, rfl⟩ := Option.map_eq_some_iff.mp hw
      exact h.ticks hpc v hv
  | stop =>
    simp only [Watchdog.step] at hs
    split_ifs at hs with hpc
    cases hs
    refine ⟨fun _ _ => rfl, fun _ _ hw => (nomatch hw), ?_, fun _ hw => (nomatch hw)⟩
    intro sec hstore
    exact absurd (hpc.symm.trans hstore) (by simp)
  | tick =>
    cases hs
    exact h.tick

/-- In a session the reset comes when it is due. -/
lemma Inv.triggers_iff_due {s : State} (h : Inv s) {w : Session} (hw : s.session = some w) :
    Triggers s.timer ↔ Due s := by
  have hon := h.wdticks_ne_zero fun _ => by simp [hw]
  have hdue : Due s ↔ w.sec.ticks ≤ w.counted := by
    constructor
    · rintro ⟨v, hv, hle⟩
      cases hw.symm.trans hv
      exact hle
    · intro hle
      exact ⟨w, hw, hle⟩
  rw [triggers_iff, and_iff_right hon, hdue, ← Nat.sub_eq_zero_iff_le, ← h.count w hw]
  constructor
  · intro h0
    rw [h0]
    rfl
  · intro h0
    exact BitVec.eq_of_toNat_eq h0

/-- Without one it never is, and an interrupt is harmless unless `watchdog_start` has stored the
one variable and the other one is zero. -/
lemma Inv.correct_iff {s : State} (h : Inv s) (e : Event) : Correct s e ↔ CountLeft s e := by
  cases e with
  | tick =>
    cases hw : s.session with
    | some w => exact iff_of_true (h.triggers_iff_due hw) fun _ hnone => by simp [hw] at hnone
    | none =>
      have hdue : ¬ Due s := by
        rintro ⟨w, hsome, -⟩
        simp [hw] at hsome
      rw [Correct, CountLeft, iff_false_right hdue, triggers_iff, not_and]
      by_cases hpc : s.pc = .idle
      · exact iff_of_true (fun hne => absurd (h.stopped hpc hw) hne) fun hne => absurd hpc hne
      · have hon := h.wdticks_ne_zero fun hidle => absurd hidle hpc
        exact ⟨fun H _ _ => H hon, fun H _ => H hpc hw⟩
  | _ => rfl

/-- In every interleaving every interrupt resets the machine exactly if that is due, if and only
if none of them comes between the stores of a `watchdog_start` that found the watchdog stopped
and has nothing left in `wdcount`. -/
theorem watchdog_law (t : Timer) (es : List Event) :
    Throughout step Correct (init t) es ↔ Throughout step CountLeft (init t) es :=
  throughout_congr (fun _ e _ h hs => ⟨h.correct_iff e, fun _ => h.step hs⟩) (inv_init t)

/-- After boot `wdcount` is zero: one interrupt between the stores of the first
`watchdog_start(10)` resets the machine. -/
theorem reset_in_first_start :
    ∃ s, run step (init ⟨0, 0, 0, 0, 0, 0, 0, 0⟩) [.start ⟨10, by decide, by decide⟩] = some s ∧
      Triggers s.timer ∧ ¬ Due s ∧
      ¬ Throughout step Correct (init ⟨0, 0, 0, 0, 0, 0, 0, 0⟩)
        [.start ⟨10, by decide, by decide⟩, .tick] := by
  refine ⟨_, rfl, by decide, ?_, ?_⟩
  · rintro ⟨w, hw, -⟩
    exact nomatch hw
  · intro h
    obtain ⟨-, hrest⟩ := h _ rfl
    obtain ⟨hiff, -⟩ := hrest _ rfl
    obtain ⟨w, hw, -⟩ := hiff.mp (by decide)
    exact nomatch hw

end Watchdog

end BcmMruby.Timer
