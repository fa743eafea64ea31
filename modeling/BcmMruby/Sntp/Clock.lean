import BcmMruby.Sntp.Basic

/-!
# The clock after a reply

A reply puts the time it carries into `starttime` and starts `jiffies` anew; until the next one
the clock is moved by ticks alone.
-/

namespace BcmMruby.Sntp

open Core

/-- The ticks among the events. -/
def ticks (es : List Event) : ℕ := es.count .tick

@[simp] lemma timer_removeSntp (s : Net) : (removeSntp s).timer = s.timer := by
  rw [removeSntp]
  split <;> rfl

@[simp] lemma timer_sntp (s : Net) (new : Option ℕ) : (sntp s new).timer = s.timer :=
  timer_removeSntp s

lemma timer_udpsntpRawRecv (s : Net) (buf : List (BitVec 8)) :
    (udpsntpRawRecv s (some buf)).timer =
      if buf.length = 48 then { s.timer.resetCounter with starttime := timestamp buf }
      else s.timer := by
  simp only [udpsntpRawRecv, timer_removeSntp]
  split_ifs <;> rfl

/-- The seconds of a reply that carries `u` in the era of 1900. -/
lemma toNat_timestamp {u : ℕ} (hu : u < 2 ^ 32) {buf : List (BitVec 8)}
    (hbuf : (buf.drop 40).take 4 = beBytes (BitVec.ofNat 32 (u + 2208988800))) :
    (timestamp buf).toNat = u := by
  have hbyte : ∀ i < 4, buf.getD (40 + i) 0 = ((buf.drop 40).take 4).getD i 0 := by
    intro i hi
    simp [List.getD_eq_getElem?_getD, hi]
  have h₀ := hbyte 0 (by decide)
  have h₁ := hbyte 1 (by decide)
  have h₂ := hbyte 2 (by decide)
  have h₃ := hbyte 3 (by decide)
  rw [hbuf] at h₀ h₁ h₂ h₃
  have hword : timestamp buf = BitVec.ofNat 32 (u + 2208988800) - 2208988800 := by
    rw [timestamp, h₀, h₁, h₂, h₃]
    simp only [beBytes, List.getD_cons_zero, List.getD_cons_succ, word_byte]
  rw [hword, BitVec.toNat_sub, BitVec.toNat_ofNat]
  have hera : (2208988800 : BitVec 32).toNat = 2208988800 := rfl
  rw [hera]
  omega

/-- A step that is not a reply moves the clock by a tick or leaves it alone. -/
lemma timer_step {s s' : Net} {e : Event} (he : ¬ e.Replies) (hs : step s e = some s') :
    s'.timer = if e = .tick then s.timer.timerIsr else s.timer := by
  cases e with
  | sntp new =>
    simp only [step] at hs
    split_ifs at hs
    cases hs
    exact timer_sntp s new
  | datagram pcb p =>
    simp only [step] at hs
    split_ifs at hs
    cases hs
    cases p with
    | none => rfl
    | some buf =>
      simp only [Event.Replies] at he
      rw [timer_udpsntpRawRecv, if_neg he]
      rfl
  | otherNew p =>
    simp only [step] at hs
    split_ifs at hs
    cases hs
    rfl
  | otherRemove p =>
    simp only [step] at hs
    split_ifs at hs
    cases hs
    rfl
  | tick =>
    cases hs
    rfl

/-- Between two replies `starttime` stays and `jiffies` counts the ticks. -/
lemma timer_run {s t : Net} {es : List Event} (hes : ∀ e ∈ es, ¬ e.Replies)
    (hrun : run step s es = some t) :
    t.timer.starttime = s.timer.starttime ∧
      t.timer.jiffies = s.timer.jiffies + BitVec.ofNat 32 (ticks es) := by
  induction es generalizing s with
  | nil =>
    cases hrun
    simp [ticks]
  | cons e es ih =>
    obtain ⟨s', hs', hrun'⟩ := run_eq_some_cons.mp hrun
    obtain ⟨hstart, hjiffies⟩ := ih (fun f hf => hes f (.tail _ hf)) hrun'
    have hstep := timer_step (hes e (.head _)) hs'
    rw [hstart, hjiffies, hstep]
    split_ifs with htick
    · subst htick
      refine ⟨Timer.starttime_timerIsr _, ?_⟩
      have hcount : ticks (.tick :: es) = ticks es + 1 := List.count_cons_self
      rw [Timer.jiffies_timerIsr, hcount, BitVec.ofNat_add, BitVec.add_assoc, BitVec.add_comm 1]
      rfl
    · refine ⟨rfl, ?_⟩
      rw [ticks, ticks, List.count_cons_of_ne htick]

/-- The same right behind a reply. -/
lemma timer_after_reply {s s' t : Net} {pcb u : ℕ} {buf : List (BitVec 8)} {es : List Event}
    (hu : u < 2 ^ 32) (hlen : buf.length = 48)
    (hbuf : (buf.drop 40).take 4 = beBytes (BitVec.ofNat 32 (u + 2208988800)))
    (hreply : step s (.datagram pcb (some buf)) = some s') (hes : ∀ e ∈ es, ¬ e.Replies)
    (hrun : run step s' es = some t) :
    t.timer.starttime.toNat = u ∧ t.timer.jiffies.toNat = ticks es % 2 ^ 32 := by
  have hreset : s'.timer = { s.timer.resetCounter with starttime := timestamp buf } := by
    simp only [step] at hreply
    split_ifs at hreply
    cases hreply
    rw [timer_udpsntpRawRecv, if_pos hlen]
  obtain ⟨hstart, hjiffies⟩ := timer_run hes hrun
  rw [hreset] at hstart hjiffies
  refine ⟨by rw [hstart]; exact toNat_timestamp hu hbuf, ?_⟩
  rw [hjiffies]
  simp [Timer.resetCounter]

/-! ### Main result -/

/-- Let a reply carry the second `u`, and let no other reply come. Then `jiffies` counts the ticks,
and the clock shows `u` and a second for every hundred counts exactly as long as ten times the
count is below `2 ^ 31`; while that many ticks have not come yet, the time since `u` only grows. -/
theorem time_after_reply {s s' t : Net} {pcb u : ℕ} {buf : List (BitVec 8)} {es : List Event}
    (hu : u < 2 ^ 32) (hlen : buf.length = 48)
    (hbuf : (buf.drop 40).take 4 = beBytes (BitVec.ofNat 32 (u + 2208988800)))
    (hreply : step s (.datagram pcb (some buf)) = some s') (hes : ∀ e ∈ es, ¬ e.Replies)
    (hrun : run step s' es = some t) :
    t.timer.jiffies.toNat = ticks es % 2 ^ 32 ∧
      (t.timer.time.toNat = (u + t.timer.jiffies.toNat / 100) % 2 ^ 32 ↔
        10 * t.timer.jiffies.toNat < 2 ^ 31) ∧
      (10 * ticks es < 2 ^ 31 → ∀ pre post v, es = pre ++ post → run step s' pre = some v →
        (v.timer.time - BitVec.ofNat 32 u).toNat ≤ (t.timer.time - BitVec.ofNat 32 u).toNat) := by
  obtain ⟨hstart, hjiffies⟩ := timer_after_reply hu hlen hbuf hreply hes hrun
  refine ⟨hjiffies, ?_, ?_⟩
  · have hlaw := Timer.time_eq_iff t.timer
    rwa [hstart] at hlaw
  · intro hticks pre post v hsplit hv
    have hpre : ∀ e ∈ pre, ¬ e.Replies :=
      fun e he => hes e (hsplit ▸ List.mem_append_left post he)
    obtain ⟨hstart', hjiffies'⟩ := timer_after_reply hu hlen hbuf hreply hpre hv
    have hle : ticks pre ≤ ticks es := by
      rw [hsplit, ticks, ticks, List.count_append]
      exact Nat.le_add_right _ _
    have ht := (Timer.time_eq_iff t.timer).mpr (by omega)
    have hv := (Timer.time_eq_iff v.timer).mpr (by omega)
    rw [BitVec.toNat_sub, BitVec.toNat_sub, BitVec.toNat_ofNat]
    omega

/-- A reply that carries the first second of 1970. -/
def epochReply : List (BitVec 8) :=
  List.replicate 40 0 ++ beBytes 2208988800 ++ List.replicate 4 0

/-- The state right behind that reply to the first request. -/
def atEpoch : Net :=
  udpsntpRawRecv (sntp (netInit ⟨0, 0, 0, 0, 0, 0, 0, 0⟩ fun _ => false) (some 0)) (some epochReply)

lemma run_ticks (s : Net) (n : ℕ) :
    ∃ t, run step s (List.replicate n .tick) = some t ∧
      t.timer.starttime = s.timer.starttime ∧
      t.timer.jiffies = s.timer.jiffies + BitVec.ofNat 32 n := by
  have hrun : ∃ t, run step s (List.replicate n .tick) = some t := by
    induction n generalizing s with
    | zero => exact ⟨s, rfl⟩
    | succ n ih => exact ih _
  obtain ⟨t, ht⟩ := hrun
  obtain ⟨hstart, hjiffies⟩ := timer_run (by simp [Event.Replies]) ht
  rw [ticks, List.count_replicate_self] at hjiffies
  exact ⟨t, ht, hstart, hjiffies⟩

/-- A hundred ticks later. -/
theorem time_after_epochReply :
    ∃ t, run step atEpoch (List.replicate 100 .tick) = some t ∧ t.timer.time.toNat = 1 := by
  have hreply : step (sntp (netInit ⟨0, 0, 0, 0, 0, 0, 0, 0⟩ fun _ => false) (some 0))
      (.datagram 0 (some epochReply)) = some atEpoch := rfl
  obtain ⟨t, ht, -, -⟩ := run_ticks atEpoch 100
  obtain ⟨hjiffies, hlaw, -⟩ :=
    time_after_reply (by decide : 0 < 2 ^ 32) rfl (by decide) hreply
      (by simp [Event.Replies]) ht
  rw [ticks, List.count_replicate_self] at hjiffies
  refine ⟨t, ht, ?_⟩
  rw [hlaw.mpr (by rw [hjiffies]; decide), hjiffies]
  rfl

/-- After 24 days, 20 hours and some the clock shows a second 24 days before the reply, and before
what it showed a tick earlier. -/
theorem time_runs_backwards :
    ∃ t t', run step atEpoch (List.replicate 214748364 .tick) = some t ∧
      step t .tick = some t' ∧ t'.timer.jiffies.toNat = 214748365 ∧
      t.timer.time.toNat = 2147483 ∧ t'.timer.time.toNat = 2 ^ 32 - 2147483 := by
  obtain ⟨t, ht, hstart, hjiffies⟩ := run_ticks atEpoch 214748364
  have hisr := Timer.jiffies_timerIsr t.timer
  rw [hjiffies] at hisr
  refine ⟨t, { t with timer := t.timer.timerIsr }, ht, rfl, ?_, ?_, ?_⟩
  · rw [hisr]
    rfl
  · rw [Timer.time, Timer.sysNow, hstart, hjiffies]
    rfl
  · rw [Timer.time, Timer.sysNow, Timer.starttime_timerIsr, hstart, hisr]
    rfl

end BcmMruby.Sntp
