import BcmMruby.Sntp.Clock

/-!
# Reading the clock

`time` is run by the main program and loads two words, `jiffies` and `starttime`, in the order the
compiler chooses. Neither it nor `sys_now` disables the timer interrupt, whose handler counts
`jiffies` and, through `net_poll`, takes the reply that sets both.
-/

namespace BcmMruby.Sntp.Read

open Core

/-- A call of `time`: what it has loaded, and the timer in every state since it began. -/
structure Call where
  jiffies : Option (BitVec 32)
  starttime : Option (BitVec 32)
  seen : List Timer

structure State where
  net : Net
  call : Option Call

inductive Event where
  | call
  | loadJiffies
  | loadStarttime
  | ret
  | net (e : Sntp.Event)
  deriving DecidableEq

/-- `sys_now()/1000 + starttime`, of the words loaded. -/
def sum (jiffies starttime : BitVec 32) : BitVec 32 :=
  BitVec.ofInt 32 ((jiffies * 10).toInt.tdiv 1000) + starttime

/-- `sntp` is called by the main program, which is in `time`. -/
def OfMain : Sntp.Event → Prop
  | .sntp _ => True
  | _ => False

instance : DecidablePred OfMain
  | .sntp _ => .isTrue trivial
  | .datagram _ _ | .otherNew _ | .otherRemove _ | .tick => .isFalse id

def step (s : State) : Event → Option State
  | .call =>
    if s.call.isNone then some { s with call := some ⟨none, none, [s.net.timer]⟩ } else none
  | .loadJiffies =>
    match s.call with
    | some ⟨none, st, seen⟩ => some { s with call := some ⟨some s.net.timer.jiffies, st, seen⟩ }
    | _ => none
  | .loadStarttime =>
    match s.call with
    | some ⟨j, none, seen⟩ => some { s with call := some ⟨j, some s.net.timer.starttime, seen⟩ }
    | _ => none
  | .ret =>
    match s.call with
    | some ⟨some _, some _, _⟩ => some { s with call := none }
    | _ => none
  | .net e =>
    if s.call.isSome ∧ OfMain e then none
    else (Sntp.step s.net e).map fun n =>
      ⟨n, s.call.map fun c => { c with seen := c.seen ++ [n.timer] }⟩

/-- The milliseconds since `starttime` are a nonnegative `int`. -/
def Uptime (s : State) (_ : Event) : Prop := 10 * s.net.timer.jiffies.toNat < 2 ^ 31

instance (s : State) (e : Event) : Decidable (Uptime s e) := inferInstanceAs (Decidable (_ < _))

/-- What is returned is `starttime` and the seconds since then in one state of the call. -/
def Correct (s : State) : Event → Prop
  | .ret => ∀ c ∈ s.call, ∀ j ∈ c.jiffies, ∀ st ∈ c.starttime, ∃ t ∈ c.seen,
      (sum j st).toNat = (t.starttime.toNat + 10 * t.jiffies.toNat / 1000) % 2 ^ 32
  | _ => True

/-- One of the two words has been loaded. -/
def Between (s : State) : Prop := ∃ c ∈ s.call, c.jiffies.isSome ≠ c.starttime.isSome

/-- A reply that comes between the loads carries the second that is in `starttime` already. -/
def Kept (s : State) : Event → Prop
  | .net (.datagram _ (some buf)) =>
    buf.length = 48 → Between s → timestamp buf = s.net.timer.starttime
  | _ => True

/-! ### The words that have been loaded -/

lemma toNat_sum {t : Timer} (h : 10 * t.jiffies.toNat < 2 ^ 31) :
    (sum t.jiffies t.starttime).toNat =
      (t.starttime.toNat + 10 * t.jiffies.toNat / 1000) % 2 ^ 32 := by
  have htime : (sum t.jiffies t.starttime).toNat = _ := (Timer.time_eq_iff t).mpr h
  rw [htime]
  congr 2
  omega

/-- What has been loaded has been there together in a state of the call, whose `starttime` is still
there between the loads. -/
def Held (timer : Timer) (c : Call) : Prop :=
  timer ∈ c.seen ∧ ∃ t ∈ c.seen,
    (∀ j ∈ c.jiffies, t.jiffies = j ∧ 10 * t.jiffies.toNat < 2 ^ 31) ∧
    (∀ st ∈ c.starttime, t.starttime = st) ∧
    (c.jiffies.isSome ≠ c.starttime.isSome → t.starttime = timer.starttime)

def Inv (s : State) : Prop := ∀ c ∈ s.call, Held s.net.timer c

/-- A reply is the only thing that moves `starttime`. -/
lemma starttime_step {s s' : Net} {e : Sntp.Event} (hs : Sntp.step s e = some s') :
    s'.timer.starttime = s.timer.starttime ∨
      ∃ pcb buf, e = .datagram pcb (some buf) ∧ buf.length = 48 ∧
        s'.timer.starttime = timestamp buf := by
  by_cases he : e.Replies
  · right
    match e, he with
    | .datagram pcb (some buf), h =>
      have hlen : buf.length = 48 := h
      simp only [Sntp.step] at hs
      split_ifs at hs
      cases hs
      refine ⟨pcb, buf, rfl, hlen, ?_⟩
      have htimer := timer_udpsntpRawRecv s buf
      rw [if_pos hlen] at htimer
      rw [htimer]
  · left
    rw [timer_step he hs]
    split_ifs
    · exact Timer.starttime_timerIsr _
    · rfl

lemma starttime_of_kept {s : State} {n : Net} {e : Sntp.Event} (hkept : Kept s (.net e))
    (hbetween : Between s) (hs : Sntp.step s.net e = some n) :
    n.timer.starttime = s.net.timer.starttime := by
  obtain h | ⟨pcb, buf, rfl, hlen, h⟩ := starttime_step hs
  · exact h
  · rw [h]
    exact hkept hlen hbetween

lemma inv_step (s : State) (e : Event) (s' : State) (hI : Inv s) (hG : Uptime s e ∧ Kept s e)
    (hs : step s e = some s') : Inv s' := by
  obtain ⟨hup, hkept⟩ := hG
  cases e with
  | call =>
    simp only [step] at hs
    split_ifs at hs
    cases hs
    rintro c ⟨rfl⟩
    exact ⟨List.mem_singleton_self _, s.net.timer, List.mem_singleton_self _, by simp⟩
  | loadJiffies =>
    simp only [step] at hs
    split at hs
    · rename_i st seen hcall
      cases hs
      rintro c ⟨rfl⟩
      obtain ⟨hmem, t, ht, -, hst, hbetween⟩ := hI _ hcall
      refine ⟨hmem, s.net.timer, hmem, ?_, ?_, fun _ => rfl⟩
      · rintro j ⟨rfl⟩
        exact ⟨rfl, hup⟩
      · rintro x ⟨rfl⟩
        rw [← hst x rfl, hbetween (by simp)]
    · cases hs
  | loadStarttime =>
    simp only [step] at hs
    split at hs
    · rename_i j seen hcall
      cases hs
      rintro c ⟨rfl⟩
      obtain ⟨hmem, t, ht, hj, -, hbetween⟩ := hI _ hcall
      cases j with
      | none =>
        refine ⟨hmem, s.net.timer, hmem, by simp, ?_, fun _ => rfl⟩
        rintro x ⟨rfl⟩
        rfl
      | some j =>
        refine ⟨hmem, t, ht, hj, ?_, by simp⟩
        rintro x ⟨rfl⟩
        exact hbetween (by simp)
    · cases hs
  | ret =>
    simp only [step] at hs
    split at hs
    · cases hs
      rintro c ⟨⟩
    · cases hs
  | net e =>
    simp only [step] at hs
    split_ifs at hs
    obtain ⟨n, hn, rfl⟩ := Option.map_eq_some_iff.mp hs
    intro c hc
    obtain ⟨c₀, hc₀, rfl⟩ := Option.map_eq_some_iff.mp hc
    obtain ⟨-, t, ht, hj, hst, hbetween⟩ := hI c₀ hc₀
    refine ⟨List.mem_append_right _ (List.mem_singleton_self _), t, List.mem_append_left _ ht,
      hj, hst, ?_⟩
    intro hne
    rw [starttime_of_kept hkept ⟨c₀, hc₀, hne⟩ hn]
    exact hbetween hne

lemma correct_of_inv {s : State} {e : Event} (hI : Inv s) : Correct s e := by
  cases e with
  | ret =>
    intro c hc j hj st hst
    obtain ⟨-, t, ht, hjiffies, hstart, -⟩ := hI c hc
    obtain ⟨rfl, hup⟩ := hjiffies j hj
    obtain rfl := hstart st hst
    exact ⟨t, ht, toNat_sum hup⟩
  | call | loadJiffies | loadStarttime | net => trivial

/-! ### A reply between the loads -/

/-- A call up to its return, with an interrupt between the loads that takes a reply. -/
def torn (jiffiesFirst : Bool) (pcb : ℕ) (buf : List (BitVec 8)) : List Event :=
  [.call, if jiffiesFirst then .loadJiffies else .loadStarttime,
    .net (.datagram pcb (some buf)), .net .tick,
    if jiffiesFirst then .loadStarttime else .loadJiffies]

/-- One word is from before the reply and the other one from behind it. -/
lemma run_torn {s : State} (hcall : s.call = none) {pcb : ℕ} {buf : List (BitVec 8)}
    (hpcb : s.net.pcbs pcb = some ⟨.sntp, true⟩) (hlen : buf.length = 48) (jiffiesFirst : Bool) :
    ∃ n t₁ t₂, run step s (torn jiffiesFirst pcb buf) = some ⟨n, some
        ⟨some (if jiffiesFirst then s.net.timer.jiffies else 1),
          some (if jiffiesFirst then timestamp buf else s.net.timer.starttime),
          [s.net.timer, t₁, t₂]⟩⟩ ∧
      t₁.jiffies = 0 ∧ t₁.starttime = timestamp buf ∧
      t₂.jiffies = 1 ∧ t₂.starttime = timestamp buf := by
  have htimer := timer_udpsntpRawRecv s.net buf
  rw [if_pos hlen] at htimer
  let n := udpsntpRawRecv s.net (some buf)
  have hj : n.timer.jiffies = 0 := by
    rw [show n.timer = _ from htimer]
    rfl
  have hst : n.timer.starttime = timestamp buf := by rw [show n.timer = _ from htimer]
  have hstep : Sntp.step s.net (.datagram pcb (some buf)) = some n := if_pos hpcb
  refine ⟨{ n with timer := n.timer.timerIsr }, n.timer, n.timer.timerIsr, ?_, hj, hst, ?_, ?_⟩
  · cases jiffiesFirst <;> simp [torn, step, OfMain, hcall, hstep] <;>
      simp [Sntp.step, hj, hst]
  · rw [Timer.jiffies_timerIsr, hj]
    rfl
  · rw [Timer.starttime_timerIsr, hst]

/-- Nothing but the return is to be checked. -/
lemma throughout_torn_ret {s u : State} {jiffiesFirst : Bool} {pcb : ℕ} {buf : List (BitVec 8)}
    (hrun : run step s (torn jiffiesFirst pcb buf) = some u)
    (hret : ∃ v, step u .ret = some v) :
    Throughout step Correct s (torn jiffiesFirst pcb buf ++ [.ret]) ↔ Correct u .ret := by
  obtain ⟨v, hv⟩ := hret
  have hloads : Throughout step Correct s (torn jiffiesFirst pcb buf) := by
    rw [throughout_iff hrun]
    intro pre e post s' hsplit _
    have he : e ∈ torn jiffiesFirst pcb buf := by
      rw [hsplit]
      exact List.mem_append_right _ (.head _)
    cases jiffiesFirst <;> simp [torn] at he <;>
      obtain rfl | rfl | rfl | rfl | rfl := he <;> trivial
  rw [throughout_append hrun, throughout_cons_of_step hv]
  simp [hloads]

lemma torn_iff {s : State} (hcall : s.call = none) (hup : 10 * s.net.timer.jiffies.toNat < 2 ^ 31)
    {pcb : ℕ} {buf : List (BitVec 8)} (hpcb : s.net.pcbs pcb = some ⟨.sntp, true⟩)
    (hlen : buf.length = 48) (jiffiesFirst : Bool) :
    Throughout step Correct s (torn jiffiesFirst pcb buf ++ [.ret]) ↔
      s.net.timer.jiffies.toNat < 100 ∨ timestamp buf = s.net.timer.starttime := by
  obtain ⟨n, t₁, t₂, hrun, hj₁, hst₁, hj₂, hst₂⟩ := run_torn hcall hpcb hlen jiffiesFirst
  rw [throughout_torn_ret hrun ⟨_, rfl⟩]
  have hone : (1 : BitVec 32).toNat = 1 := rfl
  have hsum : (sum (if jiffiesFirst then s.net.timer.jiffies else 1)
      (if jiffiesFirst then timestamp buf else s.net.timer.starttime)).toNat =
      if jiffiesFirst then
        ((timestamp buf).toNat + 10 * s.net.timer.jiffies.toNat / 1000) % 2 ^ 32
      else s.net.timer.starttime.toNat := by
    cases jiffiesFirst with
    | true => exact toNat_sum (t := { s.net.timer with starttime := timestamp buf }) hup
    | false =>
      have h := toNat_sum (t := { s.net.timer with jiffies := 1 }) (by simp)
      simpa [hone, Nat.mod_eq_of_lt s.net.timer.starttime.isLt] using h
  simp only [Correct, Option.mem_def, Option.some.injEq, forall_eq', List.mem_cons,
    List.not_mem_nil, or_false, exists_eq_or_imp, exists_eq_left, hsum, hj₁, hst₁, hj₂, hst₂, hone]
  have hb := (timestamp buf).isLt
  have ha := s.net.timer.starttime.isLt
  rw [BitVec.toNat_inj.symm]
  cases jiffiesFirst <;> simp <;> omega

/-! ### Main result -/

/-- What `time` returns belongs to one state of the call as long as no reply that changes
`starttime` is taken between the loads. A reply that an interrupt takes there without another tick
shows unless the clock has run for less than a second or the reply brings nothing new. -/
theorem time_of_one_state {s : State} (hcall : s.call = none) :
    (∀ es, Throughout step (fun s e => Uptime s e ∧ Kept s e) s es →
      Throughout step Correct s es) ∧
    ∀ pcb buf jiffiesFirst, 10 * s.net.timer.jiffies.toNat < 2 ^ 31 →
      s.net.pcbs pcb = some ⟨.sntp, true⟩ → buf.length = 48 →
      (Throughout step Correct s (torn jiffiesFirst pcb buf ++ [.ret]) ↔
        s.net.timer.jiffies.toNat < 100 ∨ timestamp buf = s.net.timer.starttime) := by
  have hI : Inv s := by
    intro c hc
    rw [hcall] at hc
    cases hc
  refine ⟨fun es hG => ?_, fun pcb buf jiffiesFirst hup hpcb hlen => ?_⟩
  · exact throughout_of_invariant inv_step (fun s e => correct_of_inv) hI hG
  · exact torn_iff hcall hup hpcb hlen jiffiesFirst

/-- A clock that has run for two seconds since 1700000000, and awaits a reply. -/
def running : State :=
  ⟨sntp (netInit ⟨0, 0, 0, 200, 1700000000, 0, 0, 0⟩ fun _ => false) (some 0), none⟩

/-- A reply that agrees with it. -/
def agreeing : List (BitVec 8) :=
  List.replicate 40 0 ++ beBytes (1700000002 + 2208988800) ++ List.replicate 4 0

/-- A tick between the loads does no harm, nor does a reply once both are done. -/
theorem time_of_one_state_running :
    (∃ t, run step running [.call, .loadStarttime, .net .tick, .loadJiffies,
        .net (.datagram 0 (some agreeing)), .ret] = some t) ∧
      Throughout step Correct running [.call, .loadStarttime, .net .tick, .loadJiffies,
        .net (.datagram 0 (some agreeing)), .ret] := by
  refine ⟨⟨_, rfl⟩, (time_of_one_state rfl).1 _ ?_⟩
  rintro _ ⟨⟩
  refine ⟨⟨by decide, trivial⟩, ?_⟩
  rintro _ ⟨⟩
  refine ⟨⟨by decide, trivial⟩, ?_⟩
  rintro _ ⟨⟩
  refine ⟨⟨by decide, trivial⟩, ?_⟩
  rintro _ ⟨⟩
  refine ⟨⟨by decide, trivial⟩, ?_⟩
  rintro _ ⟨⟩
  refine ⟨⟨by decide, ?_⟩, ?_⟩
  · rintro - ⟨_, ⟨⟩, h⟩
    exact absurd rfl h
  · rintro _ ⟨⟩
    exact ⟨⟨by decide, trivial⟩, trivial⟩

/-- The clock shows 1700000002 before the reply and after it, and the call returns 1700000004 or
1700000000. -/
theorem time_torn :
    (∃ t, run step running (torn true 0 agreeing ++ [.ret]) = some t) ∧
      Throughout step Uptime running (torn true 0 agreeing ++ [.ret]) ∧
      ¬ Throughout step Correct running (torn true 0 agreeing ++ [.ret]) ∧
      (∃ t, run step running (torn false 0 agreeing ++ [.ret]) = some t) ∧
      Throughout step Uptime running (torn false 0 agreeing ++ [.ret]) ∧
      ¬ Throughout step Correct running (torn false 0 agreeing ++ [.ret]) := by
  have hfail : ∀ jiffiesFirst,
      ¬ Throughout step Correct running (torn jiffiesFirst 0 agreeing ++ [.ret]) := by
    intro jiffiesFirst
    rw [torn_iff rfl (by decide) rfl rfl]
    decide
  exact ⟨⟨_, rfl⟩, by decide, hfail true, ⟨_, rfl⟩, by decide, hfail false⟩

end BcmMruby.Sntp.Read
