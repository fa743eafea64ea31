import BcmMruby.Core.Run
import BcmMruby.TcpClient.Write

/-!
# Connecting

`http_connect` and `https_connect` share their shape: `tcphttp_raw_init`, a loop that waits for
`tcpstat` to leave 0, a test for 1, and a write of the request behind it. Here they are cut at the
points where a callback may run, the one between `tcp_connect` and the store of 0 included. An
`Attempt` is what the libraries answer: the pcb, the result of `tcp_connect`, the callbacks lwIP
makes before that store, and whether BearSSL comes to write.
-/

namespace BcmMruby.TcpClient

open Core

/-- Where the main program stands. -/
inductive Pc where
  | start
  /-- `tcp_connect` has been called, `tcpstat = 0` has not been executed. -/
  | connecting
  /-- At the loop `while (tcpstat == 0)`. -/
  | waiting
  /-- Behind the loop, before the test `tcpstat == 1`. -/
  | left
  /-- `tcp_sndbuf` has read through a null pointer. -/
  | trapped
  | returned (r : ℤ)
  deriving DecidableEq

structure Program where
  client : Client
  pc : Pc

/-- From the test `tcpstat == 1` on. What is written goes through `my_tcp_write`, before 1 is
returned. -/
def connectEnd (writes : Bool) (c : Client) : Pc :=
  if c.tcpstat = 1 then
    if writes ∧ c.tcphttpRawPcb = none then .trapped else .returned 1
  else .returned 0

/-- The next step of `http_connect` or `https_connect`; `pcb` is what `tcp_new_ip_type` returns.
`http_connect` always writes, `bear` does not if the TLS context has failed before. -/
def mainStep (writes : Bool) (pcb : Option ℕ) (p : Program) : Option Program :=
  match p.pc with
  | .start =>
    some ⟨{ p.client with tcphttpRawPcb := pcb }, if pcb ≠ none then .connecting else .waiting⟩
  | .connecting => some ⟨{ p.client with tcpstat := 0 }, .waiting⟩
  | .waiting => some { p with pc := if p.client.tcpstat = 0 then .waiting else .left }
  | .left => some { p with pc := connectEnd writes p.client }
  | .trapped | .returned _ => none

/-- Through a pcb `http_connect` writes, and returns what `httpConnectEnd` says. -/
lemma connectEnd_of_pcb {c : Client} (hpcb : c.tcphttpRawPcb ≠ none) (w : WriteEnv)
    (header : CBuffer) :
    connectEnd true c = .returned (httpConnectEnd c.tcpstat w header).1 := by
  by_cases h : c.tcpstat = 1 <;> simp [connectEnd, httpConnectEnd, h, hpcb]

lemma connectEnd_of_ne_one {writes : Bool} {c : Client} (h : c.tcpstat ≠ 1) :
    connectEnd writes c = .returned 0 := if_neg h

/-- Without interrupts the program reaches its loop in the state `tcphttp_raw_init` leaves. -/
lemma mainStep_tcphttpRawInit (writes : Bool) (pcb : Option ℕ) (c : Client) :
    ((mainStep writes pcb ⟨c, .start⟩).bind fun p =>
        if p.pc = .connecting then mainStep writes pcb p else some p) =
      some ⟨tcphttpRawInit c pcb, .waiting⟩ := by
  cases pcb <;> rfl

namespace Connect

/-! ### What lwIP does with an attempt -/

/-- The attempt as lwIP sees it. -/
inductive Phase where
  | pending
  | established
  /-- Refused by `tcp_connect`, aborted or reset, or never begun for want of a pcb. -/
  | over
  deriving DecidableEq

/-- The callbacks lwIP may make in each phase, and the phase that follows. -/
def Phase.next : Phase → Callback → Option Phase
  | .pending, .connected => some .established
  | .pending, .err | .pending, .poll => some .over
  | .established, .recv _ => some .established
  | .established, .err | .established, .poll => some .over
  | _, _ => none

def firstPhase (pcb : Option ℕ) (connErr : ℤ) : Phase :=
  if pcb ≠ none ∧ connErr = 0 then .pending else .over

/-- One outcome: the results of `tcp_new_ip_type` and `tcp_connect`, the callbacks made before
`tcphttp_raw_init` stores 0 in `tcpstat`, and whether `my_tcp_write` is called once `tcpstat` has
been found to be 1. -/
structure Attempt where
  pcb : Option ℕ
  connErr : ℤ
  writes : Bool
  early : List Callback
  early_possible : (run Phase.next (firstPhase pcb connErr) early).isSome

structure State where
  prog : Program
  phase : Phase
  /-- The pcb of this call has reached `http_connected`. -/
  reached : Bool
  /-- The callbacks still to come before the store. -/
  gap : List Callback

def init (a : Attempt) (c : Client) : State :=
  ⟨⟨c, .start⟩, firstPhase a.pcb a.connErr, false, a.early⟩

inductive Event where
  | main
  | callback (cb : Callback)

/-- The callback runs, and lwIP enters the next phase. -/
def deliver (s : State) (cb : Callback) : Option State :=
  (s.phase.next cb).map fun phase =>
    { s with
      prog := { s.prog with client := TcpClient.callback s.prog.client cb }
      phase := phase
      reached := s.reached || cb = .connected }

def step (a : Attempt) (s : State) : Event → Option State
  | .main =>
    if s.prog.pc = .connecting ∧ s.gap ≠ [] then none
    else (mainStep a.writes a.pcb s.prog).map fun prog => { s with prog := prog }
  | .callback cb =>
    match s.prog.pc, s.gap with
    | .start, _ | .connecting, [] => none
    | .connecting, e :: gap => if cb = e then deliver { s with gap := gap } cb else none
    | _, _ => deliver s cb

/-- 1 is returned for a connection that has been made, and the program does not wait for an
attempt that is decided. -/
def Good (s : State) : Prop :=
  (s.prog.pc = .returned 1 → s.reached) ∧
    (s.prog.pc = .waiting → s.phase ≠ .pending → s.prog.client.tcpstat ≠ 0)

/-- There is a pcb, `tcp_connect` takes it and no callback comes before the store; or there is no
pcb, and `tcpstat` is not 0, nor 1 if nothing is written: a write traps before 1 is returned. -/
def Sound (a : Attempt) (tcpstat : ℤ) : Prop :=
  if a.pcb = none then tcpstat ≠ 0 ∧ (tcpstat = 1 → a.writes) else a.connErr = 0 ∧ a.early = []

/-! ### Steps -/

lemma deliver_eq_some_iff {s s' : State} {cb : Callback} :
    deliver s cb = some s' ↔ ∃ phase, s.phase.next cb = some phase ∧
      s' = { s with
        prog := { s.prog with client := TcpClient.callback s.prog.client cb }
        phase := phase
        reached := s.reached || cb = .connected } := by
  simp [deliver, eq_comm]

/-- No callback is possible once the attempt is over. -/
lemma deliver_over {s : State} (h : s.phase = .over) (cb : Callback) : deliver s cb = none := by
  cases cb <;> simp [deliver, h, Phase.next]

/-- A callback in the gap is the one the attempt has next. -/
lemma step_callback_gap {a : Attempt} {s : State} {e : Callback} {gap : List Callback}
    (hpc : s.prog.pc = .connecting) (hgap : s.gap = e :: gap) :
    step a s (.callback e) = deliver { s with gap := gap } e := by
  simp [step, hpc, hgap]

/-- With nothing to come in the gap, callbacks begin behind the store. -/
lemma step_callback_of_gap_nil {a : Attempt} {s s' : State} {cb : Callback} (hgap : s.gap = [])
    (hs : step a s (.callback cb) = some s') :
    s.prog.pc ≠ .start ∧ s.prog.pc ≠ .connecting ∧ deliver s cb = some s' := by
  cases hpc : s.prog.pc <;> simp_all [step]

lemma step_main_eq_some {a : Attempt} {s s' : State} (hs : step a s .main = some s') :
    ∃ prog, mainStep a.writes a.pcb s.prog = some prog ∧ s' = { s with prog := prog } := by
  rw [step] at hs
  split_ifs at hs
  obtain ⟨prog, hprog, rfl⟩ := Option.map_eq_some_iff.mp hs
  exact ⟨prog, hprog, rfl⟩

lemma Phase.next_ne_pending {ph ph' : Phase} {cb : Callback} (h : ph.next cb = some ph') :
    ph' ≠ .pending := by
  cases ph <;> cases cb <;> simp_all [Phase.next] <;> simp [← h]

/-- An attempt that is still pending has had no callback. -/
lemma eq_nil_of_run_eq_pending {ph : Phase} {cbs : List Callback}
    (h : run Phase.next ph cbs = some .pending) : ph = .pending ∧ cbs = [] := by
  cases cbs.eq_nil_or_concat with
  | inl hnil =>
    subst hnil
    exact ⟨Option.some.inj h, rfl⟩
  | inr hsnoc =>
    obtain ⟨init, cb, rfl⟩ := hsnoc
    rw [List.concat_eq_append] at h
    obtain ⟨ph', -, hlast⟩ := run_split h
    obtain ⟨ph'', hnext, hdone⟩ := run_eq_some_cons.mp hlast
    cases hdone
    exact absurd rfl (Phase.next_ne_pending hnext)

/-! ### Sound attempts -/

/-- What holds when there is no pcb: the old `tcpstat` decides. -/
structure NoPcb (tcpstat : ℤ) (s : State) : Prop where
  phase : s.phase = .over
  tcpstat : s.prog.client.tcpstat = tcpstat
  pcb : s.prog.pc ≠ .start → s.prog.client.tcphttpRawPcb = none
  pc : s.prog.pc ≠ .connecting ∧ s.prog.pc ≠ .returned 1

lemma NoPcb.step {a : Attempt} (hpcb : a.pcb = none) {tcpstat : ℤ} (h1 : tcpstat = 1 → a.writes)
    (s : State) (e : Event) (s' : State) (h : NoPcb tcpstat s)
    (hs : step a s e = some s') : NoPcb tcpstat s' := by
  cases e with
  | main =>
    obtain ⟨prog, hprog, rfl⟩ := step_main_eq_some hs
    have hstat := h.tcpstat
    rw [mainStep, hpcb] at hprog
    split at hprog
    · cases hprog
      exact ⟨h.phase, hstat, fun _ => rfl, by simp⟩
    · next hpc => exact absurd hpc h.pc.1
    · next hpc =>
      cases hprog
      refine ⟨h.phase, hstat, fun _ => h.pcb (by simp [hpc]), ?_⟩
      dsimp only
      split_ifs <;> simp
    · next hpc =>
      cases hprog
      have hnull := h.pcb (by simp [hpc])
      refine ⟨h.phase, hstat, fun _ => hnull, ?_⟩
      by_cases hone : tcpstat = 1
      · -- the write comes first
        simp [connectEnd, hstat, hone, hnull, h1 hone]
      · simp [connectEnd_of_ne_one (hstat ▸ hone)]
    · cases hprog
    · cases hprog
  | callback cb =>
    have hover : (deliver s cb).isSome = false := by simp [deliver_over h.phase]
    have hover' := fun gap => deliver_over (s := { s with gap := gap }) h.phase cb
    rw [Connect.step] at hs
    split at hs
    · cases hs
    · cases hs
    · split_ifs at hs
      simp [hover'] at hs
    · simp [hs] at hover

/-- Behind the store `tcpstat` is 0 as long as the attempt is pending, and 1 only if the
connection has been made. -/
def Agrees (s : State) : Prop :=
  (s.phase = .pending ↔ s.prog.client.tcpstat = 0) ∧
    (s.prog.client.tcpstat = 1 → s.reached)

lemma Agrees.deliver {s s' : State} {cb : Callback} (h : Agrees s)
    (hs : deliver s cb = some s') : Agrees s' ∧ (s.reached → s'.reached) := by
  obtain ⟨phase, hnext, rfl⟩ := deliver_eq_some_iff.mp hs
  refine ⟨⟨?_, ?_⟩, by simp +contextual⟩
  · have hne := Phase.next_ne_pending hnext
    cases cb with
    | recv pbuf =>
      have hphase : s.phase ≠ .pending := by
        rintro hphase
        simp [hphase, Phase.next] at hnext
      have hstat := (not_congr h.1).mp hphase
      cases pbuf <;> simp [TcpClient.callback, httpRecv, hne, hstat]
    | _ => simp [TcpClient.callback, httpConnected, httpErr, httpPoll, hne]
  · cases cb with
    | recv pbuf =>
      cases pbuf with
      | none => simp [TcpClient.callback, httpRecv]
      | some pbuf => simpa [TcpClient.callback, httpRecv] using h.2
    | _ => simp [TcpClient.callback, httpConnected, httpErr, httpPoll]

/-- The invariant of an attempt that lwIP takes and that has no callback before the store. -/
structure Underway (s : State) : Prop where
  gap : s.gap = []
  before : s.prog.pc = .start ∨ s.prog.pc = .connecting → s.phase = .pending
  behind : s.prog.pc ≠ .start → s.prog.pc ≠ .connecting → Agrees s
  returned : s.prog.pc = .returned 1 → s.reached

lemma Underway.step {a : Attempt} (hpcb : a.pcb ≠ none) (s : State) (e : Event) (s' : State)
    (h : Underway s) (hs : step a s e = some s') : Underway s' := by
  cases e with
  | main =>
    obtain ⟨prog, hprog, rfl⟩ := step_main_eq_some hs
    rw [mainStep] at hprog
    split at hprog
    · next hpc =>
      cases hprog
      exact ⟨h.gap, fun _ => h.before (Or.inl hpc), by simp [hpcb], by simp [hpcb]⟩
    · next hpc =>
      cases hprog
      refine ⟨h.gap, by simp, fun _ _ => ?_, by simp⟩
      simp [Agrees, h.before (Or.inr hpc)]
    · next hpc =>
      cases hprog
      have hagrees : Agrees s := h.behind (by simp [hpc]) (by simp [hpc])
      refine ⟨h.gap, ?_, fun _ _ => hagrees, ?_⟩
      all_goals dsimp only; split_ifs <;> simp
    · next hpc =>
      cases hprog
      have hagrees : Agrees s := h.behind (by simp [hpc]) (by simp [hpc])
      refine ⟨h.gap, ?_, fun _ _ => hagrees, fun hret => hagrees.2 ?_⟩
      · dsimp only [connectEnd]
        split_ifs <;> simp
      · by_contra hstat
        simp [connectEnd_of_ne_one hstat] at hret
    · cases hprog
    · cases hprog
  | callback cb =>
    obtain ⟨hstart, hconnecting, hdeliver⟩ := step_callback_of_gap_nil h.gap hs
    obtain ⟨hagrees, hreached⟩ := (h.behind hstart hconnecting).deliver hdeliver
    obtain ⟨phase, -, rfl⟩ := deliver_eq_some_iff.mp hdeliver
    exact ⟨h.gap, fun hpc => absurd hpc (by simp [hstart, hconnecting]), fun _ _ => hagrees,
      fun hret => hreached (h.returned hret)⟩

lemma good_of_sound {a : Attempt} {c : Client} (h : Sound a c.tcpstat) {es : List Event}
    {s : State} (hrun : run (step a) (init a c) es = some s) : Good s := by
  rw [Sound] at h
  split_ifs at h with hpcb
  · have hinit : NoPcb c.tcpstat (init a c) :=
      ⟨by simp [init, firstPhase, hpcb], rfl, by simp [init], by simp [init]⟩
    have hs := run_invariant_always (NoPcb.step hpcb h.2) hinit hrun
    exact ⟨fun hpc => absurd hpc hs.pc.2, fun _ _ => hs.tcpstat ▸ h.1⟩
  · have hinit : Underway (init a c) :=
      ⟨h.2, fun _ => by simp [init, firstPhase, hpcb, h.1], by simp [init], by simp [init]⟩
    have hs := run_invariant_always (Underway.step hpcb) hinit hrun
    refine ⟨hs.returned, ?_⟩
    intro hpc hphase
    exact (not_congr (hs.behind (by simp [hpc]) (by simp [hpc])).1).mp hphase

/-! ### Unsound attempts -/

/-- The callbacks of the gap can be made one after the other. -/
lemma run_gap (a : Attempt) {s : State} {ph : Phase} (hpc : s.prog.pc = .connecting)
    (hrun : run Phase.next s.phase s.gap = some ph) :
    ∃ s', run (step a) s (s.gap.map .callback) = some s' ∧ s'.prog.pc = .connecting ∧
      s'.gap = [] ∧ s'.phase = ph := by
  induction hgap : s.gap generalizing s with
  | nil =>
    rw [hgap] at hrun
    exact ⟨s, rfl, hpc, hgap, Option.some.inj hrun⟩
  | cons e gap ih =>
    rw [hgap] at hrun
    obtain ⟨next, hnext, hrest⟩ := run_eq_some_cons.mp hrun
    have hdeliver := deliver_eq_some_iff (s := { s with gap := gap }).mpr ⟨next, hnext, rfl⟩
    obtain ⟨s', hs', hend⟩ := ih (s := { s with
      gap := gap
      prog := { s.prog with client := TcpClient.callback s.prog.client e }
      phase := next
      reached := s.reached || e = .connected }) hpc hrest rfl
    refine ⟨s', ?_, hend⟩
    rw [List.map_cons, run_cons, step_callback_gap hpc hgap, hdeliver]
    exact hs'

/-- With a pcb, the program comes to its loop with `tcpstat` at 0, whatever has happened. -/
lemma run_to_waiting (a : Attempt) (c : Client) (hpcb : a.pcb ≠ none) {ph : Phase}
    (hearly : run Phase.next (firstPhase a.pcb a.connErr) a.early = some ph) :
    ∃ s, run (step a) (init a c) (.main :: (a.early.map .callback ++ [.main])) = some s ∧
      s.prog.pc = .waiting ∧ s.prog.client.tcpstat = 0 ∧ s.phase = ph := by
  let s₁ : State :=
    { init a c with prog := ⟨{ c with tcphttpRawPcb := a.pcb }, .connecting⟩ }
  have hfirst : step a (init a c) .main = some s₁ := by
    simp [step, mainStep, init, s₁, hpcb]
  obtain ⟨s₂, hgap, hpc, hnil, hphase⟩ := run_gap a (s := s₁) rfl hearly
  let s₃ : State := { s₂ with prog := ⟨{ s₂.prog.client with tcpstat := 0 }, .waiting⟩ }
  have hstore : step a s₂ .main = some s₃ := by
    simp [step, mainStep, hpc, hnil, s₃]
  refine ⟨s₃, ?_, rfl, rfl, hphase⟩
  rw [run_cons, hfirst]
  exact run_trans hgap (by simp [hstore])

lemma sound_of_good {a : Attempt} {c : Client}
    (h : ∀ es s, run (step a) (init a c) es = some s → Good s) : Sound a c.tcpstat := by
  rw [Sound]
  split_ifs with hpcb
  · constructor
    · have hgood := h [.main] _ (by simp [step, mainStep, init, hpcb]; rfl)
      exact hgood.2 rfl (by simp [firstPhase])
    · intro hstat
      by_contra hwrites
      have hgood := h [.main, .main, .main] _
        (by simp [step, mainStep, init, hpcb, hstat, connectEnd, hwrites]; rfl)
      exact absurd (hgood.1 rfl) Bool.false_ne_true
  · obtain ⟨ph, hearly⟩ := Option.isSome_iff_exists.mp a.early_possible
    obtain ⟨s, hrun, hpc, hstat, hphase⟩ := run_to_waiting a c hpcb hearly
    have hpending : ph = .pending := by
      by_contra hne
      exact (h _ s hrun).2 hpc (by rwa [hphase]) hstat
    obtain ⟨hfirst, hnil⟩ := eq_nil_of_run_eq_pending (hpending ▸ hearly)
    refine ⟨?_, hnil⟩
    by_contra hconnErr
    simp [firstPhase, hconnErr] at hfirst

/-! ### Main result -/

/-- Whatever the schedule, 1 is returned only for a connection that has been made and a decided
attempt is not waited for, if and only if the attempt is sound. -/
theorem good_iff_sound (a : Attempt) (c : Client) :
    (∀ es s, run (step a) (init a c) es = some s → Good s) ↔ Sound a c.tcpstat :=
  ⟨sound_of_good, fun h _ _ hrun => good_of_sound h hrun⟩

/-- `tcp_connect` has no route and returns -4: the attempt is over, and `http_connect` waits for
ever. -/
theorem waits_for_refused_attempt :
    ∃ s, run (step ⟨some 1, -4, true, [], rfl⟩) (init ⟨some 1, -4, true, [], rfl⟩ Client.zero)
          [.main, .main] = some s ∧
      s.phase = .over ∧ ¬ Good s ∧
      ∀ es t, run (step ⟨some 1, -4, true, [], rfl⟩) s es = some t → t.prog.pc = .waiting := by
  refine ⟨_, rfl, rfl, fun h => h.2 rfl (by decide) rfl, fun es t hrun => ?_⟩
  have hsame := run_invariant_always (P := fun s => s = _) ?_ rfl hrun
  · rw [hsame]
  · rintro _ e s' rfl hs
    cases e with
    | main =>
      cases hs
      rfl
    | callback cb => cases cb <;> cases hs

end Connect

end BcmMruby.TcpClient
