import BcmMruby.TcpClient.Connect

/-!
# Two connections after one another

The script has closed connection A and opens connection B. A's pcb keeps its callbacks, and they
write the `tcpstat` that belongs to B by now. `step` runs B's `http_connect` and the reads of
the script behind it, interleaved with callbacks of both connections.

The state carries two history variables: `own`, the value `tcpstat` has on account of B alone,
and `late`, which tells whether a callback of A has come since B last wrote `tcpstat`.
`Throughout` of `Clear` says that no test of `tcpstat` is decided by A.
-/

namespace BcmMruby.TcpClient.Isolation

open Core

/-- What lwIP may still do to a connection that has been closed. -/
inductive OldCallback where
  | eos
  | err
  | poll
  deriving DecidableEq

def OldCallback.toCallback : OldCallback → Callback
  | .eos => .recv none
  | .err => .err
  | .poll => .poll

inductive Event where
  /-- The main program goes on. -/
  | main
  /-- A callback on A. -/
  | old (cb : OldCallback)
  /-- A callback on B. -/
  | new (cb : Callback)

/-- How the script reads once `http_connect` has returned: the length of its next `http_read`,
from what it has been given so far. -/
abbrev Script := ℤ → List (ℤ × List UInt8) → Option ℕ

structure State where
  prog : Program
  /-- The results of `http_read`. -/
  results : List (ℤ × List UInt8)
  own : ℤ
  late : Bool

/-- A has been closed; `c` is what it has left in the globals. -/
def init (c : Client) : State := ⟨⟨c, .start⟩, [], c.tcpstat, false⟩

/-- A data segment does not touch `tcpstat`. -/
def Callback.writesStat : Callback → Bool
  | .recv (some _) => false
  | _ => true

def readNext (s : State) (len : ℕ) : State :=
  { s with
    prog := { s.prog with client := (httpRead s.prog.client len).1 }
    results := s.results ++ [(httpRead s.prog.client len).2] }

/-- The next step of the main program: `http_connect`, then one `http_read` after the other. -/
def mainNext (pcb : Option ℕ) (script : Script) (s : State) : Option State :=
  match s.prog.pc with
  | .returned r => (script r s.results).map (readNext s)
  | .connecting =>
    (mainStep true pcb s.prog).map fun prog => { s with prog := prog, own := 0, late := false }
  | _ => (mainStep true pcb s.prog).map fun prog => { s with prog := prog }

def deliverNew (s : State) (cb : Callback) : State :=
  let client := TcpClient.callback s.prog.client cb
  { s with
    prog := { s.prog with client := client }
    own := if Callback.writesStat cb then client.tcpstat else s.own
    late := s.late && !Callback.writesStat cb }

def step (pcb : Option ℕ) (script : Script) (s : State) : Event → Option State
  | .main => mainNext pcb script s
  | .old cb =>
    some { s with
      prog := { s.prog with client := TcpClient.callback s.prog.client cb.toCallback }
      late := true }
  | .new cb =>
    if s.prog.pc = .start ∨ pcb = none then none else some (deliverNew s cb)

/-- The test of `tcpstat` the main program makes next, if any, has the same outcome with and
without the callbacks of A. -/
def Clear (s : State) : Event → Prop
  | .main =>
    s.late = true →
      match s.prog.pc with
      | .waiting => s.own ≠ 0
      | .left => s.own ≠ 1
      | .returned _ => s.prog.client.tcplen = 0 → s.own ≥ 2
      | _ => True
  | _ => True

/-- The labels without the callbacks of A. -/
def Event.isOwn : Event → Bool
  | .old _ => false
  | _ => true

/-- What the script has seen: how far `http_connect` is, or what it has returned, and the
results of the reads. -/
def State.seen (s : State) : Pc × List (ℤ × List UInt8) := (s.prog.pc, s.results)

/-! ### The globals without A -/

/-- The globals with another `tcpstat`. -/
def withStat (c : Client) (tcpstat : ℤ) : Client := { c with tcpstat := tcpstat }

lemma callback_withStat (c : Client) (v : ℤ) (cb : Callback) :
    TcpClient.callback (withStat c v) cb =
      withStat (TcpClient.callback c cb)
        (if Callback.writesStat cb then (TcpClient.callback c cb).tcpstat else v) := by
  cases cb with
  | recv pbuf => cases pbuf <;> rfl
  | _ => rfl

lemma tcpstat_callback_of_not_writesStat (c : Client) {cb : Callback}
    (h : Callback.writesStat cb = false) : (TcpClient.callback c cb).tcpstat = c.tcpstat := by
  cases cb with
  | recv pbuf => cases pbuf <;> simp_all [Callback.writesStat, TcpClient.callback, httpRecv]
  | _ => simp [Callback.writesStat] at h

lemma withStat_callback_old (c : Client) (v : ℤ) (cb : OldCallback) :
    withStat (TcpClient.callback c cb.toCallback) v = withStat c v := by
  cases cb <;> rfl

lemma tcpstat_callback_old (c : Client) (cb : OldCallback) :
    (TcpClient.callback c cb.toCallback).tcpstat ≥ 2 := by
  cases cb <;> simp [OldCallback.toCallback, TcpClient.callback, httpRecv, httpErr, httpPoll]

@[simp] lemma tcpstat_httpRead (c : Client) (len : ℕ) :
    (httpRead c len).1.tcpstat = c.tcpstat := by
  rw [httpRead, tcpRead]
  split_ifs <;> rfl

/-- `http_read` looks at `tcpstat` only if the buffer is empty, and then only whether it is 2 or
more. -/
lemma httpRead_withStat {c : Client} {v : ℤ} (h : c.tcplen = 0 → (c.tcpstat ≥ 2 ↔ v ≥ 2))
    (len : ℕ) :
    httpRead (withStat c v) len = (withStat (httpRead c len).1 v, (httpRead c len).2) := by
  simp only [httpRead, tcpRead, withStat]
  by_cases hc : c.tcplen = 0
  · by_cases hv : v ≥ 2
    · simp [hc, hv, h hc]
    · simp [hc, hv, h hc]
  · simp only [hc, ne_eq, not_false_eq_true, if_true]
    rfl

/-- The state of the run without A's callbacks. -/
def clean (s : State) : State :=
  { s with
    prog := { s.prog with client := withStat s.prog.client s.own }
    late := false }

/-- A's last word is 2 or 3, and without one `tcpstat` is B's. -/
structure Agrees (s : State) : Prop where
  own : s.late = false → s.prog.client.tcpstat = s.own
  late : s.late = true → s.prog.client.tcpstat ≥ 2

lemma clean_of_not_late {s : State} (h : Agrees s) (hlate : s.late = false) : clean s = s := by
  have hclient : withStat s.prog.client s.own = s.prog.client := by rw [← h.own hlate]; rfl
  rw [clean, hclient, ← hlate]

/-! ### Steps -/

/-- The steps of the main program. -/
inductive MainRule (pcb : Option ℕ) (script : Script) (s : State) : State → Prop where
  | start (hpc : s.prog.pc = .start) :
      MainRule pcb script s { s with
        prog := ⟨{ s.prog.client with tcphttpRawPcb := pcb },
          if pcb ≠ none then .connecting else .waiting⟩ }
  | store (hpc : s.prog.pc = .connecting) :
      MainRule pcb script s { s with
        prog := ⟨withStat s.prog.client 0, .waiting⟩, own := 0, late := false }
  | look (hpc : s.prog.pc = .waiting) :
      MainRule pcb script s { s with
        prog := ⟨s.prog.client, if s.prog.client.tcpstat = 0 then .waiting else .left⟩ }
  | test (hpc : s.prog.pc = .left) :
      MainRule pcb script s { s with
        prog := ⟨s.prog.client, connectEnd true s.prog.client⟩ }
  | read (r : ℤ) (len : ℕ) (hpc : s.prog.pc = .returned r)
      (hscript : script r s.results = some len) : MainRule pcb script s (readNext s len)

lemma mainNext_eq_some_iff {pcb : Option ℕ} {script : Script} {s s' : State} :
    mainNext pcb script s = some s' ↔ MainRule pcb script s s' := by
  constructor
  · intro h
    rw [mainNext] at h
    cases hpc : s.prog.pc with
    | returned r =>
      simp only [hpc] at h
      obtain ⟨len, hscript, rfl⟩ := Option.map_eq_some_iff.mp h
      exact .read r len hpc hscript
    | start =>
      simp only [hpc, mainStep, Option.map_some, Option.some.injEq] at h
      exact h ▸ .start hpc
    | connecting =>
      simp only [hpc, mainStep, Option.map_some, Option.some.injEq] at h
      exact h ▸ .store hpc
    | waiting =>
      simp only [hpc, mainStep, Option.map_some, Option.some.injEq] at h
      exact h ▸ .look hpc
    | left =>
      simp only [hpc, mainStep, Option.map_some, Option.some.injEq] at h
      exact h ▸ .test hpc
    | trapped => simp [hpc, mainStep] at h
  · intro h
    cases h with
    | start hpc => simp [mainNext, hpc, mainStep]
    | store hpc => simp [mainNext, hpc, mainStep, withStat]
    | look hpc => simp [mainNext, hpc, mainStep]
    | test hpc => simp [mainNext, hpc, mainStep]
    | read r len hpc hscript => simp [mainNext, hpc, hscript]

lemma MainRule.unique {pcb : Option ℕ} {script : Script} {s s₁ s₂ : State}
    (h₁ : MainRule pcb script s s₁) (h₂ : MainRule pcb script s s₂) : s₁ = s₂ := by
  rw [← mainNext_eq_some_iff] at h₁ h₂
  exact Option.some.inj (h₁.symm.trans h₂)

lemma Agrees.step {pcb : Option ℕ} {script : Script} (s : State) (e : Event) (s' : State)
    (h : Agrees s) (hs : step pcb script s e = some s') : Agrees s' := by
  cases e with
  | main =>
    cases mainNext_eq_some_iff.mp hs with
    | store hpc => exact ⟨fun _ => rfl, by simp⟩
    | read r len hpc hscript =>
      exact ⟨fun hl => (tcpstat_httpRead _ _).trans (h.own hl),
        fun hl => (tcpstat_httpRead _ _).symm ▸ h.late hl⟩
    | _ => exact ⟨h.own, h.late⟩
  | old cb =>
    cases hs
    exact ⟨by simp, fun _ => tcpstat_callback_old _ cb⟩
  | new cb =>
    rw [Isolation.step] at hs
    split_ifs at hs
    cases hs
    cases hw : Callback.writesStat cb with
    | true => exact ⟨fun _ => by simp [deliverNew, hw], by simp [deliverNew, hw]⟩
    | false =>
      have hstat := tcpstat_callback_of_not_writesStat s.prog.client hw
      constructor
      · intro hl
        have hown := h.own (by simpa [deliverNew, hw] using hl)
        simp [deliverNew, hw, hstat, hown]
      · intro hl
        have hlate := h.late (by simpa [deliverNew, hw] using hl)
        simpa [deliverNew, hw, hstat] using hlate

/-- The main program does the same without A's callbacks as long as the step is clear. -/
lemma MainRule.clean {pcb : Option ℕ} {script : Script} {s s' : State} (h : Agrees s)
    (hlate : s.late = true) (hclear : Clear s .main) (hs : MainRule pcb script s s') :
    MainRule pcb script (clean s) (clean s') := by
  have hstat := h.late hlate
  have hclear := hclear hlate
  cases hs with
  | start hpc => exact .start hpc
  | store hpc => exact .store hpc
  | look hpc =>
    -- both look at a value that is not 0
    have hown : s.own ≠ 0 := by simpa [hpc] using hclear
    have hne : s.prog.client.tcpstat ≠ 0 := by omega
    have hlook : MainRule pcb script (Isolation.clean s) _ := .look hpc
    simpa [Isolation.clean, withStat, hne, hown] using hlook
  | test hpc =>
    -- neither finds 1
    have hown : s.own ≠ 1 := by simpa [hpc] using hclear
    have hne : s.prog.client.tcpstat ≠ 1 := by omega
    have htest : MainRule pcb script (Isolation.clean s) _ := .test hpc
    simpa [Isolation.clean, withStat, connectEnd, hne, hown] using htest
  | read r len hpc hscript =>
    have hread : s.prog.client.tcplen = 0 → (s.prog.client.tcpstat ≥ 2 ↔ s.own ≥ 2) := by
      intro hempty
      exact iff_of_true hstat (by simpa [hpc, hempty] using hclear)
    have hnext : MainRule pcb script (Isolation.clean s) _ := .read r len hpc hscript
    simpa [Isolation.clean, readNext, httpRead_withStat hread] using hnext

lemma clean_step {pcb : Option ℕ} {script : Script} (s : State) (e : Event) (s' : State)
    (h : Agrees s) (hclear : Clear s e) (hown : e.isOwn = true)
    (hs : step pcb script s e = some s') : step pcb script (clean s) e = some (clean s') := by
  cases e with
  | main =>
    cases hlate : s.late with
    | false =>
      have hlate' : s'.late = false := by
        cases mainNext_eq_some_iff.mp hs with
        | store hpc => rfl
        | _ => exact hlate
      rwa [clean_of_not_late h hlate, clean_of_not_late (h.step s .main s' hs) hlate']
    | true =>
      exact mainNext_eq_some_iff.mpr ((mainNext_eq_some_iff.mp hs).clean h hlate hclear)
  | old cb => simp [Event.isOwn] at hown
  | new cb =>
    rw [Isolation.step] at hs ⊢
    split_ifs at hs with hpc
    cases hs
    rw [if_neg (by exact hpc)]
    cases hw : Callback.writesStat cb
    all_goals
      simp only [clean, deliverNew, callback_withStat, hw]
      rfl

lemma clean_step_old {pcb : Option ℕ} {script : Script} (s : State) (e : Event) (s' : State)
    (hown : e.isOwn = false) (hs : step pcb script s e = some s') : clean s' = clean s := by
  cases e with
  | old cb =>
    cases hs
    simp only [clean, withStat_callback_old]
  | main => simp [Event.isOwn] at hown
  | new cb => simp [Event.isOwn] at hown

/-- A step that is not clear shows: the two runs part there. -/
lemma clear_of_seen_eq {pcb : Option ℕ} {script : Script} {s s' u : State} (h : Agrees s)
    (hs : MainRule pcb script s s') (hu : MainRule pcb script (clean s) u)
    (hseen : u.seen = s'.seen) : Clear s .main := by
  intro hlate
  have hstat := h.late hlate
  cases hs with
  | start hpc => simp [hpc]
  | store hpc => simp [hpc]
  | look hpc =>
    simp only [hpc]
    rintro hown
    cases hu.unique (.look hpc)
    have hne : s.prog.client.tcpstat ≠ 0 := by omega
    have hpcs := congrArg Prod.fst hseen
    simp [State.seen, clean, withStat, hown, hne] at hpcs
  | test hpc =>
    simp only [hpc]
    rintro hown
    cases hu.unique (.test hpc)
    have hne : s.prog.client.tcpstat ≠ 1 := by omega
    have hpcs := congrArg Prod.fst hseen
    simp only [State.seen, connectEnd_of_ne_one hne] at hpcs
    simp only [clean, withStat, connectEnd, hown, if_true] at hpcs
    split_ifs at hpcs
    cases hpcs
  | read r len hpc hscript =>
    simp only [hpc]
    intro hempty
    by_contra hown
    cases hu.unique (.read r len hpc hscript)
    have hresults := congrArg Prod.snd hseen
    simp [State.seen, clean, readNext, httpRead, tcpRead, withStat, hempty, hown, hstat]
      at hresults

lemma agrees_init (c : Client) : Agrees (init c) := ⟨fun _ => rfl, by simp [init]⟩

lemma clean_init (c : Client) : clean (init c) = init c := clean_of_not_late (agrees_init c) rfl

/-! ### Main result -/

lemma run_own {pcb : Option ℕ} {script : Script} {c : Client} {es : List Event} {t : State}
    (hclear : Throughout (step pcb script) Clear (init c) es)
    (hrun : run (step pcb script) (init c) es = some t) :
    run (step pcb script) (init c) (es.filter Event.isOwn) = some (clean t) := by
  have h := run_filter Agrees.step clean_step clean_step_old (agrees_init c) hclear hrun
  rwa [clean_init] at h

/-- The script sees at every moment what it would see without A's callbacks, if and only if
every step of the main program is clear. -/
theorem seen_eq_iff {pcb : Option ℕ} {script : Script} {c : Client} {es : List Event} {t : State}
    (hrun : run (step pcb script) (init c) es = some t) :
    (∀ pre post s, es = pre ++ post → run (step pcb script) (init c) pre = some s →
        ∃ u, run (step pcb script) (init c) (pre.filter Event.isOwn) = some u ∧
          u.seen = s.seen) ↔
      Throughout (step pcb script) Clear (init c) es := by
  constructor
  · intro hsame
    apply throughout_of_forall
    intro pre e post s s' hsplit hpre hs hs'
    have hagrees := run_invariant_always Agrees.step (agrees_init c) hs
    have hpre' := run_own hpre hs
    obtain ⟨u, hu, hseen⟩ := hsame (pre ++ [e]) post s' (by simp [hsplit])
      (run_trans hs (by simp [hs']))
    cases e with
    | main =>
      rw [List.filter_append, run_append, hpre'] at hu
      obtain ⟨u', hmain, hu'⟩ := run_eq_some_cons.mp hu
      cases hu'
      exact clear_of_seen_eq hagrees (mainNext_eq_some_iff.mp hs')
        (mainNext_eq_some_iff.mp hmain) hseen
    | _ => trivial
  · intro hclear pre post s hsplit hs
    subst hsplit
    exact ⟨clean s, run_own ((throughout_append hs).mp hclear).1 hs, rfl⟩

/-- A's end of stream comes while the program is in `tcphttp_raw_init`, and does no harm. -/
theorem seen_eq_iff_before_store :
    (run (step (some 1) fun _ _ => none) (init Client.zero)
        [.main, .old .eos, .main, .new .connected, .main, .main]).isSome ∧
      ((∀ pre post s,
          [Event.main, .old .eos, .main, .new .connected, .main, .main] = pre ++ post →
          run (step (some 1) fun _ _ => none) (init Client.zero) pre = some s →
          ∃ u, run (step (some 1) fun _ _ => none) (init Client.zero)
              (pre.filter Event.isOwn) = some u ∧ u.seen = s.seen) ↔
        Throughout (step (some 1) fun _ _ => none) Clear (init Client.zero)
          [.main, .old .eos, .main, .new .connected, .main, .main]) :=
  ⟨rfl, seen_eq_iff (Option.eq_some_of_isSome rfl)⟩

/-- The peer's FIN on A arrives while B is being connected: `http_connect` returns 0 for a
connection that comes about. -/
theorem late_fin_fails_connect :
    ∃ s u, run (step (some 1) fun _ _ => some 10) (init (httpConnected Client.zero))
        [.main, .main, .main, .old .eos, .main, .main, .new .connected, .main, .main] = some s ∧
      run (step (some 1) fun _ _ => some 10) (init (httpConnected Client.zero))
        ([.main, .main, .main, .old .eos, .main, .main, .new .connected, .main, .main].filter
          Event.isOwn) = some u ∧
      s.prog.pc = .returned 0 ∧ u.prog.pc = .returned 1 :=
  ⟨_, _, rfl, rfl, rfl, rfl⟩

end BcmMruby.TcpClient.Isolation
