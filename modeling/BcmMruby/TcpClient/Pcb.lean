import BcmMruby.Core.Run
import BcmMruby.TcpClient.Basic

/-!
# The life of a pcb

`tcphttp_raw_pcb` is overwritten by the next connection attempt and by nothing else, while lwIP
releases the pcb behind it on its own account: before it calls `http_err`, inside the
`tcp_abort` of `http_poll`, and after a `tcp_close` that succeeded. The state holds a table of
all pcbs allocated so far, and `calls` lists the calls into lwIP a step of the program makes
together with the pcb each of them names.

`Session` reads off the events which pcb the program may still use. `callsAlive_iff` compares
the two: the calls of a run name live pcbs exactly when the program uses only what it may.
-/

namespace BcmMruby.TcpClient.Pcb

open Core

/-- A pcb that `tcp_close` has accepted stays with lwIP until the connection is gone. -/
inductive Status where
  | live
  | closed
  | freed
  deriving DecidableEq

/-- Which of `http_connect` and `https_connect` is running. -/
inductive Scheme where
  | http
  | https
  deriving DecidableEq

inductive Event where
  /-- `http_connect` or `https_connect` begins; its `tcphttp_raw_init` obtains a pcb or not. -/
  | connect (scheme : Scheme) (new : Bool)
  /-- The loop of `http_connect` or `https_connect` looks at `tcpstat`. -/
  | look
  /-- `my_tcp_write`, called by the script or, through `sock_write`, by `bear`. -/
  | write
  /-- `http_read` or `sock_read`. -/
  | read (len : ℕ)
  /-- `http_close` or `https_close`; `ok` says whether `tcp_close` succeeds. -/
  | close (ok : Bool)
  | callback (pcb : ℕ) (cb : Callback)
  deriving DecidableEq

structure State where
  client : Client
  /-- The status of each pcb allocated so far. -/
  pcbs : List Status
  /-- The loop the main program is in, if any. -/
  waiting : Option Scheme

def init : State := ⟨Client.zero, [], none⟩

/-- The number the next pcb gets. -/
def State.fresh (s : State) : ℕ := s.pcbs.length

/-- What `tcp_close` with result `ok` does to the table. -/
def tcpClose (pcbs : List Status) (pcb : Option ℕ) (ok : Bool) : List Status :=
  match pcb with
  | some p => if ok ∧ pcbs[p]? = some .live then pcbs.set p .closed else pcbs
  | none => pcbs

/-- The main program takes its steps one after the other; lwIP makes callbacks on a pcb as long
as the pcb is not freed. -/
def step (s : State) : Event → Option State
  | .connect scheme new =>
    if s.waiting ≠ none then none
    else
      some {
        client := tcphttpRawInit s.client (if new then some s.fresh else none)
        pcbs := if new then s.pcbs ++ [.live] else s.pcbs
        waiting := some scheme }
  | .look =>
    if s.waiting = none then none
    else some { s with waiting := if s.client.tcpstat = 0 then s.waiting else none }
  | .write => if s.waiting ≠ none then none else some s
  | .read len =>
    if s.waiting ≠ none then none else some { s with client := (httpRead s.client len).1 }
  | .close ok =>
    if s.waiting ≠ none then none
    else some { s with pcbs := tcpClose s.pcbs s.client.tcphttpRawPcb ok }
  | .callback p cb =>
    if s.pcbs[p]? = some .live ∨ s.pcbs[p]? = some .closed then
      some { s with
        client := TcpClient.callback s.client cb
        pcbs := if cb = .err ∨ cb = .poll then s.pcbs.set p .freed else s.pcbs }
    else none

/-! ### Calls into lwIP -/

inductive LwipCall where
  | tcpSndbuf
  | tcpWrite
  | tcpOutput
  | tcpClose
  | tcpAbort
  deriving DecidableEq

/-- The calls `my_tcp_write` makes, on the pcb it finds in `tcphttp_raw_pcb`. -/
def myTcpWriteCalls (c : Client) : List (LwipCall × Option ℕ) :=
  [(.tcpSndbuf, c.tcphttpRawPcb), (.tcpWrite, c.tcphttpRawPcb), (.tcpOutput, c.tcphttpRawPcb)]

/-- Both `http_close` and `my_tcp_close`. -/
def httpCloseCalls (c : Client) : List (LwipCall × Option ℕ) :=
  [(.tcpClose, c.tcphttpRawPcb)]

/-- `http_connect` writes its header when it finds `tcpstat` at 1; `https_connect` leaves that to
the calls of `sock_write` that follow. -/
def calls (s : State) : Event → List (LwipCall × Option ℕ)
  | .look =>
    if s.waiting = some .http ∧ s.client.tcpstat = 1 then myTcpWriteCalls s.client else []
  | .write => myTcpWriteCalls s.client
  | .close _ => httpCloseCalls s.client
  | .callback p .poll => [(.tcpAbort, some p)]
  | _ => []

/-- Every call of the step names a pcb that has not been released. -/
def CallsAlive (s : State) (e : Event) : Prop :=
  ∀ call ∈ calls s e, ∃ p, call.2 = some p ∧ s.pcbs[p]? = some .live

/-! ### What the program may use -/

/-- The events' own account: how many pcbs have been obtained, the one the program may still
use, and the ones it has closed. -/
structure Session where
  opened : ℕ
  held : Option ℕ
  closed : List ℕ

/-- An error or a poll on the connection takes it away, and so does a successful close. -/
def Session.step (a : Session) : Event → Session
  | .connect _ true => { a with opened := a.opened + 1, held := some a.opened }
  | .connect _ false => { a with held := none }
  | .close true => { a with held := none, closed := a.held.toList ++ a.closed }
  | .callback p .err | .callback p .poll => { a with held := a.held.filter (· ≠ p) }
  | _ => a

def session (es : List Event) : Session := es.foldl Session.step ⟨0, none, []⟩

/-- The program writes to and closes only what it holds, the header of `http_connect` included,
and lwIP polls no connection that the program has closed. -/
def Permitted (a : Session) (s : State) : Event → Prop
  | .look => s.waiting = some .http ∧ s.client.tcpstat = 1 → a.held ≠ none
  | .write | .close _ => a.held ≠ none
  | .callback p .poll => p ∉ a.closed
  | _ => True

lemma session_snoc (es : List Event) (e : Event) : session (es ++ [e]) = (session es).step e := by
  simp [session]

/-- The pcb in `tcphttp_raw_pcb`, if it is live. -/
def State.usable (s : State) : Option ℕ :=
  s.client.tcphttpRawPcb.filter fun p => s.pcbs[p]? = some .live

/-- The table agrees with the events. -/
structure Tracks (pre : List Event) (s : State) : Prop where
  opened : (session pre).opened = s.fresh
  held : (session pre).held = s.usable
  closed : ∀ p, s.pcbs[p]? = some .closed → p ∈ (session pre).closed
  not_live : ∀ p ∈ (session pre).closed, s.pcbs[p]? ≠ some .live ∧ p < s.fresh

lemma usable_eq_none_iff {s : State} :
    s.usable = none ↔ ∀ p, s.client.tcphttpRawPcb = some p → s.pcbs[p]? ≠ some .live := by
  simp [State.usable, Option.filter_eq_none_iff]

lemma usable_eq_some_iff {s : State} {p : ℕ} :
    s.usable = some p ↔ s.client.tcphttpRawPcb = some p ∧ s.pcbs[p]? = some .live := by
  simp [State.usable, Option.filter_eq_some_iff]

@[simp] lemma tcphttpRawPcb_callback (c : Client) (cb : Callback) :
    (TcpClient.callback c cb).tcphttpRawPcb = c.tcphttpRawPcb := by
  cases cb with
  | recv pbuf => cases pbuf <;> rfl
  | _ => rfl

@[simp] lemma tcphttpRawPcb_httpRead (c : Client) (len : ℕ) :
    (httpRead c len).1.tcphttpRawPcb = c.tcphttpRawPcb := by
  rw [httpRead, tcpRead]
  split_ifs <;> rfl

@[simp] lemma tcphttpRawPcb_tcphttpRawInit (c : Client) (pcb : Option ℕ) :
    (tcphttpRawInit c pcb).tcphttpRawPcb = pcb := by
  rw [tcphttpRawInit]
  split_ifs <;> rfl

/-! ### The table follows the events -/

/-- A step that touches neither the table nor `tcphttp_raw_pcb`, under an event that `Session`
passes over. -/
lemma Tracks.frame {pre : List Event} {s s' : State} {e : Event} (h : Tracks pre s)
    (he : (session pre).step e = session pre) (hpcbs : s'.pcbs = s.pcbs)
    (hpcb : s'.client.tcphttpRawPcb = s.client.tcphttpRawPcb) : Tracks (pre ++ [e]) s' := by
  have husable : s'.usable = s.usable := by simp only [State.usable, hpcbs, hpcb]
  refine ⟨?_, ?_, ?_, ?_⟩
  · rw [session_snoc, he, h.opened, State.fresh, State.fresh, hpcbs]
  · rw [session_snoc, he, h.held, husable]
  · rw [session_snoc, he, hpcbs]
    exact h.closed
  · rw [session_snoc, he, hpcbs, State.fresh, hpcbs]
    exact h.not_live

lemma Tracks.connect {pre : List Event} {s : State} (h : Tracks pre s) (scheme : Scheme)
    (new : Bool) :
    Tracks (pre ++ [.connect scheme new])
      { client := tcphttpRawInit s.client (if new then some s.fresh else none)
        pcbs := if new then s.pcbs ++ [.live] else s.pcbs
        waiting := some scheme } := by
  cases new with
  | false =>
    rw [if_neg (by decide), if_neg (by decide)]
    refine ⟨?_, ?_, ?_, ?_⟩
    · rw [session_snoc]
      exact h.opened
    · rw [session_snoc, usable_eq_none_iff.mpr (by simp)]
      rfl
    · rw [session_snoc]
      exact h.closed
    · rw [session_snoc]
      exact h.not_live
  | true =>
    rw [if_pos rfl, if_pos rfl]
    refine ⟨?_, ?_, ?_, ?_⟩
    · simp [session_snoc, Session.step, h.opened, State.fresh]
    · rw [session_snoc, Session.step, h.opened]
      exact (usable_eq_some_iff.mpr (by simp [State.fresh])).symm
    · -- the new pcb is live, the others are as they were
      intro p hp
      rw [session_snoc]
      apply h.closed
      rcases lt_or_ge p s.pcbs.length with hlt | hge
      · rwa [List.getElem?_append_left hlt] at hp
      · rw [List.getElem?_append_right hge, List.getElem?_singleton] at hp
        split_ifs at hp
        cases hp
    · intro p hp
      rw [session_snoc] at hp
      obtain ⟨hlive, hlt⟩ := h.not_live p hp
      constructor
      · rwa [List.getElem?_append_left hlt]
      · simp only [State.fresh, List.length_append, List.length_singleton] at hlt ⊢
        omega

lemma Tracks.close {pre : List Event} {s : State} (h : Tracks pre s) (ok : Bool) :
    Tracks (pre ++ [.close ok])
      { s with pcbs := tcpClose s.pcbs s.client.tcphttpRawPcb ok } := by
  cases hu : s.usable with
  | none =>
    -- nothing live to close: neither side changes
    have htable : tcpClose s.pcbs s.client.tcphttpRawPcb ok = s.pcbs := by
      simp only [tcpClose]
      split
      · next p hp =>
        have := usable_eq_none_iff.mp hu p hp
        simp [this]
      · rfl
    refine h.frame ?_ htable rfl
    have hheld : (session pre).held = none := by rw [h.held, hu]
    cases ok with
    | false => rfl
    | true =>
      cases hses : session pre
      simp_all [Session.step]
  | some p =>
    obtain ⟨hpcb, hlive⟩ := usable_eq_some_iff.mp hu
    have hlt : p < s.pcbs.length := (List.getElem?_eq_some_iff.mp hlive).1
    cases ok with
    | false =>
      refine h.frame rfl ?_ rfl
      simp [tcpClose, hpcb]
    | true =>
      have htable : tcpClose s.pcbs s.client.tcphttpRawPcb true = s.pcbs.set p .closed := by
        simp [tcpClose, hpcb, hlive]
      have hsession : session (pre ++ [.close true]) =
          ⟨(session pre).opened, none, p :: (session pre).closed⟩ := by
        rw [session_snoc, Session.step, h.held, hu]
        rfl
      rw [htable]
      refine ⟨?_, ?_, ?_, ?_⟩
      · simp [hsession, h.opened, State.fresh]
      · rw [hsession, eq_comm, usable_eq_none_iff]
        intro q hq
        cases hpcb.symm.trans hq
        simp [hlt]
      · intro q hq
        rw [hsession]
        by_cases hqp : q = p
        · simp [hqp]
        · rw [List.getElem?_set_ne (Ne.symm hqp)] at hq
          exact List.mem_cons_of_mem _ (h.closed q hq)
      · intro q hq
        rw [hsession] at hq
        rcases List.mem_cons.mp hq with rfl | hq
        · simp [State.fresh, hlt]
        · obtain ⟨hnot, hltq⟩ := h.not_live q hq
          by_cases hqp : q = p
          · exact absurd (hqp ▸ hlive) hnot
          · rw [List.getElem?_set_ne (Ne.symm hqp)]
            simpa [State.fresh] using ⟨hnot, hltq⟩

/-- An error callback and a poll both end with the pcb freed. -/
lemma Tracks.ended {pre : List Event} {s : State} (h : Tracks pre s) {p : ℕ} {cb : Callback}
    (hcb : cb = .err ∨ cb = .poll) :
    Tracks (pre ++ [.callback p cb])
      { s with client := TcpClient.callback s.client cb, pcbs := s.pcbs.set p .freed } := by
  have hsession : session (pre ++ [.callback p cb]) =
      { session pre with held := (session pre).held.filter (· ≠ p) } := by
    rw [session_snoc]
    rcases hcb with rfl | rfl <;> rfl
  refine ⟨?_, ?_, ?_, ?_⟩
  · simp [hsession, h.opened, State.fresh]
  · rw [hsession, h.held]
    ext q
    simp only [Option.filter_eq_some_iff, usable_eq_some_iff, tcphttpRawPcb_callback]
    by_cases hqp : q = p
    · subst hqp
      simp [List.getElem?_set]
    · simp [hqp, List.getElem?_set_ne (Ne.symm hqp)]
  · intro q hq
    rw [hsession]
    by_cases hqp : q = p
    · subst hqp
      simp [List.getElem?_set] at hq
    · rw [List.getElem?_set_ne (Ne.symm hqp)] at hq
      exact h.closed q hq
  · intro q hq
    rw [hsession] at hq
    obtain ⟨hnot, hltq⟩ := h.not_live q hq
    refine ⟨?_, by simpa [State.fresh] using hltq⟩
    by_cases hqp : q = p
    · subst hqp
      simp [List.getElem?_set]
    · rwa [List.getElem?_set_ne (Ne.symm hqp)]

lemma Tracks.step (pre : List Event) (s : State) (e : Event) (s' : State) (h : Tracks pre s)
    (hs : step s e = some s') : Tracks (pre ++ [e]) s' := by
  cases e with
  | connect scheme new =>
    by_cases hw : s.waiting ≠ none
    · rw [Pcb.step, if_pos hw] at hs
      cases hs
    · rw [Pcb.step, if_neg hw] at hs
      cases hs
      exact h.connect scheme new
  | look =>
    by_cases hw : s.waiting = none
    · rw [Pcb.step, if_pos hw] at hs
      cases hs
    rw [Pcb.step, if_neg hw] at hs
    cases hs
    exact h.frame rfl rfl rfl
  | write =>
    simp only [Pcb.step] at hs
    split_ifs at hs
    cases hs
    exact h.frame rfl rfl rfl
  | read len =>
    simp only [Pcb.step] at hs
    split_ifs at hs
    cases hs
    exact h.frame rfl rfl (tcphttpRawPcb_httpRead _ _)
  | close ok =>
    simp only [Pcb.step] at hs
    split_ifs at hs
    cases hs
    exact h.close ok
  | callback p cb =>
    by_cases hp : s.pcbs[p]? = some .live ∨ s.pcbs[p]? = some .closed
    case neg => simp [Pcb.step, hp] at hs
    rw [Pcb.step, if_pos hp] at hs
    cases hs
    by_cases hcb : cb = .err ∨ cb = .poll
    · rw [if_pos hcb]
      exact h.ended hcb
    · rw [if_neg hcb]
      refine h.frame ?_ rfl (tcphttpRawPcb_callback _ _)
      cases cb with
      | err => simp at hcb
      | poll => simp at hcb
      | _ => rfl

lemma tracks_init : Tracks [] init :=
  ⟨rfl, rfl, fun p hp => by simp [init] at hp, fun p hp => by simp [session] at hp⟩

/-! ### Main result -/

/-- Calls on the pcb that `tcphttp_raw_pcb` names. -/
lemma callsAlive_iff_usable {s : State} {cs : List (LwipCall × Option ℕ)} (hne : cs ≠ [])
    (hcs : ∀ call ∈ cs, call.2 = s.client.tcphttpRawPcb) :
    (∀ call ∈ cs, ∃ p, call.2 = some p ∧ s.pcbs[p]? = some .live) ↔ s.usable ≠ none := by
  have husable : (∃ p, s.client.tcphttpRawPcb = some p ∧ s.pcbs[p]? = some .live) ↔
      s.usable ≠ none := by
    simp only [ne_eq, ← Option.isSome_iff_ne_none, Option.isSome_iff_exists, usable_eq_some_iff]
  constructor
  · intro halive
    obtain ⟨call, hcall⟩ := List.exists_mem_of_ne_nil cs hne
    obtain ⟨p, hp, hlive⟩ := halive call hcall
    exact husable.mp ⟨p, (hcs call hcall).symm.trans hp, hlive⟩
  · intro hu call hcall
    rw [hcs call hcall]
    exact husable.mpr hu

lemma callsAlive_myTcpWrite_iff {s : State} :
    (∀ call ∈ myTcpWriteCalls s.client, ∃ p, call.2 = some p ∧ s.pcbs[p]? = some .live) ↔
      s.usable ≠ none :=
  callsAlive_iff_usable (by simp [myTcpWriteCalls]) (by simp [myTcpWriteCalls])

lemma callsAlive_httpClose_iff {s : State} :
    (∀ call ∈ httpCloseCalls s.client, ∃ p, call.2 = some p ∧ s.pcbs[p]? = some .live) ↔
      s.usable ≠ none :=
  callsAlive_iff_usable (by simp [httpCloseCalls]) (by simp [httpCloseCalls])

/-- lwIP polls live and closed pcbs only, so not closed by the program means live. -/
lemma callsAlive_poll_iff {pre : List Event} {s : State} (h : Tracks pre s) {p : ℕ}
    (hp : s.pcbs[p]? = some .live ∨ s.pcbs[p]? = some .closed) :
    CallsAlive s (.callback p .poll) ↔ p ∉ (session pre).closed := by
  have halive : CallsAlive s (.callback p .poll) ↔ s.pcbs[p]? = some .live := by
    simp [CallsAlive, calls]
  rw [halive]
  constructor
  · intro hlive hclosed
    exact (h.not_live p hclosed).1 hlive
  · intro hclosed
    exact hp.resolve_right fun hc => hclosed (h.closed p hc)

lemma callsAlive_iff_permitted {pre : List Event} {s s' : State} {e : Event} (h : Tracks pre s)
    (hs : step s e = some s') : CallsAlive s e ↔ Permitted (session pre) s e := by
  cases e with
  | connect scheme new => simp [CallsAlive, calls, Permitted]
  | look =>
    simp only [CallsAlive, calls, Permitted, h.held]
    split_ifs with hw
    · rw [callsAlive_myTcpWrite_iff]
      simp [hw]
    · simp [hw]
  | write =>
    simp only [CallsAlive, calls, Permitted, h.held]
    exact callsAlive_myTcpWrite_iff
  | read len => simp [CallsAlive, calls, Permitted]
  | close ok =>
    simp only [CallsAlive, calls, Permitted, h.held]
    exact callsAlive_httpClose_iff
  | callback p cb =>
    have hp : s.pcbs[p]? = some .live ∨ s.pcbs[p]? = some .closed := by
      by_contra hp
      simp [Pcb.step, hp] at hs
    cases cb with
    | poll => exact callsAlive_poll_iff h hp
    | _ => simp [CallsAlive, calls, Permitted]

/-- Every call of a run names a live pcb if and only if the program writes to and closes only a
pcb it has obtained and that has neither ended nor been closed since, and lwIP polls none that
the program has closed. -/
theorem callsAlive_iff {es : List Event} {t : State} (hrun : run step init es = some t) :
    Throughout step CallsAlive init es ↔
      ∀ pre e post s, es = pre ++ e :: post → run step init pre = some s →
        Permitted (session pre) s e := by
  rw [throughout_iff hrun]
  refine forall₄_congr fun pre e post s => forall₂_congr fun hsplit hpre => ?_
  have htracks : Tracks pre s := by
    simpa using run_history Tracks.step tracks_init hpre
  obtain ⟨u, hu, hpost⟩ := run_split (hsplit ▸ hrun)
  obtain ⟨s', hs', -⟩ := run_eq_some_cons.mp hpost
  cases hpre.symm.trans hu
  exact callsAlive_iff_permitted htracks hs'

/-- A connection which the program opens, uses and closes. -/
theorem callsAlive_iff_plain :
    (run step init [.connect .http true, .callback 0 .connected, .look, .read 10,
        .close true]).isSome ∧
      (Throughout step CallsAlive init
          [.connect .http true, .callback 0 .connected, .look, .read 10, .close true] ↔
        ∀ pre e post s,
          [.connect .http true, .callback 0 .connected, .look, .read 10, .close true] =
              pre ++ e :: post →
            run step init pre = some s → Permitted (session pre) s e) :=
  ⟨by rfl, callsAlive_iff (Option.eq_some_of_isSome (by rfl))⟩

/-- The connection is reset, `http_read` returns -1, and the script closes: `tcp_close` gets the
pcb that lwIP has freed. -/
theorem close_after_reset_names_freed :
    ∃ s t, run step init [.connect .http true, .callback 0 .connected, .look,
          .callback 0 .err] = some s ∧
      (httpRead s.client 10).2.1 = -1 ∧
      run step s [.read 10, .close true] = some t ∧
      ¬ Throughout step CallsAlive init [.connect .http true, .callback 0 .connected, .look,
          .callback 0 .err, .read 10, .close true] := by
  refine ⟨_, _, rfl, rfl, rfl, fun h => ?_⟩
  have halive := (throughout_iff (t := _) rfl).mp h
    [.connect .http true, .callback 0 .connected, .look, .callback 0 .err, .read 10]
    (.close true) [] _ rfl rfl
  obtain ⟨p, hp, hlive⟩ := halive (.tcpClose, some 0) (List.mem_singleton.mpr rfl)
  cases hp
  cases hlive

end BcmMruby.TcpClient.Pcb
