import BcmMruby.HttpServer.Request

/-!
# Taking the request over

`httpsvr_copyreq` runs in the main program and does not mask interrupts: it loads `reqlen` for its
result, for the test and for `memcpy`, copies byte by byte and stores 0 in `reqlen`. The interrupt
can run `httpsvr_recv` between any two of these accesses, for any connection; the connections share
`reqbuff` and `reqlen`. The state keeps, next to these, the segments that requests have been stored
from since the latest call started, and those that the call may take its request from.
-/

namespace BcmMruby.HttpServer

open Core

/-! ### What `httpsvr_recv` stores -/

/-- The globals that take a request. -/
def Server.request (s : Server) : (ℕ → Byte) × ℕ := (s.reqbuff, s.reqlen)

variable {lw : Lwip} {s s' : Server} {es : HttpsvrState} {ids : List ℕ}

lemma pbufFree_request {p : ℕ} (h : s.pbufFree lw p = some s') : s'.request = s.request := by
  obtain ⟨c, -, rfl⟩ := Option.map_eq_some_iff.mp h
  rfl

lemma pbufRef_request {p : ℕ} (h : s.pbufRef lw p = some s') : s'.request = s.request := by
  obtain ⟨c, -, rfl⟩ := Option.map_eq_some_iff.mp h
  rfl

lemma httpsvrClose_request {arg : Bool} (h : httpsvrClose lw arg s = some s') :
    s'.request = s.request := by
  simp only [httpsvrClose, Option.bind_eq_bind, Option.bind_eq_some_iff] at h
  obtain ⟨t, hfree, ht⟩ := h
  cases ht
  show t.request = s.request
  cases arg with
  | false =>
    cases hfree
    rfl
  | true =>
    simp only [httpsvrFree, if_true, Option.bind_eq_bind, Option.bind_eq_some_iff] at hfree
    obtain ⟨es, -, hfree⟩ := hfree
    cases hp : es.p with
    | none =>
      rw [hp] at hfree
      cases hfree
      rfl
    | some p =>
      simp only [hp, Option.bind_eq_some_iff] at hfree
      obtain ⟨u, hpbuf, hu⟩ := hfree
      cases hu
      have hu := pbufFree_request hpbuf
      exact hu

lemma httpsvrSend_request {turns : List Turn} (h : httpsvrSend lw turns s = some s') :
    s'.request = s.request := by
  induction turns generalizing s with
  | nil =>
    cases h
    rfl
  | cons t ts ih =>
    simp only [httpsvrSend, Option.bind_eq_bind, Option.bind_eq_some_iff] at h
    obtain ⟨es, -, h⟩ := h
    cases hp : es.p with
    | none =>
      rw [hp] at h
      cases h
      rfl
    | some ptr =>
      simp only [hp, Option.bind_eq_some_iff] at h
      obtain ⟨c, -, h⟩ := h
      split_ifs at h
      · cases hwr : t.wrErr with
        | ok =>
          cases hc : c.next with
          | none =>
            simp only [hwr, hc, Option.bind_eq_some_iff, Option.bind_some] at h
            obtain ⟨u, hfree, hsend⟩ := h
            have hu := pbufFree_request hfree
            exact (ih hsend).trans hu
          | some q =>
            simp only [hwr, hc, Option.bind_eq_some_iff] at h
            obtain ⟨t, href, u, hfree, hsend⟩ := h
            have ht := pbufRef_request href
            exact (ih hsend).trans ((pbufFree_request hfree).trans ht)
        | mem | val | abrt | other =>
          rw [hwr] at h
          cases h
          rfl
      · cases h
        rfl

lemma respond_request (env : Env) : (respond lw env s).request = s.request := by
  rw [respond]
  split <;> rfl

/-- A null pbuf does not touch the request. -/
lemma httpsvrRecv_request_null (hl : Live s es ids) {env : Env} {r : Err}
    (h : httpsvrRecv lw true none .ok env s = some (s', r)) : s'.request = s.request := by
  simp only [httpsvrRecv, Server.deref, hl.record, if_true, Option.bind_eq_bind,
    Option.bind_some] at h
  split_ifs at h with hp
  · obtain ⟨u, hclose, hu⟩ := Option.bind_eq_some_iff.mp h
    cases hu
    have hs' := httpsvrClose_request hclose
    exact hs'
  · obtain ⟨u, hsend, hu⟩ := Option.bind_eq_some_iff.mp h
    cases hu
    have hs' := httpsvrSend_request hsend
    exact hs'

/-- The first segment of a connection is stored. -/
lemma httpsvrRecv_request_first (hl : Live s es ids) (hstate : es.state = .esAccepted)
    {data : List (List Byte)} (hdata : data ≠ []) {env : Env} {r : Err}
    (h : httpsvrRecv lw true (s.pbufs.allocChain data).1 .ok env
      { s with pbufs := (s.pbufs.allocChain data).2 } = some (s', r)) :
    s'.request = (store s.reqbuff 0 (data.flatten.take reqbuffSize),
      (data.flatten.take reqbuffSize).length) := by
  obtain ⟨t, -, ⟨hreqbuff, -, -, -, -, -, hreqlen⟩, -, hfound⟩ := attach_eq lw env hdata hl hstate
  have ht : t.request = (store s.reqbuff 0 (data.flatten.take reqbuffSize),
      (data.flatten.take reqbuffSize).length) := Prod.ext hreqbuff hreqlen
  rw [h] at hfound
  split_ifs at hfound
  · obtain ⟨u, hsend, hu⟩ := Option.bind_eq_some_iff.mp hfound.symm
    cases hu
    exact (httpsvrSend_request hsend).trans ((respond_request env).trans ht)
  · cases hfound
    exact ht

/-- Later segments are not. -/
lemma httpsvrRecv_request_closing (hl : Live s es ids) (hstate : es.state = .esClosing)
    {data : List (List Byte)} (hdata : data ≠ []) {env : Env} {r : Err}
    (h : httpsvrRecv lw true (s.pbufs.allocChain data).1 .ok env
      { s with pbufs := (s.pbufs.allocChain data).2 } = some (s', r)) :
    s'.request = s.request := by
  obtain ⟨p, pbufs, h', halloc, -⟩ := segment_spec lw s hdata hl.freed
  simp only [halloc, httpsvrRecv, Server.deref, hl.record, if_true, Option.bind_eq_bind,
    Option.bind_some, hstate, ne_eq, not_true_eq_false, if_false] at h
  obtain ⟨u, hfree, hu⟩ := Option.bind_eq_some_iff.mp h
  cases hu
  have hs' := pbufFree_request hfree
  exact hs'

lemma httpsvrRecv_request (lw : Lwip) (hl : Live s es ids) (data : List (List Byte)) (env : Env) :
    ∃ s', httpsvrRecv lw true (s.pbufs.allocChain data).1 .ok env
        { s with pbufs := (s.pbufs.allocChain data).2 } = some (s', .ok) ∧
      s'.request =
        if data ≠ [] ∧ es.state = .esAccepted then
          (store s.reqbuff 0 (data.flatten.take reqbuffSize),
            (data.flatten.take reqbuffSize).length)
        else s.request := by
  obtain ⟨s', hrecv, -⟩ := httpsvrRecv_spec lw env data hl
  refine ⟨s', hrecv, ?_⟩
  by_cases hdata : data = []
  · subst hdata
    rw [if_neg (by simp)]
    exact httpsvrRecv_request_null hl hrecv
  rcases hl.state with hstate | hstate
  · rw [if_pos ⟨hdata, hstate⟩]
    exact httpsvrRecv_request_first hl hstate hdata hrecv
  · rw [if_neg (by simp [hstate])]
    exact httpsvrRecv_request_closing hl hstate hdata hrecv

/-- An open connection. -/
structure Connection where
  server : Server
  es : HttpsvrState
  ids : List ℕ
  live : Live server es ids

namespace Copyreq

/-! ### The machine -/

/-- `httpsvr_copyreq`, left alone: its result, the buffer and `reqlen`. -/
def httpsvrCopyreq (reqbuff : ℕ → Byte) (reqlen : ℕ) (buff : ℕ → Byte) : ℕ × (ℕ → Byte) × ℕ :=
  let res := reqlen
  if reqlen ≠ 0 then (res, store buff 0 (load reqbuff 0 reqlen), 0) else (res, buff, reqlen)

/-- The next access of the main program. -/
inductive Pc where
  | idle
  /-- Load `reqlen` for the test. -/
  | test (res : ℕ)
  /-- Load it for `memcpy`. -/
  | size (res : ℕ)
  /-- Copy byte `i`, or store 0 in `reqlen` when all have been copied. -/
  | copy (res n i : ℕ)
  deriving DecidableEq

/-- A call that has returned. -/
structure Call where
  res : ℕ
  copied : List Byte
  /-- The segments stored between the start of the call before it and its own. -/
  owed : List (List Byte)
  deriving DecidableEq

structure State where
  reqbuff : ℕ → Byte
  reqlen : ℕ
  /-- The buffer of the caller. -/
  buff : ℕ → Byte
  pc : Pc
  /-- The segments stored since the latest call started, the latest one first. -/
  stored : List (List Byte)
  /-- Those stored before that, since the start of the call before. -/
  owed : List (List Byte)
  calls : List Call

/-- After `httpsvr_init`, over any memory. -/
def init (reqbuff : ℕ → Byte) : State := ⟨reqbuff, 0, fun _ => 0, .idle, [], [], []⟩

inductive Event where
  /-- `httpsvr_recv` with a segment, or with the null pbuf of the end of the stream. -/
  | segment (conn : Connection) (d : Segment)
  | ended (conn : Connection) (env : Env)
  /-- The main program calls `httpsvr_copyreq`, which loads `reqlen` for its result. -/
  | call (buff : ℕ → Byte)
  | main

/-- `httpsvr_recv` on a connection that shares the globals of `s`. -/
def recv (lw : Lwip) (conn : Connection) (data : List (List Byte)) (env : Env) (s : State) :
    Option State :=
  let server := { conn.server with reqbuff := s.reqbuff, reqlen := s.reqlen }
  let (p, pbufs) := server.pbufs.allocChain data
  (httpsvrRecv lw server.pcb.arg p .ok env { server with pbufs := pbufs }).map fun (t, _) =>
    { s with reqbuff := t.reqbuff, reqlen := t.reqlen }

def State.finish (s : State) (res : ℕ) (copied : List Byte) : State :=
  { s with pc := .idle, calls := ⟨res, copied, s.owed⟩ :: s.calls }

def mainStep (s : State) : Option State :=
  match s.pc with
  | .idle => none
  | .test res => some (if s.reqlen ≠ 0 then { s with pc := .size res } else s.finish res [])
  | .size res => some { s with pc := .copy res s.reqlen 0 }
  | .copy res n i =>
    some (if i < n then
      { s with buff := store s.buff i [s.reqbuff i], pc := .copy res n (i + 1) }
    else { s with reqlen := 0 }.finish res (load s.buff 0 n))

def step (lw : Lwip) (s : State) : Event → Option State
  | .segment conn d =>
    (recv lw conn d.data d.env s).map fun t =>
      if conn.es.state = .esAccepted then { t with stored := d.bytes :: s.stored } else t
  | .ended conn env => recv lw conn [] env s
  | .call buff =>
    match s.pc with
    | .idle => some { s with buff, pc := .test s.reqlen, stored := [], owed := s.stored }
    | _ => none
  | .main => mainStep s

/-- The first 1024 bytes of the latest one of these segments. -/
def latest (segments : List (List Byte)) : List Byte :=
  (segments.head?.getD []).take reqbuffSize

/-- The request that waits for a call. -/
def State.waiting (s : State) : List Byte := load s.reqbuff 0 s.reqlen

/-- The result is the number of bytes copied, and they are the latest request stored before the
call started. -/
def Call.Faithful (c : Call) : Prop := c.res = c.copied.length ∧ c.copied = latest c.owed

/-- What every call has returned, and between calls what waits: the latest request stored since a
call started. -/
structure Sound (s : State) : Prop where
  returned : ∀ c ∈ s.calls, c.Faithful
  kept : s.pc = .idle → s.waiting = latest s.stored

/-- No request is stored while a call is under way. -/
def Quiet (s : State) : Event → Prop
  | .segment conn _ => conn.es.state = .esAccepted → s.pc = .idle
  | _ => True

/-! ### What a step can do -/

lemma recv_eq (conn : Connection) (data : List (List Byte)) (env : Env) (s : State) :
    recv lw conn data env s = some
      (if data ≠ [] ∧ conn.es.state = .esAccepted then
        { s with
          reqbuff := store s.reqbuff 0 (data.flatten.take reqbuffSize)
          reqlen := (data.flatten.take reqbuffSize).length }
      else s) := by
  have hl := conn.live
  let server := { conn.server with reqbuff := s.reqbuff, reqlen := s.reqlen }
  have hserver : Live server conn.es conn.ids :=
    ⟨hl.record, hl.frees, hl.pcb, hl.owns, hl.freed, hl.state, hl.ledger⟩
  have harg : conn.server.pcb.arg = true := by rw [hl.pcb]
  obtain ⟨t, hrecv, hrequest⟩ := httpsvrRecv_request lw hserver data env
  have hdone : recv lw conn data env s =
      some { s with reqbuff := t.reqbuff, reqlen := t.reqlen } := by
    simp only [recv, harg]
    exact congrArg (Option.map _) hrecv
  rw [hdone]
  split_ifs at hrequest ⊢
  all_goals
    obtain ⟨hreqbuff, hreqlen⟩ := Prod.mk.inj hrequest
    rw [hreqbuff, hreqlen]

inductive Rule (s : State) : Event → State → Prop where
  | stored (conn : Connection) (d : Segment) (hfirst : conn.es.state = .esAccepted) :
      Rule s (.segment conn d) { s with
        reqbuff := store s.reqbuff 0 (d.bytes.take reqbuffSize)
        reqlen := (d.bytes.take reqbuffSize).length
        stored := d.bytes :: s.stored }
  | thrown (conn : Connection) (d : Segment) (hfirst : conn.es.state ≠ .esAccepted) :
      Rule s (.segment conn d) s
  | ended (conn : Connection) (env : Env) : Rule s (.ended conn env) s
  | call (buff : ℕ → Byte) (hpc : s.pc = .idle) :
      Rule s (.call buff) { s with
        buff, pc := .test s.reqlen, stored := [], owed := s.stored }
  | empty (res : ℕ) (hpc : s.pc = .test res) (hlen : s.reqlen = 0) :
      Rule s .main (s.finish res [])
  | found (res : ℕ) (hpc : s.pc = .test res) (hlen : s.reqlen ≠ 0) :
      Rule s .main { s with pc := .size res }
  | size (res : ℕ) (hpc : s.pc = .size res) :
      Rule s .main { s with pc := .copy res s.reqlen 0 }
  | byte (res n i : ℕ) (hpc : s.pc = .copy res n i) (hi : i < n) :
      Rule s .main { s with buff := store s.buff i [s.reqbuff i], pc := .copy res n (i + 1) }
  | clear (res n i : ℕ) (hpc : s.pc = .copy res n i) (hi : n ≤ i) :
      Rule s .main ({ s with reqlen := 0 }.finish res (load s.buff 0 n))

lemma Rule.of_step {s s' : State} {e : Event} (h : step lw s e = some s') : Rule s e s' := by
  cases e with
  | segment conn d =>
    simp only [step, recv_eq, Option.map_some, Option.some.injEq, d.data_ne_nil, ne_eq,
      not_false_eq_true, true_and] at h
    by_cases hfirst : conn.es.state = .esAccepted
    · rw [if_pos hfirst, if_pos hfirst] at h
      cases h
      exact .stored conn d hfirst
    · rw [if_neg hfirst, if_neg hfirst] at h
      cases h
      exact .thrown conn d hfirst
  | ended conn env =>
    rw [step, recv_eq, if_neg (by simp)] at h
    cases h
    exact .ended conn env
  | call buff =>
    simp only [step] at h
    cases hpc : s.pc with
    | idle =>
      rw [hpc] at h
      cases h
      exact .call buff hpc
    | test _ | size _ | copy _ _ _ =>
      rw [hpc] at h
      cases h
  | main =>
    simp only [step, mainStep] at h
    cases hpc : s.pc with
    | idle =>
      rw [hpc] at h
      cases h
    | test res =>
      rw [hpc] at h
      cases h
      split_ifs with hlen
      · exact .found res hpc hlen
      · exact .empty res hpc (not_not.mp hlen)
    | size res =>
      rw [hpc] at h
      cases h
      exact .size res hpc
    | copy res n i =>
      rw [hpc] at h
      cases h
      split_ifs with hi
      · exact .byte res n i hpc hi
      · exact .clear res n i hpc (not_lt.mp hi)

/-- What is left of `memcpy`. -/
lemma run_copy (lw : Lwip) {s : State} {res n i k : ℕ} (hpc : s.pc = .copy res n i)
    (hk : i + k = n) :
    run (step lw) s (List.replicate k .main) =
      some { s with buff := store s.buff i (load s.reqbuff i k), pc := .copy res n n } := by
  induction k generalizing s i with
  | zero =>
    rw [Nat.add_zero] at hk
    subst hk
    rw [List.replicate_zero, run_nil, load_zero, store_nil, ← hpc]
  | succ k ih =>
    have hi : i < n := by omega
    rw [List.replicate_succ, run_cons]
    simp only [step, mainStep, hpc, if_pos hi, Option.bind_some]
    have hcons : store s.buff i (load s.reqbuff i (k + 1)) =
        store (store s.buff i [s.reqbuff i]) (i + 1) (load s.reqbuff (i + 1) k) :=
      store_cons _ _ _ _
    rw [ih rfl (by omega), hcons]

/-- Left alone, the accesses of the machine make up the function of the source. -/
lemma run_httpsvrCopyreq {s : State} (hs : s.pc = .idle) (buff : ℕ → Byte) :
    ∃ n,
      let (res, buff', reqlen') := httpsvrCopyreq s.reqbuff s.reqlen buff
      run (step lw) s (.call buff :: List.replicate n .main) = some { s with
        buff := buff'
        reqlen := reqlen'
        stored := []
        owed := s.stored
        calls := ⟨res, load buff' 0 res, s.stored⟩ :: s.calls } := by
  by_cases hlen : s.reqlen = 0
  · refine ⟨1, ?_⟩
    simp [httpsvrCopyreq, step, mainStep, hs, hlen, State.finish]
  · let s₁ : State := { s with
      buff, pc := .copy s.reqlen s.reqlen 0, stored := [], owed := s.stored }
    have hcopy := run_copy lw (s := s₁) rfl (Nat.zero_add s.reqlen)
    refine ⟨2 + (s.reqlen + 1), ?_⟩
    simp only [httpsvrCopyreq, if_pos hlen]
    rw [List.replicate_add, List.replicate_add]
    simp only [List.replicate_succ, List.replicate_zero, List.cons_append, List.nil_append,
      run_cons, step, mainStep, hs, if_pos hlen, Option.bind_some]
    refine run_trans hcopy ?_
    simp [step, mainStep, State.finish, s₁]

/-! ### Quiet runs -/

/-- A call under way finds the request it is owed, as long as none has been stored since. -/
def OnTheWay (s : State) (res : ℕ) : Prop :=
  s.stored = [] ∧ res = s.reqlen ∧ s.waiting = latest s.owed

/-- What holds at each access. -/
def AtPc (s : State) : Prop :=
  match s.pc with
  | .idle => s.waiting = latest s.stored
  | .test res | .size res => OnTheWay s res
  | .copy res n i =>
    OnTheWay s res ∧ n = s.reqlen ∧ i ≤ n ∧ load s.buff 0 i = load s.reqbuff 0 i

structure Inv (s : State) : Prop where
  returned : ∀ c ∈ s.calls, c.Faithful
  atPc : AtPc s

lemma Inv.sound {s : State} (h : Inv s) : Sound s := by
  refine ⟨h.returned, fun hpc => ?_⟩
  have hidle := h.atPc
  rw [AtPc, hpc] at hidle
  exact hidle

/-- A call ends with what it is owed. -/
lemma inv_finish {s : State} (h : ∀ c ∈ s.calls, c.Faithful) (hstored : s.stored = [])
    (hlen : s.reqlen = 0) {res : ℕ} {copied : List Byte} (hres : res = copied.length)
    (hcopied : copied = latest s.owed) : Inv (s.finish res copied) := by
  refine ⟨List.forall_mem_cons.mpr ⟨⟨hres, hcopied⟩, h⟩, ?_⟩
  show load s.reqbuff 0 s.reqlen = latest s.stored
  rw [hstored, hlen]
  rfl

lemma Inv.step {s s' : State} {e : Event} (h : Inv s) (hquiet : Quiet s e)
    (hs : step lw s e = some s') : Inv s' := by
  have hatPc := h.atPc
  rw [AtPc] at hatPc
  cases Rule.of_step hs with
  | stored conn d hfirst =>
    refine ⟨h.returned, ?_⟩
    rw [AtPc, hquiet hfirst]
    exact load_store_self s.reqbuff 0 (d.bytes.take reqbuffSize)
  | thrown conn d hfirst => exact h
  | ended conn env => exact h
  | call buff hpc =>
    rw [hpc] at hatPc
    exact ⟨h.returned, rfl, rfl, hatPc⟩
  | empty res hpc hlen =>
    rw [hpc] at hatPc
    obtain ⟨hstored, hres, hwaiting⟩ := hatPc
    have hnil : s.waiting = [] := by rw [State.waiting, hlen, load_zero]
    exact inv_finish h.returned hstored hlen (hres.trans hlen) (hnil.symm.trans hwaiting)
  | found res hpc hlen =>
    rw [hpc] at hatPc
    exact ⟨h.returned, hatPc⟩
  | size res hpc =>
    rw [hpc] at hatPc
    exact ⟨h.returned, hatPc, rfl, Nat.zero_le _, rfl⟩
  | byte res n i hpc hi =>
    rw [hpc] at hatPc
    obtain ⟨hway, hn, -, hcopied⟩ := hatPc
    refine ⟨h.returned, hway, hn, hi, ?_⟩
    have hbyte : load (store s.buff i [s.reqbuff i]) 0 (i + 1) =
        load s.buff 0 i ++ [s.reqbuff i] := by
      simpa using load_store_append s.buff 0 i [s.reqbuff i]
    rw [hbyte, hcopied, load_add, Nat.zero_add]
    rfl
  | clear res n i hpc hi =>
    rw [hpc] at hatPc
    obtain ⟨⟨hstored, hres, hwaiting⟩, hn, hin, hcopied⟩ := hatPc
    obtain rfl : i = n := le_antisymm hin hi
    have hall : load s.buff 0 i = s.waiting := by rw [hcopied, hn, State.waiting]
    refine inv_finish (s := { s with reqlen := 0 }) h.returned hstored rfl ?_ (hall.trans hwaiting)
    rw [length_load, hres, hn]

/-! ### Runs with a request in a call -/

/-- A call is under way that will clear a request stored since it started. -/
structure Doomed (s : State) : Prop where
  busy : s.pc ≠ .idle
  waits : s.reqlen ≠ 0
  stored : latest s.stored ≠ []

lemma latest_segment_ne_nil (d : Segment) (rest : List (List Byte)) :
    latest (d.bytes :: rest) ≠ [] := by
  show d.bytes.take reqbuffSize ≠ []
  rw [Ne, List.take_eq_nil_iff, not_or]
  exact ⟨by decide, d.nonempty⟩

lemma doomed_of_not_quiet {s s' : State} {e : Event} (hquiet : ¬Quiet s e)
    (hs : step lw s e = some s') : Doomed s' := by
  cases Rule.of_step hs with
  | stored conn d hfirst =>
    have hlatest := latest_segment_ne_nil d s.stored
    refine ⟨fun hpc => hquiet fun _ => hpc, ?_, hlatest⟩
    exact fun hlen => hlatest (List.length_eq_zero_iff.mp hlen)
  | thrown conn d hfirst => exact absurd (fun h => absurd h hfirst) hquiet
  | ended | call | empty | found | size | byte | clear => exact absurd trivial hquiet

/-- The call goes on, or it has returned and the request is gone. -/
lemma Doomed.step {s s' : State} {e : Event} (h : Doomed s) (hs : step lw s e = some s') :
    Doomed s' ∨ ¬Sound s' := by
  cases Rule.of_step hs with
  | stored conn d hfirst =>
    have hlatest := latest_segment_ne_nil d s.stored
    exact Or.inl ⟨h.busy, fun hlen => hlatest (List.length_eq_zero_iff.mp hlen), hlatest⟩
  | thrown conn d hfirst => exact Or.inl h
  | ended conn env => exact Or.inl h
  | call buff hpc => exact absurd hpc h.busy
  | empty res hpc hlen => exact absurd hlen h.waits
  | found res hpc hlen => exact Or.inl ⟨nofun, h.waits, h.stored⟩
  | size res hpc => exact Or.inl ⟨nofun, h.waits, h.stored⟩
  | byte res n i hpc hi => exact Or.inl ⟨nofun, h.waits, h.stored⟩
  | clear res n i hpc hi => exact Or.inr fun hsound => h.stored (hsound.kept rfl).symm

/-! ### Main results -/

lemma inv_init (reqbuff : ℕ → Byte) : Inv (init reqbuff) := ⟨nofun, rfl⟩

lemma throughout_quiet {s t : State} {es : List Event} (h : Inv s)
    (hrun : run (step lw) s es = some t) (ht : t.pc = .idle)
    (hsound : Always (step lw) Sound s es) : Throughout (step lw) Quiet s es := by
  have hany : Throughout (step lw) (fun _ _ => True) s es :=
    throughout_of_forall fun _ _ _ _ _ _ _ _ _ => trivial
  refine throughout_of_doomed (fun _ _ _ h _ hq hs => h.step hq hs)
    (fun _ _ _ _ hq hs => doomed_of_not_quiet hq hs) (fun _ _ _ hdoomed hsound hs => ?_) h hany
    hrun (fun hdoomed => hdoomed.busy ht) hsound.throughout
  exact (hdoomed.step hs).resolve_right (not_not.mpr (hsound _ hs))

/-- Every call returns the latest request stored before it started, and no other request is lost
than by being overwritten, as long as none is stored while a call is under way. The converse holds
as soon as the last call has returned. -/
theorem copyreq_law {reqbuff : ℕ → Byte} {es : List Event} {t : State}
    (hrun : run (step lw) (init reqbuff) es = some t) :
    (Throughout (step lw) Quiet (init reqbuff) es →
        Always (step lw) Sound (init reqbuff) es) ∧
      (t.pc = .idle → Always (step lw) Sound (init reqbuff) es →
        Throughout (step lw) Quiet (init reqbuff) es) := by
  refine ⟨fun hquiet => ?_, throughout_quiet (inv_init reqbuff) hrun⟩
  exact always_of_throughout (fun _ _ _ h hq hs => h.step hq hs) (fun _ h => h.sound)
    (inv_init reqbuff) hquiet

/-- A connection that has just been accepted, and three bytes. -/
def fresh : Connection :=
  ⟨accepted (fun _ => 0) (fun _ => 0) 0, ⟨.esAccepted, 0, none⟩, [], inv_accepted _ _ _⟩

def three (a b c : Byte) : Segment := ⟨[[a, b, c]], by simp, ⟨fun _ => 0, none, []⟩⟩

/-- A request, and a call of `httpsvr_copyreq` behind it up to its return. -/
def oneCall : List Event :=
  [.segment fresh (three 71 10 10), .call fun _ => 0, .main, .main, .main, .main, .main, .main]

/-- The call returns the request. -/
theorem copyreq_law_one :
    ∃ t, run (step documented) (init fun _ => 0) oneCall = some t ∧ t.pc = .idle ∧
      t.calls = [⟨3, [71, 10, 10], [[71, 10, 10]]⟩] ∧
      Always (step documented) Sound (init fun _ => 0) oneCall ∧
      Throughout (step documented) Quiet (init fun _ => 0) oneCall := by
  have hrun : (run (step documented) (init fun _ => 0) oneCall).map (fun t => (t.pc, t.calls)) =
      some (.idle, [⟨3, [71, 10, 10], [[71, 10, 10]]⟩]) := by decide
  obtain ⟨t, ht, hdata⟩ := Option.map_eq_some_iff.mp hrun
  obtain ⟨hpc, hcalls⟩ := Prod.mk.inj hdata
  have hquiet : Throughout (step documented) Quiet (init fun _ => 0) oneCall := by
    refine (throughout_cons_of_step rfl).mpr ⟨fun _ => rfl, throughout_of_forall ?_⟩
    intro pre e post s' s'' hsplit _ _ _
    have htail : oneCall.tail = pre ++ e :: post := hsplit
    have he : e ∈ oneCall.tail := by simp [htail]
    cases e with
    | segment conn d => simp [oneCall] at he
    | _ => trivial
  have hsound := (copyreq_law ht).1 hquiet
  exact ⟨t, ht, hpc, hcalls, hsound, (copyreq_law ht).2 hpc hsound⟩

/-- A request of another connection comes when the first byte has been copied: the call returns a
mixture of the two, and the second one does not wait any more. -/
theorem copyreq_mixes :
    ∃ t, run (step documented) (init fun _ => 0)
        [.segment fresh (three 71 10 10), .call fun _ => 0, .main, .main, .main,
          .segment fresh (three 72 72 10), .main, .main, .main] = some t ∧
      t.calls = [⟨3, [71, 72, 10], [[71, 10, 10]]⟩] ∧ t.stored = [[72, 72, 10]] ∧
      t.waiting = [] ∧ ¬Sound t := by
  have hrun : (run (step documented) (init fun _ => 0)
      [.segment fresh (three 71 10 10), .call fun _ => 0, .main, .main, .main,
        .segment fresh (three 72 72 10), .main, .main, .main]).map
        (fun t => (t.pc, t.calls, t.stored, t.reqlen)) =
      some (.idle, [⟨3, [71, 72, 10], [[71, 10, 10]]⟩], [[72, 72, 10]], 0) := by decide
  obtain ⟨t, ht, hdata⟩ := Option.map_eq_some_iff.mp hrun
  simp only [Prod.mk.injEq] at hdata
  obtain ⟨hpc, hcalls, hstored, hlen⟩ := hdata
  have hwaiting : t.waiting = [] := by rw [State.waiting, hlen, load_zero]
  refine ⟨t, ht, hcalls, hstored, hwaiting, fun hsound => ?_⟩
  have hkept := hsound.kept hpc
  rw [hwaiting, hstored] at hkept
  exact absurd hkept (by decide)

end Copyreq

end BcmMruby.HttpServer
