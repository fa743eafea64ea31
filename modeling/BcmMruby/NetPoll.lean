import BcmMruby.Core.Run

/-!
# One activation of lwIP at a time

The timer interrupt calls `net_poll`, which enters the stack; the main program enters it through
the functions of `net.c`. A function is the tree of its lwIP calls, branching on their results;
the main program is a list of such functions with `cli()` and `sti()` between them. `netstat` is
1 throughout.

`exclusive_iff_guarded`: the two never meet in the stack if and only if the program makes all of
its calls between `cli()` and `sti()`.
-/

namespace BcmMruby.NetPoll

open Core

/-! ### The main program -/

inductive LwipFn where
  | tcpNewIpType
  | tcpRecv
  | tcpSent
  | tcpErr
  | tcpPoll
  | tcpConnect
  | tcpWrite
  | tcpOutput
  | tcpClose
  | udpNewIpType
  | udpRemove
  | udpBind
  | udpRecv
  | udpSendto
  | pbufAlloc
  | pbufFree
  | dnsGethostbynameAddrtype
  deriving DecidableEq

/-- The lwIP calls of a function. The result of a call is whether it gives `ERR_OK` or a pointer
that is not `NULL`; `await` is the loop on `dnsstat` in `lookup`. -/
inductive Body where
  | done
  | call (f : LwipFn) (k : Bool → Body)
  | await (k : Body)

/-- Calls whose results are not looked at. -/
def calls : List LwipFn → Body
  | [] => .done
  | f :: fs => .call f fun _ => calls fs

structure Globals where
  /-- `udpecho_raw_pcb` is not `NULL`. -/
  udpechoRawPcb : Bool
  /-- `udpsntp_raw_pcb` is not `NULL`. -/
  udpsntpRawPcb : Bool
  dnsstat : ℤ

/-- The functions of `net.c` that call lwIP. -/
inductive EntryPoint where
  | myTcpWrite
  | myTcpClose
  | httpClose
  | tcphttpRawInit
  | lookup
  | sntp
  | rtlUdpBind
  | rtlUdpSend
  deriving DecidableEq

def body (g : Globals) : EntryPoint → Body
  | .myTcpWrite => calls [.tcpWrite, .tcpOutput]
  | .myTcpClose => calls [.tcpClose]
  | .httpClose => calls [.tcpClose]
  | .tcphttpRawInit =>
    .call .tcpNewIpType fun ok =>
      if ok then calls [.tcpRecv, .tcpSent, .tcpErr, .tcpPoll, .tcpConnect] else .done
  | .lookup => .call .dnsGethostbynameAddrtype fun ok => if ok then .done else .await .done
  | .sntp =>
    let send := calls [.udpNewIpType, .udpBind, .udpRecv, .pbufAlloc, .udpSendto, .pbufFree]
    if g.udpsntpRawPcb then .call .udpRemove fun _ => send else send
  | .rtlUdpBind =>
    if g.udpechoRawPcb then .call .udpBind fun ok => if ok then calls [.udpRecv] else .done
    else .done
  | .rtlUdpSend =>
    if g.udpechoRawPcb then calls [.pbufAlloc, .udpSendto, .pbufFree] else .done

/-- What a function does to the globals before its first call. -/
def enter (g : Globals) : EntryPoint → Globals
  | .lookup => { g with dnsstat := 0 }
  | _ => g

/-- `sntp` keeps the result of `udp_new_ip_type`. -/
def leave (g : Globals) (f : LwipFn) (ok : Bool) : Globals :=
  if f = .udpNewIpType then { g with udpsntpRawPcb := ok } else g

inductive Stmt where
  | cli
  | sti
  | call (fn : EntryPoint)

/-! ### Runs -/

structure State where
  globals : Globals
  /-- Interrupts are enabled for the main program. -/
  ie : Bool
  /-- The global `sr`: what `cli()` has saved. -/
  sr : Bool
  /-- What is left of the main program, behind the function it is in. -/
  prog : List Stmt
  /-- What is left of the function it is in. -/
  body : Body
  /-- The call at the head of `body` has been entered. -/
  entered : Bool
  /-- The timer interrupt is in `net_poll`. -/
  polling : Bool

/-- `rtl_udp_init` has been called before with this result, or not. -/
def init (udpechoRawPcb : Bool) (prog : List Stmt) : State where
  globals := ⟨udpechoRawPcb, false, 0⟩
  ie := true
  sr := false
  prog := prog
  body := .done
  entered := false
  polling := false

inductive Event where
  /-- The main program goes on; `ok` is the result of the lwIP call that returns, if one does. -/
  | main (ok : Bool)
  /-- The timer interrupt calls `net_poll`. -/
  | tick
  /-- lwIP calls `dns_found` from within `net_poll`. -/
  | dnsFound (found : Bool)
  /-- The interrupt is left. -/
  | tock

def mainStep (s : State) (ok : Bool) : Option State :=
  match s.body with
  | .call f k =>
    if s.entered then
      some { s with globals := leave s.globals f ok, body := k ok, entered := false }
    else some { s with entered := true }
  | .await k => some { s with body := if s.globals.dnsstat = 0 then .await k else k }
  | .done =>
    match s.prog with
    | [] => none
    | .cli :: prog => some { s with sr := s.ie, ie := false, prog := prog }
    | .sti :: prog => some { s with ie := s.sr, prog := prog }
    | .call fn :: prog =>
      some { s with globals := enter s.globals fn, body := body s.globals fn, prog := prog }

def step (s : State) : Event → Option State
  | .main ok => if s.polling then none else mainStep s ok
  | .tick => if s.ie ∧ ¬ s.polling then some { s with polling := true } else none
  | .dnsFound found =>
    if s.polling then
      some { s with globals := { s.globals with dnsstat := if found then 1 else 2 } }
    else none
  | .tock => if s.polling then some { s with polling := false } else none

/-- At most one activation of the stack. -/
def Exclusive (s : State) : Prop := ¬ (s.entered ∧ s.polling)

/-! ### Guarded programs -/

/-- The function makes an lwIP call. -/
def EntryPoint.callsLwip (udpechoRawPcb : Bool) : EntryPoint → Bool
  | .rtlUdpBind | .rtlUdpSend => udpechoRawPcb
  | _ => true

/-- Starting with interrupts enabled as `ie` says and with `sr` in the global of that name, every
call of lwIP is made with interrupts disabled. -/
def Guarded (udpechoRawPcb : Bool) : Bool → Bool → List Stmt → Prop
  | _, _, [] => True
  | ie, _, .cli :: prog => Guarded udpechoRawPcb false ie prog
  | _, sr, .sti :: prog => Guarded udpechoRawPcb sr sr prog
  | ie, sr, .call fn :: prog =>
    (fn.callsLwip udpechoRawPcb = true → ie = false) ∧ Guarded udpechoRawPcb ie sr prog

/-! ### A guarded program excludes the interrupt -/

@[simp] lemma enter_udpechoRawPcb (g : Globals) (fn : EntryPoint) :
    (enter g fn).udpechoRawPcb = g.udpechoRawPcb := by
  cases fn <;> rfl

@[simp] lemma leave_udpechoRawPcb (g : Globals) (f : LwipFn) (ok : Bool) :
    (leave g f ok).udpechoRawPcb = g.udpechoRawPcb := by
  rw [leave]
  split_ifs <;> rfl

lemma body_eq_done_iff {g : Globals} {fn : EntryPoint} :
    body g fn = .done ↔ fn.callsLwip g.udpechoRawPcb = false := by
  cases fn with
  | sntp => cases hg : g.udpsntpRawPcb <;> simp [body, calls, EntryPoint.callsLwip, hg]
  | _ => simp [body, calls, EntryPoint.callsLwip]

/-- Inside a function that calls lwIP interrupts are disabled, and the rest of the program is
guarded. -/
structure Inv (s : State) : Prop where
  guarded : Guarded s.globals.udpechoRawPcb s.ie s.sr s.prog
  body : s.body ≠ .done → s.ie = false
  entered : s.entered = true → ∃ f k, s.body = .call f k
  polling : s.polling = true → s.ie = true

lemma Inv.exclusive {s : State} (h : Inv s) : Exclusive s := by
  rintro ⟨hentered, hpolling⟩
  obtain ⟨f, k, hbody⟩ := h.entered hentered
  have hoff := h.body (by simp [hbody])
  rw [h.polling hpolling] at hoff
  cases hoff

/-- The steps of the main program. -/
inductive MainRule (s : State) (ok : Bool) : State → Prop where
  | enter (f : LwipFn) (k : Bool → Body) (hbody : s.body = .call f k) (he : s.entered = false) :
      MainRule s ok { s with entered := true }
  | leave (f : LwipFn) (k : Bool → Body) (hbody : s.body = .call f k) (he : s.entered = true) :
      MainRule s ok
        { s with globals := leave s.globals f ok, body := k ok, entered := false }
  | await (k : Body) (hbody : s.body = .await k) :
      MainRule s ok { s with body := if s.globals.dnsstat = 0 then .await k else k }
  | cli (prog : List Stmt) (hbody : s.body = .done) (hprog : s.prog = .cli :: prog) :
      MainRule s ok { s with sr := s.ie, ie := false, prog := prog }
  | sti (prog : List Stmt) (hbody : s.body = .done) (hprog : s.prog = .sti :: prog) :
      MainRule s ok { s with ie := s.sr, prog := prog }
  | call (fn : EntryPoint) (prog : List Stmt) (hbody : s.body = .done)
      (hprog : s.prog = .call fn :: prog) :
      MainRule s ok
        { s with
          globals := NetPoll.enter s.globals fn
          body := NetPoll.body s.globals fn
          prog := prog }

lemma MainRule.of_mainStep {s s' : State} {ok : Bool} (h : mainStep s ok = some s') :
    MainRule s ok s' := by
  rw [mainStep] at h
  split at h
  · next f k hbody =>
    split_ifs at h with he
    · cases h
      exact .leave f k hbody he
    · cases h
      exact .enter f k hbody (by simpa using he)
  · next k hbody =>
    cases h
    exact .await k hbody
  · next hbody =>
    split at h
    · cases h
    · next prog hprog =>
      cases h
      exact .cli prog hbody hprog
    · next prog hprog =>
      cases h
      exact .sti prog hbody hprog
    · next fn prog hprog =>
      cases h
      exact .call fn prog hbody hprog

lemma Inv.mainStep {s s' : State} {ok : Bool} (h : Inv s) (hpolling : s.polling = false)
    (hs : mainStep s ok = some s') : Inv s' := by
  have hguarded := h.guarded
  have hnot : ∀ {p : Prop}, s.polling = true → p := fun hp => by simp [hpolling] at hp
  have hout : ∀ {p : Prop}, (∀ f k, s.body ≠ .call f k) → s.entered = true → p := by
    intro p hbody he
    obtain ⟨f, k, hcall⟩ := h.entered he
    exact absurd hcall (hbody f k)
  cases MainRule.of_mainStep hs with
  | enter f k hbody he => exact ⟨hguarded, h.body, fun _ => ⟨f, k, hbody⟩, h.polling⟩
  | leave f k hbody he =>
    exact ⟨by simpa using hguarded, fun _ => h.body (by simp [hbody]), by simp, h.polling⟩
  | await k hbody =>
    exact ⟨hguarded, fun _ => h.body (by simp [hbody]), hout (by simp [hbody]), h.polling⟩
  | cli prog hbody hprog =>
    rw [hprog] at hguarded
    exact ⟨hguarded, fun _ => rfl, hout (by simp [hbody]), hnot⟩
  | sti prog hbody hprog =>
    rw [hprog] at hguarded
    exact ⟨hguarded, fun hb => absurd hbody hb, hout (by simp [hbody]), hnot⟩
  | call fn prog hbody hprog =>
    rw [hprog] at hguarded
    refine ⟨by simpa using hguarded.2, fun hb => hguarded.1 ?_, hout (by simp [hbody]), hnot⟩
    simpa [body_eq_done_iff] using hb

lemma Inv.step (s : State) (e : Event) (s' : State) (h : Inv s) (hs : step s e = some s') :
    Inv s' := by
  cases e with
  | main ok =>
    rw [NetPoll.step] at hs
    split_ifs at hs with hpolling
    exact h.mainStep (by simpa using hpolling) hs
  | tick =>
    rw [NetPoll.step] at hs
    split_ifs at hs with hon
    cases hs
    exact ⟨h.guarded, h.body, h.entered, fun _ => hon.1⟩
  | dnsFound found =>
    rw [NetPoll.step] at hs
    split_ifs at hs
    all_goals
      cases hs
      exact ⟨h.guarded, h.body, h.entered, h.polling⟩
  | tock =>
    rw [NetPoll.step] at hs
    split_ifs at hs
    cases hs
    exact ⟨h.guarded, h.body, h.entered, by simp⟩

/-! ### Any other program does not -/

/-- Between two functions, outside the interrupt. -/
structure AtRest (s : State) : Prop where
  body : s.body = .done
  entered : s.entered = false
  polling : s.polling = false

/-- Every state that can follow is exclusive. -/
def Safe (s : State) : Prop := ∀ es t, run step s es = some t → Exclusive t

lemma Safe.run {s t : State} {es : List Event} (h : Safe s) (hrun : run step s es = some t) :
    Safe t :=
  fun fs u hu => h (es ++ fs) u (run_trans hrun hu)

/-- No waiting as long as every call succeeds. -/
def Body.Quick : Body → Prop
  | .done => True
  | .call _ k => (k true).Quick
  | .await _ => False

lemma quick_body (g : Globals) (fn : EntryPoint) : (body g fn).Quick := by
  cases fn <;> simp [body, calls, Body.Quick]
  all_goals split_ifs <;> simp [Body.Quick]

/-- A function all of whose calls succeed comes to its end. -/
lemma run_quick {b : Body} (hb : b.Quick) {s : State} (hbody : s.body = b)
    (hentered : s.entered = false) (hpolling : s.polling = false) :
    ∃ es t, Core.run step s es = some t ∧ AtRest t ∧ t.ie = s.ie ∧ t.sr = s.sr ∧ t.prog = s.prog ∧
      t.globals.udpechoRawPcb = s.globals.udpechoRawPcb := by
  induction b generalizing s with
  | done => exact ⟨[], s, rfl, ⟨hbody, hentered, hpolling⟩, rfl, rfl, rfl, rfl⟩
  | await k => exact absurd hb id
  | call f k ih =>
    let s' : State := { s with globals := leave s.globals f true, body := k true }
    obtain ⟨es, t, hrun, hrest, hie, hsr, hprog, hecho⟩ :=
      ih true hb (s := s') rfl hentered hpolling
    have hecho' : t.globals.udpechoRawPcb = s.globals.udpechoRawPcb := by simpa [s'] using hecho
    refine ⟨.main true :: .main true :: es, t, ?_, hrest, hie, hsr, hprog, hecho'⟩
    have h₁ : step s (.main true) = some { s with entered := true } := by
      simp [step, mainStep, hbody, hentered, hpolling]
    have h₂ : step { s with entered := true } (.main true) = some s' := by
      simp [step, mainStep, hbody, hpolling, s', hentered]
    simp [h₁, h₂, hrun]

/-- With interrupts enabled the handler can come into the first call of a function. -/
lemma ie_eq_false_of_safe {s : State} (h : Safe s) {f : LwipFn} {k : Bool → Body}
    (hbody : s.body = .call f k) (hentered : s.entered = false) (hpolling : s.polling = false) :
    s.ie = false := by
  by_contra hie
  let t : State := { s with entered := true, polling := true }
  have hrun : run step s [.main true, .tick] = some t := by
    simp [step, mainStep, hbody, hentered, hpolling, hie, t]
  exact h _ t hrun ⟨rfl, rfl⟩

lemma guarded_of_safe {prog : List Stmt} {s : State} (hprog : s.prog = prog) (hrest : AtRest s)
    (h : Safe s) : Guarded s.globals.udpechoRawPcb s.ie s.sr prog := by
  induction prog generalizing s with
  | nil => trivial
  | cons stmt prog ih =>
    have hmain : ∀ {s'}, mainStep s true = some s' → Safe s' := by
      intro s' hs'
      have hrun : run step s [.main true] = some s' := by simp [step, hrest.polling, hs']
      exact h.run hrun
    cases stmt with
    | cli =>
      let s' : State := { s with sr := s.ie, ie := false, prog := prog }
      have hs' : mainStep s true = some s' := by simp [mainStep, hrest.body, hprog, s']
      exact ih (s := s') rfl ⟨hrest.body, hrest.entered, hrest.polling⟩ (hmain hs')
    | sti =>
      let s' : State := { s with ie := s.sr, prog := prog }
      have hs' : mainStep s true = some s' := by simp [mainStep, hrest.body, hprog, s']
      exact ih (s := s') rfl ⟨hrest.body, hrest.entered, hrest.polling⟩ (hmain hs')
    | call fn =>
      let s' : State :=
        { s with globals := enter s.globals fn, body := body s.globals fn, prog := prog }
      have hs' : mainStep s true = some s' := by simp [mainStep, hrest.body, hprog, s']
      have hquick := quick_body s.globals fn
      constructor
      · intro hcalls
        cases hbody : body s.globals fn with
        | call f k =>
          exact ie_eq_false_of_safe (s := s') (hmain hs') hbody hrest.entered hrest.polling
        | await k =>
          rw [hbody] at hquick
          exact absurd hquick id
        | done => simp [body_eq_done_iff, hcalls] at hbody
      · obtain ⟨es, t, hrun, hrest', hie, hsr, hprog', hecho⟩ :=
          run_quick hquick (s := s') rfl hrest.entered hrest.polling
        have hrest := ih hprog' hrest' ((hmain hs').run hrun)
        rw [hie, hsr, hecho] at hrest
        simpa [s'] using hrest

/-! ### Main result -/

/-- In every interleaving at most one activation of lwIP is in progress, if and only if the main
program makes all of its calls with interrupts disabled. -/
theorem exclusive_iff_guarded (udpechoRawPcb : Bool) (prog : List Stmt) :
    (∀ es s, run step (init udpechoRawPcb prog) es = some s → Exclusive s) ↔
      Guarded udpechoRawPcb true false prog := by
  constructor
  · exact guarded_of_safe (s := init udpechoRawPcb prog) rfl ⟨rfl, rfl, rfl⟩
  · intro hguarded es s hrun
    have hinit : Inv (init udpechoRawPcb prog) :=
      ⟨hguarded, fun hb => absurd rfl hb, by simp [init], by simp [init]⟩
    exact (run_invariant_always Inv.step hinit hrun).exclusive

/-- The timer interrupt comes inside the `tcp_write` of `my_tcp_write`. -/
theorem tick_inside_tcpWrite :
    ∃ s, run step (init true [.call .myTcpWrite]) [.main true, .main true, .tick] = some s ∧
      s.body = calls [.tcpWrite, .tcpOutput] ∧ ¬ Exclusive s :=
  ⟨_, rfl, rfl, fun h => h ⟨rfl, rfl⟩⟩

end BcmMruby.NetPoll
