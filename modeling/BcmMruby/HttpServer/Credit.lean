import BcmMruby.HttpServer.Ownership

/-!
# What the server gives back of the receive window

A receiver calls `tcp_recved` for data that it has taken. The server calls it for the bytes of the
response, as `tcp_write` accepts them, and for the segments that it throws away, but not for the
segment that it takes the request from. The account goes on as long as those two differences are the
same.
-/

namespace BcmMruby.HttpServer.Credit

open Core

/-- A connection and the number of payload bytes delivered on it. -/
structure Account where
  machine : Machine
  delivered : ℕ

def Account.server (a : Account) : Server := a.machine.server

/-- The payload bytes of an event. -/
def payload : Event → ℕ
  | .recv data _ => data.flatten.length
  | _ => 0

def step (lw : Lwip) (a : Account) (e : Event) : Option Account :=
  (HttpServer.step lw a.machine e).map fun m => ⟨m, a.delivered + payload e⟩

/-- A connection that has just been accepted. -/
def start (reqbuff resbuff : ℕ → Byte) (reslen : ℕ) : Account :=
  ⟨⟨accepted reqbuff resbuff reslen, .idle, true, [load resbuff 0 reslen], false⟩, 0⟩

/-- Never more is given back than has been delivered, and all of it after a segment. -/
def Correct (lw : Lwip) (a : Account) (e : Event) : Prop :=
  ∀ a', step lw a e = some a' →
    a'.server.recved ≤ a'.delivered ∧
      ∀ data env, e = .recv data env → data ≠ [] → a'.server.recved = a'.delivered

/-- The lengths of the pbufs that are attached to the connection. -/
def attached (s : Server) : List ℕ := (s.pbufs.chainAt (s.es.bind (·.p))).map List.length

/-- How many bytes of pbufs of these lengths `tcp_write` accepts. -/
def acceptedBytes : List ℕ → List Turn → ℕ
  | [], _ => 0
  | _, [] => 0
  | len :: lens, t :: ts =>
    if len ≤ t.sndbuf ∧ t.wrErr = .ok then len + acceptedBytes lens ts else 0

/-- The segment is the first one of the connection. -/
def IsFirst (s : Server) : Prop := s.es.map (·.state) = some .esAccepted

instance (s : Server) : Decidable (IsFirst s) := inferInstanceAs (Decidable (_ = _))

/-- What a callback gives back. -/
def credited (s : Server) : Event → ℕ
  | .recv [] env => acceptedBytes (attached s) env.turns
  | .recv (x :: xs) env =>
    if IsFirst s then acceptedBytes (responseLengths s env (x :: xs).flatten) env.turns
    else (x :: xs).flatten.length
  | .sent turns => acceptedBytes (attached s) turns
  | .poll turns => acceptedBytes (attached s) turns
  | _ => 0

/-- The call for the first segment gets as many bytes accepted as the segment has, and no other call
gets any accepted. -/
def Balanced (a : Account) : Event → Prop
  | .recv [] env => acceptedBytes (attached a.server) env.turns = 0
  | .recv (x :: xs) env =>
    IsFirst a.server →
      acceptedBytes (responseLengths a.server env (x :: xs).flatten) env.turns =
        (x :: xs).flatten.length
  | .sent turns => acceptedBytes (attached a.server) turns = 0
  | .poll turns => acceptedBytes (attached a.server) turns = 0
  | _ => True

lemma balanced_iff (a : Account) (e : Event) :
    Balanced a e ↔ credited a.server e = payload e := by
  cases e with
  | recv data env =>
    cases data with
    | nil => rfl
    | cons x xs =>
      rw [Balanced, credited, payload]
      split_ifs with hfirst
      · exact forall_prop_of_true hfirst
      · exact iff_of_true (fun h => absurd h hfirst) rfl
  | sent turns => rfl
  | poll turns => rfl
  | error => exact iff_of_true trivial rfl
  | others reqbuff reqlen => exact iff_of_true trivial rfl
  | setres buff len => exact iff_of_true trivial rfl
  | main => exact iff_of_true trivial rfl

/-! ### What each function gives back -/

variable (lw : Lwip) {s s' : Server} {es : HttpsvrState} {ids : List ℕ}

lemma attached_eq (hl : Live s es ids) : attached s = (s.pbufs.contents ids).map List.length := by
  rw [attached, hl.record, Option.bind_some, hl.owns.chain.chainAt_eq]

lemma attached_none (hl : Live s es ids) (hp : es.p = none) : attached s = [] := by
  rw [attached_eq hl, hl.owns.none_iff.mp hp]
  rfl

@[simp] lemma acceptedBytes_nil_left (turns : List Turn) : acceptedBytes [] turns = 0 := by
  cases turns <;> rfl

@[simp] lemma acceptedBytes_nil_right (lens : List ℕ) : acceptedBytes lens [] = 0 := by
  cases lens <;> rfl

lemma recved_send (hl : Live s es ids) {turns : List Turn}
    (h : httpsvrSend lw turns s = some s') :
    s'.recved = s.recved + acceptedBytes (attached s) turns := by
  induction turns generalizing s es ids with
  | nil =>
    cases h
    simp
  | cons t ts ih =>
    cases hp : es.p with
    | none =>
      rw [httpsvrSend_none lw _ hl.record hp] at h
      cases h
      rw [attached_none hl hp, acceptedBytes_nil_left, Nat.add_zero]
    | some ptr =>
      have howns := hl.owns
      rw [hp] at howns
      obtain ⟨c, rest, rfl, -, hc, -⟩ := Heap.chain_some.mp howns.chain
      have hattached :
          attached s = c.contents.length :: (s.pbufs.contents rest).map List.length := by
        rw [attached_eq hl, Heap.contents_cons hc, List.map_cons]
      rw [hattached, acceptedBytes]
      split_ifs with haccept
      · obtain ⟨s₁, rest₁, hturn, hl₁, -, hrecved, hsplit⟩ :=
          httpsvrSend_accept lw hl hp hc ts haccept
        rw [Heap.contents_cons hc] at hsplit
        rw [ih hl₁ (hturn.symm.trans h), hrecved, attached_eq hl₁, (List.cons.inj hsplit).2,
          Nat.add_assoc]
      · rw [httpsvrSend_refuse lw hl hp hc ts haccept] at h
        cases h
        rfl

lemma eq_some_of_returns {r : Option Server} {err : Err}
    (h : (r.bind fun s => some (s, Err.ok)) = some (s', err)) : r = some s' := by
  obtain ⟨t, ht, heq⟩ := Option.bind_eq_some_iff.mp h
  cases heq
  exact ht

lemma recved_free {arg : Bool} (h : httpsvrFree lw arg s = some s') : s'.recved = s.recved := by
  cases arg with
  | false =>
    cases h
    rfl
  | true =>
    simp only [httpsvrFree, if_true, Option.bind_eq_bind, Option.bind_eq_some_iff] at h
    obtain ⟨es, -, h⟩ := h
    cases hp : es.p with
    | none =>
      rw [hp] at h
      cases h
      rfl
    | some p =>
      simp only [hp, Server.pbufFree, Option.bind_map, Option.bind_eq_some_iff] at h
      obtain ⟨c, -, h⟩ := h
      cases h
      rfl

lemma recved_close {arg : Bool} (h : httpsvrClose lw arg s = some s') : s'.recved = s.recved := by
  simp only [httpsvrClose, Option.bind_eq_bind, Option.bind_eq_some_iff] at h
  obtain ⟨t, ht, heq⟩ := h
  cases heq
  have hfree := recved_free lw ht
  exact hfree

lemma recved_poll (hl : Live s es ids) {turns : List Turn} {r : Err}
    (h : httpsvrPoll lw true turns s = some (s', r)) :
    s'.recved = s.recved + acceptedBytes (attached s) turns := by
  simp only [httpsvrPoll, if_true, Server.deref, hl.record, Option.bind_eq_bind,
    Option.bind_some] at h
  split_ifs at h with hp hclosing
  · exact recved_send lw hl (eq_some_of_returns h)
  · rw [attached_none hl (not_not.mp hp), acceptedBytes_nil_left, Nat.add_zero]
    exact recved_close lw (eq_some_of_returns h)
  · cases h
    rw [attached_none hl (not_not.mp hp), acceptedBytes_nil_left, Nat.add_zero]

lemma recved_sent (hl : Live s es ids) {turns : List Turn} {r : Err}
    (h : httpsvrSent lw true turns s = some (s', r)) :
    s'.recved = s.recved + acceptedBytes (attached s) turns := by
  have hpcb : { s.pcb with sent := true } = s.pcb := by rw [hl.pcb]
  let t : Server := { s with
    es := some { es with retries := 0 }
    pcb := { s.pcb with sent := true } }
  have ht : Live t { es with retries := 0 } ids :=
    ⟨rfl, hl.frees, hpcb.trans hl.pcb, hl.owns, hl.freed, hl.state, hl.ledger⟩
  have hattached : attached t = attached s := (attached_eq ht).trans (attached_eq hl).symm
  simp only [httpsvrSent, if_true, Server.deref, hl.record, Option.bind_eq_bind,
    Option.bind_some] at h
  split_ifs at h with hp hclosing
  · rw [← hattached]
    exact recved_send lw ht (eq_some_of_returns h)
  · rw [attached_none hl (not_not.mp hp), acceptedBytes_nil_left, Nat.add_zero]
    have hclose := recved_close lw (eq_some_of_returns h)
    exact hclose
  · cases h
    rw [attached_none hl (not_not.mp hp), acceptedBytes_nil_left, Nat.add_zero]

lemma recved_recv_null (hl : Live s es ids) {env : Env} {r : Err}
    (h : httpsvrRecv lw true none .ok env s = some (s', r)) :
    s'.recved = s.recved + acceptedBytes (attached s) env.turns := by
  let t := s.setState .esClosing
  have ht : Live t { es with state := .esClosing } ids := hl.setClosing
  have hattached : attached t = attached s := (attached_eq ht).trans (attached_eq hl).symm
  simp only [httpsvrRecv, if_true, Server.deref, hl.record, Option.bind_eq_bind,
    Option.bind_some] at h
  split_ifs at h with hp
  · rw [attached_none hl hp, acceptedBytes_nil_left, Nat.add_zero]
    exact recved_close lw (s := t) (eq_some_of_returns h)
  · rw [← hattached]
    exact recved_send lw ht (eq_some_of_returns h)

/-- A segment. -/
lemma recved_recv (hl : Live s es ids) {env : Env} {x : List Byte} {xs : List (List Byte)}
    {r : Err} (h : httpsvrRecv lw true (s.pbufs.allocChain (x :: xs)).1 .ok env
      { s with pbufs := (s.pbufs.allocChain (x :: xs)).2 } = some (s', r)) :
    s'.recved = s.recved + credited s (.recv (x :: xs) env) := by
  have hfirst : IsFirst s ↔ es.state = .esAccepted := by simp [IsFirst, hl.record]
  rw [credited]
  rcases hl.state with hstate | hstate
  · obtain ⟨es₁, ids₁, hl₁, -, -, -, hrecved, -, hlens⟩ :=
      attach_spec lw env (List.cons_ne_nil x xs) hl hstate
    rw [httpsvrRecv_attach lw env (List.cons_ne_nil x xs) hl hstate] at h
    rw [if_pos (hfirst.mpr hstate), recved_send lw hl₁ (eq_some_of_returns h), hrecved,
      attached_eq hl₁, hlens]
  · have hlater : ¬ IsFirst s := by
      rw [hfirst, hstate]
      simp
    obtain ⟨t, hrecv, -, -, hrecved⟩ :=
      httpsvrRecv_closing_spec lw env (List.cons_ne_nil x xs) hl hstate
    cases hrecv.symm.trans h
    rw [if_neg hlater, hrecved]

/-! ### Steps and runs -/

lemma recved_step {m m' : Machine} (hinv : Inv m.server) {e : Event}
    (hs : HttpServer.step lw m e = some m') :
    m'.server.recved = m.server.recved + credited m.server e := by
  cases e with
  | recv data env =>
    obtain ⟨-, rfl, es, ids, hl⟩ := live_of_callback hinv (fun h => by rw [h]) hs
    have harg : m.server.pcb.arg = true := by rw [hl.pcb]
    obtain ⟨s', hrecv, -⟩ := httpsvrRecv_spec lw env data hl
    rw [harg, hrecv]
    cases data with
    | nil => exact recved_recv_null lw hl hrecv
    | cons x xs => exact recved_recv lw hl hrecv
  | sent turns =>
    obtain ⟨-, rfl, es, ids, hl⟩ := live_of_callback hinv (fun h => by rw [h]) hs
    have harg : m.server.pcb.arg = true := by rw [hl.pcb]
    obtain ⟨s', hsent, -⟩ := httpsvrSent_spec lw turns hl
    rw [harg, hsent]
    exact recved_sent lw hl hsent
  | poll turns =>
    obtain ⟨-, rfl, es, ids, hl⟩ := live_of_callback hinv (fun h => by rw [h]) hs
    have harg : m.server.pcb.arg = true := by rw [hl.pcb]
    obtain ⟨s', hpoll, -⟩ := httpsvrPoll_spec lw turns hl
    rw [harg, hpoll]
    exact recved_poll lw hl hpoll
  | error =>
    obtain ⟨-, rfl, es, ids, hl⟩ := live_of_callback hinv (fun h => by rw [h]) hs
    have harg : m.server.pcb.arg = true := by rw [hl.pcb]
    obtain ⟨s', herror, -⟩ := httpsvrError_spec lw hl
    rw [harg, herror]
    have hfree := recved_free lw herror
    exact hfree
  | others reqbuff reqlen =>
    simp only [HttpServer.step] at hs
    split_ifs at hs
    cases hs
    rfl
  | setres buff len =>
    simp only [HttpServer.step] at hs
    split at hs
    · cases hs
      rfl
    · cases hs
  | main =>
    obtain ⟨-, resbuff, reslen, hserver⟩ := mainStep_server hs
    rw [hserver]
    rfl

/-- With the account balanced so far, the event keeps it so exactly if it gives back as much as it
delivers. -/
lemma correct_iff {a : Account} (hinv : Inv a.server) (heq : a.server.recved = a.delivered)
    {e : Event} {a' : Account} (hs : step lw a e = some a') :
    (Correct lw a e ↔ Balanced a e) ∧ (Correct lw a e → a'.server.recved = a'.delivered) := by
  obtain ⟨m', hm, rfl⟩ := Option.map_eq_some_iff.mp hs
  have hrecved : m'.server.recved = a.delivered + credited a.server e := by
    rw [← heq]
    exact recved_step lw hinv hm
  have hcorrect : Correct lw a e ↔ m'.server.recved ≤ a.delivered + payload e ∧
      ∀ data env, e = .recv data env → data ≠ [] →
        m'.server.recved = a.delivered + payload e := by
    constructor
    · intro h
      exact h _ hs
    · intro h b hb
      cases hs.symm.trans hb
      exact h
  have hforced : Correct lw a e → m'.server.recved = a.delivered + payload e := by
    intro h
    obtain ⟨hle, hrecv⟩ := hcorrect.mp h
    by_cases hdata : ∃ x xs env, e = .recv (x :: xs) env
    · obtain ⟨x, xs, env, rfl⟩ := hdata
      exact hrecv _ env rfl (List.cons_ne_nil x xs)
    · -- nothing has been delivered, and more than nothing would be too much
      have hzero : payload e = 0 := by
        cases e with
        | recv data env =>
          cases data with
          | nil => rfl
          | cons x xs => exact absurd ⟨x, xs, env, rfl⟩ hdata
        | _ => rfl
      rw [hrecved, hzero] at hle
      rw [hrecved, hzero]
      omega
  refine ⟨?_, hforced⟩
  rw [balanced_iff]
  constructor
  · intro h
    have := hforced h
    omega
  · intro h
    exact hcorrect.mpr ⟨by omega, fun _ _ _ _ => by omega⟩

lemma inv_step {a a' : Account} (hinv : Inv a.server) {e : Event} (hs : step lw a e = some a') :
    Inv a'.server := by
  obtain ⟨m', hm, rfl⟩ := Option.map_eq_some_iff.mp hs
  exact ((StepRule.of_step lw hinv hm).inv hinv).1

/-- The account is right throughout if and only if the call for the first segment gets as many bytes
of the response accepted as the segment has, and no other call gets any accepted. -/
theorem account_law (lw : Lwip) (reqbuff resbuff : ℕ → Byte) (reslen : ℕ) (es : List Event) :
    Throughout (step lw) (Correct lw) (start reqbuff resbuff reslen) es ↔
      Throughout (step lw) Balanced (start reqbuff resbuff reslen) es := by
  refine throughout_congr (P := fun a => Inv a.server ∧ a.server.recved = a.delivered) ?_
    ⟨Or.inl ⟨_, _, inv_accepted reqbuff resbuff reslen⟩, rfl⟩
  rintro a e a' ⟨hinv, heq⟩ hs
  obtain ⟨hiff, hforced⟩ := correct_iff lw hinv heq hs
  exact ⟨hiff, fun h => ⟨inv_step lw hinv hs, hforced h⟩⟩

/-- lwIP has a pbuf for the response and accepts it. -/
def willing : Env := ⟨fun _ => 0, some [], [⟨5840, .ok⟩]⟩

/-- A segment of four bytes that is no request is not given back. One that is a request is given
back as five bytes, the page being that long. -/
theorem account_goes_wrong :
    (∃ a, step documented (start (fun _ => 0) (fun _ => 0) 5)
        (.recv [[71, 69, 84, 32]] willing) = some a ∧ a.server.recved = 0 ∧ a.delivered = 4) ∧
    (∃ a, step documented (start (fun _ => 0) (fun _ => 0) 5)
        (.recv [[13, 10, 13, 10]] willing) = some a ∧ a.server.recved = 5 ∧ a.delivered = 4) ∧
    ¬ Throughout (step documented) (Correct documented) (start (fun _ => 0) (fun _ => 0) 5)
        [.recv [[71, 69, 84, 32]] willing] ∧
    ¬ Throughout (step documented) (Correct documented) (start (fun _ => 0) (fun _ => 0) 5)
        [.recv [[13, 10, 13, 10]] willing] := by
  have hkeeps : (step documented (start (fun _ => 0) (fun _ => 0) 5)
      (.recv [[71, 69, 84, 32]] willing)).map (fun a => (a.server.recved, a.delivered)) =
        some (0, 4) := by decide
  have hpays : (step documented (start (fun _ => 0) (fun _ => 0) 5)
      (.recv [[13, 10, 13, 10]] willing)).map (fun a => (a.server.recved, a.delivered)) =
        some (5, 4) := by decide
  obtain ⟨a, ha, heq⟩ := Option.map_eq_some_iff.mp hkeeps
  obtain ⟨b, hb, heq'⟩ := Option.map_eq_some_iff.mp hpays
  obtain ⟨hrecved, hdelivered⟩ := Prod.mk.inj heq
  obtain ⟨hrecved', hdelivered'⟩ := Prod.mk.inj heq'
  refine ⟨⟨a, ha, hrecved, hdelivered⟩, ⟨b, hb, hrecved', hdelivered'⟩, fun h => ?_, fun h => ?_⟩
  · have hall := ((h a ha).1 a ha).2 _ _ rfl (by decide)
    omega
  · have hle := ((h b hb).1 b hb).1
    omega

end BcmMruby.HttpServer.Credit
