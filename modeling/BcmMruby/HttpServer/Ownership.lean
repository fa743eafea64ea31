import BcmMruby.HttpServer.Basic

/-!
# Who owns the memory of a connection

While a connection is open its `httpsvr_state` is allocated, and the pbufs of the chain `es->p` are
all the pbufs there are, with one reference each. Every callback keeps this or ends the connection
and leaves nothing allocated.
-/

namespace BcmMruby.HttpServer

open Core

/-! ### The invariant of a connection -/

/-- Nothing has been attached, or what `tcp_write` has accepted and what the chain at `ids` still
holds make up the response. -/
def Ledger (s : Server) (es : HttpsvrState) (ids : List ℕ) : Prop :=
  s.responses = [] ∧ ids = [] ∧ s.written = [] ∨
    es.state = .esClosing ∧
      ∃ r, s.responses = [r] ∧ s.written ++ (s.pbufs.contents ids).flatten = r

/-- An open connection. -/
structure Live (s : Server) (es : HttpsvrState) (ids : List ℕ) : Prop where
  record : s.es = some es
  frees : s.esFrees = 0
  pcb : s.pcb = ⟨.opened, true, true, true, true, true⟩
  owns : s.pbufs.Owns es.p ids
  freed : s.pbufs.FreedOnce
  state : es.state = .esAccepted ∨ es.state = .esClosing
  ledger : Ledger s es ids

/-- A connection that `httpsvr_close` or `httpsvr_error` has ended. -/
structure Ended (s : Server) : Prop where
  record : s.es = none
  frees : s.esFrees = 1
  pcb : s.pcb = ⟨.closed, false, false, false, false, false⟩ ∨ s.pcb.state = .gone
  owns : s.pbufs.Owns none []
  freed : s.pbufs.FreedOnce
  written : s.pcb.state = .closed → ∀ r ∈ s.responses, s.written = r

/-- The page and the responses are the same. -/
structure Same (s s' : Server) : Prop where
  resbuff : s'.resbuff = s.resbuff
  reslen : s'.reslen = s.reslen
  responses : s'.responses = s.responses

lemma Same.refl (s : Server) : Same s s := ⟨rfl, rfl, rfl⟩

variable (lw : Lwip) {s s' : Server} {es : HttpsvrState} {ids : List ℕ}

/-! ### Pbufs -/

lemma live_of_release {h h' : Pbufs} {p : ℕ} (hrel : h.release p = some h') :
    ∃ c, h.cells p = some c := by
  rw [Heap.release] at hrel
  cases hn : h.count with
  | zero => simp [hn, Heap.releaseFrom] at hrel
  | succ n =>
    cases hc : h.cells p with
    | none => simp [hn, Heap.releaseFrom, hc] at hrel
    | some c => exact ⟨c, rfl⟩

lemma pbufFree_eq {p : ℕ} {h' : Pbufs} (hrel : s.pbufs.release p = some h') :
    s.pbufFree lw p = some { s with pbufs := h' } := by
  obtain ⟨c, hc⟩ := live_of_release hrel
  rw [Server.pbufFree, hc, Option.map_some, lw.free_eq _ _ _ hrel]

lemma pbufRef_eq {p : ℕ} (hlive : s.pbufs.cells p ≠ none) :
    s.pbufRef lw p = some { s with pbufs := s.pbufs.retain p } := by
  obtain ⟨c, hc⟩ := Option.ne_none_iff_exists'.mp hlive
  rw [Server.pbufRef, hc, Option.map_some, lw.ref_eq _ _ hlive]

lemma sum_cut (sizes : List ℕ) (len : ℕ) : (cut sizes len).sum = len := by
  induction sizes generalizing len with
  | nil => simp [cut]
  | cons size sizes ih =>
    rw [cut, List.sum_cons, ih]
    have := min_le_right size len
    omega

lemma exists_cons_of_cut (sizes : List ℕ) (len : ℕ) : ∃ n ns, cut sizes len = n :: ns := by
  cases sizes with
  | nil => exact ⟨len, [], rfl⟩
  | cons size sizes => exact ⟨_, _, rfl⟩

lemma length_flatten_zeros (ns : List ℕ) :
    (ns.map (List.replicate · (0 : Byte))).flatten.length = ns.sum := by
  induction ns with
  | nil => rfl
  | cons n ns ih =>
    rw [List.map_cons, List.flatten_cons, List.length_append, List.length_replicate, ih,
      List.sum_cons]

/-- The pbufs of `pbuf_alloc`, with the data of `pbuf_take`. -/
lemma pbufAlloc_spec {h : Pbufs} (ho : h.Owns none []) (hf : h.FreedOnce) (sizes : List ℕ)
    (data : List Byte) :
    ∃ b h' ids, pbufAlloc (some sizes) h data.length = (some b, h') ∧
      (lw.pbufTake h' b data).Owns (some b) ids ∧ (lw.pbufTake h' b data).FreedOnce ∧
      ((lw.pbufTake h' b data).contents ids).flatten = data ∧
      ((lw.pbufTake h' b data).contents ids).map List.length = cut sizes data.length := by
  obtain ⟨n, ns, hcut⟩ := exists_cons_of_cut sizes data.length
  let as := (cut sizes data.length).map (List.replicate · (0 : Byte))
  obtain ⟨ids, ha⟩ := Heap.allocated_allocChain h as
  have hsome : ∃ b, (h.allocChain as).1 = some b := by
    simp only [as, hcut, List.map_cons]
    exact ⟨_, rfl⟩
  obtain ⟨b, hb⟩ := hsome
  rw [hb] at ha
  have hlen : ((h.allocChain as).2.contents ids).flatten.length = data.length := by
    rw [ha.contents, length_flatten_zeros, sum_cut]
  obtain ⟨bs, hfill, hbs, hlens⟩ := lw.take_eq _ b ids data ha.chain hlen
  refine ⟨b, (h.allocChain as).2, ids, Prod.ext hb rfl, hfill.owns (ha.owns ho),
    (hf.allocChain as).filled hfill, ?_, ?_⟩
  · rw [hfill.contents, hbs]
  · rw [hfill.contents, hlens, ha.contents]
    simp [as, Function.comp_def]

/-! ### Functions -/

lemma returns_ok {r : Option Server} (h : r = some s') :
    (r.bind fun s => some (s, Err.ok)) = some (s', .ok) := by
  rw [h, Option.bind_some]

/-- One pbuf is accepted. -/
lemma Live.chop (hl : Live s es ids) {ptr : ℕ} (hp : es.p = some ptr) {c : Cell (List Byte)}
    (hc : s.pbufs.cells ptr = some c) :
    ∃ h' rest, (c.next.elim s.pbufs s.pbufs.retain).release ptr = some h' ∧
      s.pbufs.contents ids = c.contents :: h'.contents rest ∧
      ∀ n, Live { s with
        pbufs := h'
        es := some { es with p := c.next }
        written := s.written ++ c.contents
        recved := n } { es with p := c.next } rest := by
  have howns := hl.owns
  rw [hp] at howns
  obtain ⟨h', rest, hids, hrel, howns', hcontents⟩ := howns.chop hc
  have hfreed : (c.next.elim s.pbufs s.pbufs.retain).FreedOnce := by
    cases c.next with
    | none => exact hl.freed
    | some q => exact hl.freed.modify q _
  have hsplit : s.pbufs.contents ids = c.contents :: h'.contents rest := by
    rw [hids, Heap.contents_cons hc, hcontents]
  refine ⟨h', rest, hrel, hsplit, fun n => ⟨rfl, hl.frees, hl.pcb, howns', hfreed.release hrel,
    hl.state, ?_⟩⟩
  rcases hl.ledger with ⟨-, hnil, -⟩ | ⟨hclosing, r, hr, hbytes⟩
  · rw [hids] at hnil
    cases hnil
  · refine Or.inr ⟨hclosing, r, hr, ?_⟩
    rw [hsplit, List.flatten_cons] at hbytes
    simpa using hbytes

/-- A turn in which `tcp_write` accepts the pbuf at the head of the chain. -/
lemma httpsvrSend_accept (hl : Live s es ids) {ptr : ℕ} (hp : es.p = some ptr)
    {c : Cell (List Byte)} (hc : s.pbufs.cells ptr = some c) {t : Turn} (ts : List Turn)
    (haccept : c.contents.length ≤ t.sndbuf ∧ t.wrErr = .ok) :
    ∃ s₁ rest, httpsvrSend lw (t :: ts) s = httpsvrSend lw ts s₁ ∧
      Live s₁ { es with p := c.next } rest ∧ Same s s₁ ∧
      s₁.recved = s.recved + c.contents.length ∧
      s.pbufs.contents ids = c.contents :: s₁.pbufs.contents rest := by
  obtain ⟨hlen, hwr⟩ := haccept
  have howns := hl.owns
  rw [hp] at howns
  obtain ⟨d, _, -, -, hd, hrest⟩ := Heap.chain_some.mp howns.chain
  obtain rfl : c = d := Option.some.inj (hc.symm.trans hd)
  obtain ⟨h', rest, hrel, hsplit, hl'⟩ := hl.chop hp hc
  refine ⟨_, rest, ?_, hl' (s.recved + c.contents.length), ⟨rfl, rfl, rfl⟩, rfl, hsplit⟩
  cases hnext : c.next with
  | none =>
    rw [hnext, Option.elim_none] at hrel
    simp only [httpsvrSend, hl.record, hp, hc, hlen, hwr, hnext, Option.bind_eq_bind,
      Option.bind_some, if_true, Server.setP, Option.map_some]
    rw [pbufFree_eq lw (by exact hrel)]
    rfl
  | some q =>
    rw [hnext, Option.elim_some] at hrel
    have hq : s.pbufs.cells q ≠ none := by
      rw [hnext] at hrest
      obtain ⟨d, -, -, -, hd, -⟩ := Heap.chain_some.mp hrest
      simp [hd]
    simp only [httpsvrSend, hl.record, hp, hc, hlen, hwr, hnext, Option.bind_eq_bind,
      Option.bind_some, if_true, Server.setP, Option.map_some]
    rw [pbufRef_eq lw (by exact hq), Option.bind_some, pbufFree_eq lw (by exact hrel)]
    rfl

/-- A turn in which it does not is the last one. -/
lemma httpsvrSend_refuse (hl : Live s es ids) {ptr : ℕ} (hp : es.p = some ptr)
    {c : Cell (List Byte)} (hc : s.pbufs.cells ptr = some c) {t : Turn} (ts : List Turn)
    (hrefuse : ¬(c.contents.length ≤ t.sndbuf ∧ t.wrErr = .ok)) :
    httpsvrSend lw (t :: ts) s = some s := by
  by_cases hlen : c.contents.length ≤ t.sndbuf
  swap
  · simp [httpsvrSend, hl.record, hp, hc, hlen]
  cases hwr : t.wrErr with
  | ok => exact absurd ⟨hlen, hwr⟩ hrefuse
  | mem =>
    have hes : s.setP (some ptr) = s := by
      rw [Server.setP, hl.record, Option.map_some, ← hp, ← hl.record]
    simp [httpsvrSend, hl.record, hp, hc, hwr, hes]
  | val | abrt | other => simp [httpsvrSend, hl.record, hp, hc, hwr]

/-- With nothing attached `httpsvr_send` does nothing. -/
lemma httpsvrSend_none (turns : List Turn) (hrecord : s.es = some es) (hp : es.p = none) :
    httpsvrSend lw turns s = some s := by
  cases turns with
  | nil => rfl
  | cons t ts => simp [httpsvrSend, hrecord, hp]

lemma httpsvrSend_spec (turns : List Turn) (hl : Live s es ids) :
    ∃ s' es' ids', httpsvrSend lw turns s = some s' ∧ Live s' es' ids' ∧
      es'.state = es.state ∧ Same s s' := by
  induction turns generalizing s es ids with
  | nil => exact ⟨s, es, ids, rfl, hl, rfl, .refl s⟩
  | cons t ts ih =>
    cases hp : es.p with
    | none => exact ⟨s, es, ids, httpsvrSend_none lw _ hl.record hp, hl, rfl, .refl s⟩
    | some ptr =>
      have howns := hl.owns
      rw [hp] at howns
      obtain ⟨c, _, -, -, hc, -⟩ := Heap.chain_some.mp howns.chain
      by_cases haccept : c.contents.length ≤ t.sndbuf ∧ t.wrErr = .ok
      · obtain ⟨s₁, rest, hturn, hl₁, hsame₁, -, -⟩ := httpsvrSend_accept lw hl hp hc ts haccept
        obtain ⟨s', es', ids', hsend, hlive, hstate, hsame⟩ := ih hl₁
        exact ⟨s', es', ids', hturn.trans hsend, hlive, hstate, hsame.resbuff.trans hsame₁.resbuff,
          hsame.reslen.trans hsame₁.reslen, hsame.responses.trans hsame₁.responses⟩
      · exact ⟨s, es, ids, httpsvrSend_refuse lw hl hp hc ts haccept, hl, rfl, .refl s⟩

/-- The record and the chain that it holds are freed. -/
lemma httpsvrFree_spec (hrecord : s.es = some es) (howns : s.pbufs.Owns es.p ids)
    (hfreed : s.pbufs.FreedOnce) :
    ∃ h', httpsvrFree lw true s =
        some { s with pbufs := h', es := none, esFrees := s.esFrees + 1 } ∧
      h'.Owns none [] ∧ h'.FreedOnce := by
  cases hp : es.p with
  | none =>
    rw [hp] at howns
    have hnil : ids = [] := Heap.chain_none.mp howns.chain
    exact ⟨s.pbufs, by simp [httpsvrFree, Server.deref, hrecord, hp], hnil ▸ howns, hfreed⟩
  | some p =>
    rw [hp] at howns
    obtain ⟨h', hrel, howns'⟩ := howns.release
    refine ⟨h', ?_, howns', hfreed.release hrel⟩
    simp [httpsvrFree, Server.deref, hrecord, hp, pbufFree_eq lw hrel]

/-- A connection is closed only when it has nothing left to send. -/
lemma httpsvrClose_spec (hl : Live s es ids) (hp : es.p = none) :
    ∃ s', httpsvrClose lw true s = some s' ∧ Ended s' ∧ Same s s' := by
  have hnil : ids = [] := by
    have hchain := hl.owns.chain
    rw [hp] at hchain
    exact Heap.chain_none.mp hchain
  let t : Server := { s with pcb := ⟨s.pcb.state, false, false, false, false, false⟩ }
  obtain ⟨h', hfree, howns, hfreed⟩ :=
    httpsvrFree_spec lw (s := t) hl.record hl.owns hl.freed
  refine ⟨{ t with
    pbufs := h', es := none, esFrees := t.esFrees + 1, pcb := { t.pcb with state := .closed } },
    ?_, ⟨rfl, ?_, Or.inl rfl, howns, hfreed, ?_⟩, ⟨rfl, rfl, rfl⟩⟩
  · rw [httpsvrClose, Option.bind_eq_bind, hfree]
    rfl
  · show s.esFrees + 1 = 1
    rw [hl.frees]
  · intro _ r hr
    rcases hl.ledger with ⟨hnone, -, -⟩ | ⟨-, r', hr', hbytes⟩
    · rw [show s.responses = [] from hnone] at hr
      cases hr
    · have : r = r' := by simpa [t, hr'] using hr
      rw [hnil] at hbytes
      simpa [Heap.contents, this] using hbytes

lemma httpsvrError_spec (hl : Live s es ids) :
    ∃ s', httpsvrError lw true { s with pcb := { s.pcb with state := .gone } } = some s' ∧
      Ended s' ∧ Same s s' := by
  let t : Server := { s with pcb := { s.pcb with state := .gone } }
  obtain ⟨h', hfree, howns, hfreed⟩ :=
    httpsvrFree_spec lw (s := t) hl.record hl.owns hl.freed
  refine ⟨_, hfree, ⟨rfl, ?_, Or.inr rfl, howns, hfreed, ?_⟩, ⟨rfl, rfl, rfl⟩⟩
  · show s.esFrees + 1 = 1
    rw [hl.frees]
  · intro hclosed
    cases hclosed

/-! ### Callbacks -/

/-- The connection is open or has ended. -/
def Inv (s : Server) : Prop := (∃ es ids, Live s es ids) ∨ Ended s

lemma httpsvrPoll_spec (turns : List Turn) (hl : Live s es ids) :
    ∃ s', httpsvrPoll lw true turns s = some (s', .ok) ∧ Inv s' ∧ Same s s' := by
  by_cases hp : es.p = none
  swap
  · obtain ⟨s', es', ids', hsend, hlive, -, hsame⟩ := httpsvrSend_spec lw turns hl
    exact ⟨s', by simp [httpsvrPoll, Server.deref, hl.record, hp, hsend], .inl ⟨_, _, hlive⟩,
      hsame⟩
  by_cases hstate : es.state = .esClosing
  · obtain ⟨s', hclose, hended, hsame⟩ := httpsvrClose_spec lw hl hp
    exact ⟨s', by simp [httpsvrPoll, Server.deref, hl.record, hp, hstate, hclose], .inr hended,
      hsame⟩
  · exact ⟨s, by simp [httpsvrPoll, Server.deref, hl.record, hp, hstate], .inl ⟨_, _, hl⟩,
      .refl s⟩

lemma httpsvrSent_spec (turns : List Turn) (hl : Live s es ids) :
    ∃ s', httpsvrSent lw true turns s = some (s', .ok) ∧ Inv s' ∧ Same s s' := by
  let t : Server := { s with es := some { es with retries := 0 } }
  have ht : Live t { es with retries := 0 } ids :=
    ⟨rfl, hl.frees, hl.pcb, hl.owns, hl.freed, hl.state, hl.ledger⟩
  by_cases hp : es.p = none
  swap
  · let u : Server := { t with pcb := { t.pcb with sent := true } }
    have hu : Live u { es with retries := 0 } ids := by
      refine ⟨rfl, hl.frees, ?_, hl.owns, hl.freed, hl.state, hl.ledger⟩
      show { s.pcb with sent := true } = _
      rw [hl.pcb]
    obtain ⟨s', es', ids', hsend, hlive, -, hsame⟩ := httpsvrSend_spec lw turns hu
    refine ⟨s', ?_, .inl ⟨_, _, hlive⟩, ⟨hsame.resbuff, hsame.reslen, hsame.responses⟩⟩
    simp only [httpsvrSent, Server.deref, hl.record, if_true, Option.bind_eq_bind,
      Option.bind_some, if_pos hp]
    exact returns_ok hsend
  by_cases hstate : es.state = .esClosing
  · obtain ⟨s', hclose, hended, hsame⟩ := httpsvrClose_spec lw ht hp
    refine ⟨s', ?_, .inr hended, ⟨hsame.resbuff, hsame.reslen, hsame.responses⟩⟩
    have hopen : ¬es.p ≠ none := not_not_intro hp
    simp only [httpsvrSent, Server.deref, hl.record, if_true, Option.bind_eq_bind,
      Option.bind_some, if_neg hopen, if_pos hstate]
    exact returns_ok hclose
  · refine ⟨t, ?_, .inl ⟨_, _, ht⟩, ⟨rfl, rfl, rfl⟩⟩
    simp [httpsvrSent, Server.deref, hl.record, hp, hstate, t]

lemma Live.setClosing (hl : Live s es ids) :
    Live (s.setState .esClosing) { es with state := .esClosing } ids := by
  refine ⟨by simp [Server.setState, hl.record], hl.frees, hl.pcb, hl.owns, hl.freed, Or.inr rfl, ?_⟩
  rcases hl.ledger with h | ⟨-, h⟩
  · exact Or.inl h
  · exact Or.inr ⟨rfl, h⟩

/-- The end of the stream. -/
lemma httpsvrRecv_null_spec (env : Env) (hl : Live s es ids) :
    ∃ s', httpsvrRecv lw true none .ok env s = some (s', .ok) ∧ Inv s' ∧ Same s s' := by
  let t := s.setState .esClosing
  have ht : Live t { es with state := .esClosing } ids := hl.setClosing
  by_cases hp : es.p = none
  · obtain ⟨s', hclose, hended, hsame⟩ := httpsvrClose_spec lw ht hp
    refine ⟨s', ?_, .inr hended, ⟨hsame.resbuff, hsame.reslen, hsame.responses⟩⟩
    simp only [httpsvrRecv, Server.deref, hl.record, if_true, Option.bind_eq_bind,
      Option.bind_some, if_pos hp]
    exact returns_ok hclose
  · obtain ⟨s', es', ids', hsend, hlive, -, hsame⟩ := httpsvrSend_spec lw env.turns ht
    refine ⟨s', ?_, .inl ⟨_, _, hlive⟩, ⟨hsame.resbuff, hsame.reslen, hsame.responses⟩⟩
    simp only [httpsvrRecv, Server.deref, hl.record, if_true, Option.bind_eq_bind,
      Option.bind_some, if_neg hp]
    exact returns_ok hsend

/-- The segment is answered: the test finds the end of the request in it, and there is a pbuf for
the response. -/
def answered (reqbuff : ℕ → Byte) (env : Env) (segment : List Byte) : Bool :=
  endOfRequest (indexed (store reqbuff 0 (segment.take reqbuffSize)) env.around) segment.length &&
    env.alloc.isSome

/-- The lengths of the pbufs that hold the response to a segment. -/
def responseLengths (s : Server) (env : Env) (segment : List Byte) : List ℕ :=
  if answered s.reqbuff env segment then cut (env.alloc.getD []) s.reslen else []

/-- A segment as lwIP hands it over. -/
lemma segment_spec (s : Server) {data : List (List Byte)} (hdata : data ≠ [])
    (hf : s.pbufs.FreedOnce) :
    ∃ p h h', s.pbufs.allocChain data = (some p, h) ∧ totLen h p = data.flatten.length ∧
      (∀ len, lw.pbufCopyPartial h p len = data.flatten.take len) ∧
      h.release p = some h' ∧ (∀ q, h'.cells q = s.pbufs.cells q) ∧ h'.FreedOnce := by
  obtain ⟨ids, ha⟩ := Heap.allocated_allocChain s.pbufs data
  have hsome : ∃ p, (s.pbufs.allocChain data).1 = some p := by
    obtain ⟨a, as, rfl⟩ := List.exists_cons_of_ne_nil hdata
    exact ⟨_, rfl⟩
  obtain ⟨p, hp⟩ := hsome
  rw [hp] at ha
  obtain ⟨h', hrel, hcells⟩ := ha.release
  refine ⟨p, (s.pbufs.allocChain data).2, h', Prod.ext hp rfl, ?_, ?_, hrel, hcells,
    (hf.allocChain data).release hrel⟩
  · rw [totLen, ha.chain.chainAt_eq, ha.contents]
  · intro len
    rw [lw.copy_eq _ _ _ len ha.chain, ha.contents]

/-- What the test leads to: the response, in pbufs of its own. -/
def respond (env : Env) (s : Server) : Server :=
  match pbufAlloc env.alloc s.pbufs s.reslen with
  | (none, pbufs) => { s with pbufs := pbufs }.setP none
  | (some b, pbufs) =>
    { s with pbufs := lw.pbufTake pbufs b s.page, responses := s.responses ++ [s.page] }.setP
      (some b)

/-- The server when it has taken a first segment, with the response attached if there is one. -/
def attach (s : Server) (data : List (List Byte)) (env : Env) : Server :=
  match s.pbufs.allocChain data with
  | (none, _) => s
  | (some p, pbufs) =>
    let len := totLen pbufs p
    let reqlen := if len > reqbuffSize then reqbuffSize else len
    let s := { s.setState .esClosing with
      pbufs := lw.pbufFree pbufs p
      reqlen := reqlen
      reqbuff := store s.reqbuff 0 (lw.pbufCopyPartial pbufs p reqlen) }
    if endOfRequest (indexed s.reqbuff env.around) len then respond lw env s else s

/-- Before the first segment nothing is attached. -/
lemma Live.fresh (hl : Live s es ids) (hstate : es.state = .esAccepted) :
    s.responses = [] ∧ ids = [] ∧ s.written = [] ∧ es.p = none := by
  rcases hl.ledger with ⟨hresponses, hids, hwritten⟩ | ⟨hclosing, -⟩
  · exact ⟨hresponses, hids, hwritten, hl.owns.none_iff.mpr hids⟩
  · rw [hstate] at hclosing
    cases hclosing

/-- A response is attached as far as there is a pbuf for it. -/
lemma respond_spec (env : Env) (hl : Live s es ids) (hstate : es.state = .esClosing)
    (hfresh : s.responses = [] ∧ ids = [] ∧ s.written = [] ∧ es.p = none) :
    ∃ es' ids', Live (respond lw env s) es' ids' ∧ es'.state = .esClosing ∧
      (respond lw env s).resbuff = s.resbuff ∧ (respond lw env s).reslen = s.reslen ∧
      (respond lw env s).recved = s.recved ∧
      (respond lw env s).responses = (if env.alloc.isSome then [s.page] else []) ∧
      ((respond lw env s).pbufs.contents ids').map List.length =
        if env.alloc.isSome then cut (env.alloc.getD []) s.reslen else [] := by
  obtain ⟨hresponses, rfl, hwritten, hp⟩ := hfresh
  cases halloc : env.alloc with
  | none =>
    have hsame : respond lw env s = s := by
      have hset : s.setP none = s := by
        rw [Server.setP, hl.record, Option.map_some, ← hp, ← hl.record]
      simp [respond, halloc, pbufAlloc, hset]
    rw [hsame]
    exact ⟨es, [], hl, hstate, rfl, rfl, rfl, hresponses, rfl⟩
  | some sizes =>
    have howns := hl.owns
    rw [hp] at howns
    have hlength : s.page.length = s.reslen := length_load _ _ _
    obtain ⟨b, hb, ids', hpbufAlloc, howns', hfreed', hbytes, hlens⟩ :=
      pbufAlloc_spec lw howns hl.freed sizes s.page
    rw [hlength] at hpbufAlloc hlens
    have hattach : respond lw env s = { s with
        pbufs := lw.pbufTake hb b s.page
        es := some { es with p := some b }
        responses := s.responses ++ [s.page] } := by
      simp [respond, halloc, hpbufAlloc, Server.setP, hl.record]
    have hattached : s.responses ++ [s.page] = [s.page] := by rw [hresponses, List.nil_append]
    rw [hattach]
    refine ⟨{ es with p := some b }, ids', ⟨rfl, hl.frees, hl.pcb, howns', hfreed', Or.inr hstate,
      Or.inr ⟨hstate, s.page, hattached, ?_⟩⟩, hstate, rfl, rfl, rfl, hattached, hlens⟩
    show s.written ++ _ = _
    rw [hwritten, List.nil_append]
    exact hbytes

/-- The server with the request in `reqbuff`, and what `httpsvr_recv` goes on to do. -/
lemma attach_eq (env : Env) {data : List (List Byte)} (hdata : data ≠ []) (hl : Live s es ids)
    (hstate : es.state = .esAccepted) :
    ∃ t : Server, Live t { es with state := .esClosing } [] ∧
      (t.reqbuff = store s.reqbuff 0 (data.flatten.take reqbuffSize) ∧ t.resbuff = s.resbuff ∧
        t.reslen = s.reslen ∧ t.recved = s.recved ∧ t.responses = [] ∧ t.written = [] ∧
        t.reqlen = (data.flatten.take reqbuffSize).length) ∧
      let found := endOfRequest (indexed t.reqbuff env.around) data.flatten.length
      attach lw s data env = (if found then respond lw env t else t) ∧
      httpsvrRecv lw true (s.pbufs.allocChain data).1 .ok env
          { s with pbufs := (s.pbufs.allocChain data).2 } =
        if found then (httpsvrSend lw env.turns (respond lw env t)).bind fun s => some (s, .ok)
        else some (t, .ok) := by
  obtain ⟨p, h, h', halloc, hlen, hcopy, hrel, hcells, hfreed⟩ :=
    segment_spec lw s hdata hl.freed
  obtain ⟨hresponses, hids, hwritten, hp⟩ := hl.fresh hstate
  have howns : h'.Owns none [] := by
    have := hl.owns
    rw [hp, hids] at this
    exact this.congr hcells
  have hreq : data.flatten.take
      (if data.flatten.length > reqbuffSize then reqbuffSize else data.flatten.length) =
      data.flatten.take reqbuffSize := by
    split_ifs with hlong
    · rfl
    · rw [List.take_length, List.take_of_length_le (by omega)]
  let t : Server := { s with
    pbufs := h'
    es := some { es with state := .esClosing }
    reqlen := if data.flatten.length > reqbuffSize then reqbuffSize else data.flatten.length
    reqbuff := store s.reqbuff 0 (data.flatten.take reqbuffSize) }
  have ht : Live t { es with state := .esClosing } [] :=
    ⟨rfl, hl.frees, hl.pcb, by rw [hp]; exact howns, hfreed, Or.inr rfl,
      Or.inl ⟨hresponses, rfl, hwritten⟩⟩
  have hreqlen : t.reqlen = (data.flatten.take reqbuffSize).length := by
    rw [List.length_take]
    show (if _ then _ else _) = _
    split_ifs <;> omega
  refine ⟨t, ht, ⟨rfl, rfl, rfl, rfl, hresponses, hwritten, hreqlen⟩, ?_, ?_⟩
  · simp only [attach, halloc, hlen, hcopy, hreq, lw.free_eq _ _ _ hrel, Server.setState,
      hl.record, Option.map_some]
    rfl
  · have hfree : Server.pbufFree lw { t with pbufs := h } p = some t := pbufFree_eq lw hrel
    rw [halloc]
    simp only [httpsvrRecv, Server.deref, hl.record, if_true, Option.bind_eq_bind,
      Option.bind_some, hstate, hlen, hcopy, hreq, ne_eq, not_true_eq_false, if_false,
      Server.setState, Option.map_some]
    rw [show Server.pbufFree lw _ p = some t from hfree, Option.bind_some, respond]
    rcases pbufAlloc env.alloc t.pbufs t.reslen with ⟨_ | b, pbufs⟩ <;> rfl

lemma attach_spec (env : Env) {data : List (List Byte)} (hdata : data ≠ [])
    (hl : Live s es ids) (hstate : es.state = .esAccepted) :
    ∃ es' ids', Live (attach lw s data env) es' ids' ∧ es'.state = .esClosing ∧
      (attach lw s data env).resbuff = s.resbuff ∧ (attach lw s data env).reslen = s.reslen ∧
      (attach lw s data env).recved = s.recved ∧
      (attach lw s data env).responses =
        (if answered s.reqbuff env data.flatten then [s.page] else []) ∧
      ((attach lw s data env).pbufs.contents ids').map List.length =
        responseLengths s env data.flatten := by
  obtain ⟨t, ht, ⟨hreqbuff, hresbuff, hreslen, hrecved, hresponses, hwritten, -⟩, hattach, -⟩ :=
    attach_eq lw env hdata hl hstate
  have hp := (hl.fresh hstate).2.2.2
  have hpage : t.page = s.page := by rw [Server.page, Server.page, hresbuff, hreslen]
  rw [responseLengths, answered, ← hreqbuff, hattach]
  cases endOfRequest (indexed t.reqbuff env.around) data.flatten.length with
  | false => exact ⟨_, _, ht, rfl, hresbuff, hreslen, hrecved, hresponses, rfl⟩
  | true =>
    obtain ⟨es', ids', hlive, hclosing, hrespond⟩ :=
      respond_spec lw env ht rfl ⟨hresponses, rfl, hwritten, hp⟩
    obtain ⟨hresbuff', hreslen', hrecved', hresponses', hlens⟩ := hrespond
    rw [hpage] at hresponses'
    rw [hreslen] at hlens
    exact ⟨es', ids', hlive, hclosing, hresbuff'.trans hresbuff, hreslen'.trans hreslen,
      hrecved'.trans hrecved, hresponses', hlens⟩

/-- The first segment is taken, and what is then attached is sent. -/
lemma httpsvrRecv_attach (env : Env) {data : List (List Byte)} (hdata : data ≠ [])
    (hl : Live s es ids) (hstate : es.state = .esAccepted) :
    httpsvrRecv lw true (s.pbufs.allocChain data).1 .ok env
        { s with pbufs := (s.pbufs.allocChain data).2 } =
      (httpsvrSend lw env.turns (attach lw s data env)).bind fun s => some (s, .ok) := by
  obtain ⟨t, ht, -, hattach, hrecv⟩ := attach_eq lw env hdata hl hstate
  have hp := (hl.fresh hstate).2.2.2
  rw [hrecv, hattach]
  split_ifs
  · rfl
  · rw [httpsvrSend_none lw env.turns ht.record hp, Option.bind_some]

/-- The first segment. -/
lemma httpsvrRecv_accepted_spec (env : Env) {data : List (List Byte)} (hdata : data ≠ [])
    (hl : Live s es ids) (hstate : es.state = .esAccepted) :
    ∃ s' es' ids', httpsvrRecv lw true (s.pbufs.allocChain data).1 .ok env
        { s with pbufs := (s.pbufs.allocChain data).2 } = some (s', .ok) ∧
      Live s' es' ids' ∧ es'.state = .esClosing ∧ s'.resbuff = s.resbuff ∧ s'.reslen = s.reslen ∧
      s'.responses = if answered s.reqbuff env data.flatten then [s.page] else [] := by
  obtain ⟨es₁, ids₁, hl₁, hclosing₁, hresbuff, hreslen, -, hresponses, -⟩ :=
    attach_spec lw env hdata hl hstate
  obtain ⟨s', es', ids', hsend, hlive, hclosing, hsame⟩ := httpsvrSend_spec lw env.turns hl₁
  refine ⟨s', es', ids', ?_, hlive, hclosing.trans hclosing₁, hsame.resbuff.trans hresbuff,
    hsame.reslen.trans hreslen, hsame.responses.trans hresponses⟩
  rw [httpsvrRecv_attach lw env hdata hl hstate, hsend]
  rfl

/-- Later segments are thrown away. -/
lemma httpsvrRecv_closing_spec (env : Env) {data : List (List Byte)} (hdata : data ≠ [])
    (hl : Live s es ids) (hstate : es.state = .esClosing) :
    ∃ s', httpsvrRecv lw true (s.pbufs.allocChain data).1 .ok env
        { s with pbufs := (s.pbufs.allocChain data).2 } = some (s', .ok) ∧
      Live s' es ids ∧ Same s s' ∧ s'.recved = s.recved + data.flatten.length := by
  obtain ⟨p, h, h', halloc, hlen, -, hrel, hcells, hfreed⟩ :=
    segment_spec lw s hdata hl.freed
  refine ⟨{ s with pbufs := h', recved := s.recved + data.flatten.length }, ?_, ?_,
    ⟨rfl, rfl, rfl⟩, rfl⟩
  · rw [halloc]
    simp only [httpsvrRecv, Server.deref, hl.record, if_true, Option.bind_eq_bind,
      Option.bind_some, hstate, hlen, ne_eq, not_true_eq_false, if_false]
    exact returns_ok (pbufFree_eq lw hrel)
  · refine ⟨hl.record, hl.frees, hl.pcb, hl.owns.congr hcells, hfreed, hl.state, ?_⟩
    have hcontents : h'.contents ids = s.pbufs.contents ids :=
      Heap.contents_congr fun q _ => hcells q
    rw [Ledger, hcontents]
    exact hl.ledger

/-! ### Steps -/

/-- What the callbacks do to a server. -/
structure Effect (s s' : Server) : Prop where
  inv : Inv s'
  resbuff : s'.resbuff = s.resbuff
  reslen : s'.reslen = s.reslen
  responses : s'.responses = s.responses ∨ s'.responses = [s.page]

lemma Effect.of_same (hinv : Inv s') (h : Same s s') : Effect s s' :=
  ⟨hinv, h.resbuff, h.reslen, Or.inl h.responses⟩

lemma httpsvrRecv_spec (env : Env) (data : List (List Byte)) (hl : Live s es ids) :
    ∃ s', httpsvrRecv lw true (s.pbufs.allocChain data).1 .ok env
      { s with pbufs := (s.pbufs.allocChain data).2 } = some (s', .ok) ∧ Effect s s' := by
  by_cases hdata : data = []
  · subst hdata
    obtain ⟨s', hrecv, hinv, hsame⟩ := httpsvrRecv_null_spec lw env hl
    exact ⟨s', hrecv, .of_same hinv hsame⟩
  rcases hl.state with hstate | hstate
  · obtain ⟨s', es', ids', hrecv, hlive, -, hresbuff, hreslen, hresponses⟩ :=
      httpsvrRecv_accepted_spec lw env hdata hl hstate
    refine ⟨s', hrecv, Or.inl ⟨_, _, hlive⟩, hresbuff, hreslen, ?_⟩
    rw [hresponses]
    split_ifs
    · exact Or.inr rfl
    · rcases hl.ledger with ⟨hnone, -⟩ | ⟨hclosing, -⟩
      · exact Or.inl hnone.symm
      · rw [hstate] at hclosing
        cases hclosing
  · obtain ⟨s', hrecv, hlive, hsame, -⟩ := httpsvrRecv_closing_spec lw env hdata hl hstate
    exact ⟨s', hrecv, .of_same (Or.inl ⟨_, _, hlive⟩) hsame⟩

/-- The parts of a server that do not matter to a connection. -/
lemma Inv.memory (h : Inv s) (reqbuff resbuff : ℕ → Byte) (reqlen reslen : ℕ) :
    Inv { s with reqbuff := reqbuff, resbuff := resbuff, reqlen := reqlen, reslen := reslen } := by
  rcases h with ⟨es, ids, hl⟩ | he
  · exact Or.inl ⟨es, ids, hl.record, hl.frees, hl.pcb, hl.owns, hl.freed, hl.state, hl.ledger⟩
  · exact Or.inr ⟨he.record, he.frees, he.pcb, he.owns, he.freed, he.written⟩

variable {m m' : Machine}

/-- What one step does. -/
inductive StepRule (m : Machine) : Machine → Prop where
  | callback (s' : Server) (hie : m.ie = true) (h : Effect m.server s') :
      StepRule m { m with server := s' }
  | setres (buff : ℕ → Byte) (len : BitVec 32) (h : m.main = .idle) :
      StepRule m { m with main := .test buff len, ie := false }
  | main (m' : Machine) (h : mainStep m = some m') : StepRule m m'

/-- A connection that has ended gets no callbacks. -/
lemma Ended.no_callback (h : Ended s) {registered : Bool}
    (hregistered : s.pcb = ⟨.closed, false, false, false, false, false⟩ → registered = false) :
    ¬(s.pcb.state.alive = true ∧ registered = true) := by
  rintro ⟨halive, hon⟩
  rcases h.pcb with hclosed | hgone
  · rw [hregistered hclosed] at hon
    cases hon
  · rw [hgone] at halive
    cases halive

/-- A callback finds the connection open. -/
lemma live_of_callback (hinv : Inv m.server) {registered : Bool} {r : Option Server}
    (hregistered : m.server.pcb = ⟨.closed, false, false, false, false, false⟩ →
      registered = false)
    (hs : (if m.ie ∧ m.server.pcb.state.alive ∧ registered then some (m.after r) else none) =
      some m') :
    m.ie = true ∧ m' = m.after r ∧ ∃ es ids, Live m.server es ids := by
  by_cases hcond : m.ie ∧ m.server.pcb.state.alive ∧ registered
  swap
  · rw [if_neg hcond] at hs
    cases hs
  rw [if_pos hcond] at hs
  rcases hinv with hlive | he
  · exact ⟨hcond.1, (Option.some.inj hs).symm, hlive⟩
  · exact absurd hcond.2 (he.no_callback hregistered)

lemma StepRule.of_step (hinv : Inv m.server) {e : Event} (hs : step lw m e = some m') :
    StepRule m m' := by
  have hcallback : ∀ (registered : Bool) (r : Option Server),
      (m.server.pcb = ⟨.closed, false, false, false, false, false⟩ → registered = false) →
      (if m.ie ∧ m.server.pcb.state.alive ∧ registered then some (m.after r) else none) =
        some m' →
      (∀ es ids, Live m.server es ids → ∃ s', r = some s' ∧ Effect m.server s') →
      StepRule m m' := by
    intro registered r hregistered hstep hr
    obtain ⟨hie, rfl, es, ids, hl⟩ := live_of_callback hinv hregistered hstep
    obtain ⟨s', rfl, heffect⟩ := hr es ids hl
    exact .callback s' hie heffect
  cases e with
  | recv data env =>
    refine hcallback m.server.pcb.recv _ (fun h => by rw [h]) hs ?_
    intro es ids hl
    obtain ⟨s', hrecv, heffect⟩ := httpsvrRecv_spec lw env data hl
    have harg : m.server.pcb.arg = true := by rw [hl.pcb]
    exact ⟨s', by rw [harg, hrecv]; rfl, heffect⟩
  | sent turns =>
    refine hcallback m.server.pcb.sent _ (fun h => by rw [h]) hs ?_
    intro es ids hl
    obtain ⟨s', hsent, hinv', hsame⟩ := httpsvrSent_spec lw turns hl
    have harg : m.server.pcb.arg = true := by rw [hl.pcb]
    exact ⟨s', by rw [harg, hsent]; rfl, .of_same hinv' hsame⟩
  | poll turns =>
    refine hcallback m.server.pcb.poll _ (fun h => by rw [h]) hs ?_
    intro es ids hl
    obtain ⟨s', hpoll, hinv', hsame⟩ := httpsvrPoll_spec lw turns hl
    have harg : m.server.pcb.arg = true := by rw [hl.pcb]
    exact ⟨s', by rw [harg, hpoll]; rfl, .of_same hinv' hsame⟩
  | error =>
    refine hcallback m.server.pcb.err _ (fun h => by rw [h]) hs ?_
    intro es ids hl
    obtain ⟨s', herror, hended, hsame⟩ := httpsvrError_spec lw hl
    have harg : m.server.pcb.arg = true := by rw [hl.pcb]
    exact ⟨s', by rw [harg, herror], .of_same (Or.inr hended) hsame⟩
  | others reqbuff reqlen =>
    simp only [step] at hs
    by_cases hie : m.ie = true
    swap
    · rw [if_neg hie] at hs
      cases hs
    rw [if_pos hie] at hs
    cases hs
    exact .callback _ hie (.of_same (hinv.memory reqbuff m.server.resbuff reqlen m.server.reslen)
      ⟨rfl, rfl, rfl⟩)
  | setres buff len =>
    simp only [step] at hs
    cases hmain : m.main with
    | idle =>
      rw [hmain] at hs
      cases hs
      exact .setres buff len hmain
    | test _ _ | copy _ _ _ | sti =>
      rw [hmain] at hs
      cases hs
  | main => exact .main m' hs

/-! ### Runs -/

/-- A pbuf is one of the chain `es->p`, and has one reference. -/
def Held (s : Server) (q : ℕ) : Prop :=
  q ∈ Heap.walk s.pbufs.count s.pbufs (s.es.bind (·.p)) ∧ ∃ c, s.pbufs.cells q = some c ∧ c.ref = 1

/-- No freed memory has been used. The record is allocated until the connection ends, and has then
been freed once. A pbuf, received or of a response, has been freed once, or it is held by an open
connection and has not been freed. -/
structure Sound (m : Machine) : Prop where
  safe : m.bad = false
  opened : m.server.pcb.state = .opened → m.server.es ≠ none ∧ m.server.esFrees = 0
  ended : m.server.pcb.state ≠ .opened → m.server.es = none ∧ m.server.esFrees = 1
  pbufs : ∀ q < m.server.pbufs.count, m.server.pbufs.frees q = 1 ∨
    m.server.pcb.state = .opened ∧ m.server.pbufs.frees q = 0 ∧ Held m.server q

lemma inv_accepted (reqbuff resbuff : ℕ → Byte) (reslen : ℕ) :
    Live (accepted reqbuff resbuff reslen) ⟨.esAccepted, 0, none⟩ [] :=
  ⟨rfl, rfl, rfl, Heap.owns_none.mpr fun _ => rfl, Heap.freedOnce_empty, Or.inl rfl,
    Or.inl ⟨rfl, rfl, rfl⟩⟩

lemma Inv.sound (h : Inv m.server) (hsafe : m.bad = false) : Sound m := by
  rcases h with ⟨es, ids, hl⟩ | he
  · have hopen : m.server.pcb.state = .opened := by rw [hl.pcb]
    refine ⟨hsafe, fun _ => ⟨by simp [hl.record], hl.frees⟩, fun hne => absurd hopen hne, ?_⟩
    intro q hq
    cases hc : m.server.pbufs.cells q with
    | none => exact Or.inl (by rw [hl.freed q, if_pos ⟨hq, hc⟩])
    | some c =>
      have hmem : q ∈ ids := hl.owns.only q (by simp [hc])
      refine Or.inr ⟨hopen, by rw [hl.freed q, if_neg (by simp [hc])], ?_, c, hc,
        hl.owns.sole q hmem c hc⟩
      rw [hl.record, Option.bind_some, Heap.walk_of_chain hl.owns.chain hl.owns.chain.length_le]
      exact hmem
  · have hne : m.server.pcb.state ≠ .opened := by
      rcases he.pcb with hclosed | hgone
      · simp [hclosed]
      · simp [hgone]
    refine ⟨hsafe, fun hopen => absurd hopen hne, fun _ => ⟨he.record, he.frees⟩, ?_⟩
    intro q hq
    exact Or.inl (by rw [he.freed q, if_pos ⟨hq, Heap.owns_none.mp he.owns q⟩])

/-- A step of the main program writes the page. -/
lemma mainStep_server (h : mainStep m = some m') :
    m'.bad = m.bad ∧ ∃ resbuff reslen,
      m'.server = { m.server with resbuff := resbuff, reslen := reslen } := by
  simp only [mainStep] at h
  split at h
  · cases h
  · cases h
    exact ⟨rfl, _, _, rfl⟩
  · split_ifs at h
    · cases h
      exact ⟨rfl, _, _, rfl⟩
    · cases h
      exact ⟨rfl, _, _, rfl⟩
  · cases h
    exact ⟨rfl, _, _, rfl⟩

lemma StepRule.inv (h : StepRule m m') (hinv : Inv m.server) :
    Inv m'.server ∧ m'.bad = m.bad := by
  cases h with
  | callback s' hie h => exact ⟨h.inv, rfl⟩
  | setres buff len h => exact ⟨hinv, rfl⟩
  | main m' h =>
    obtain ⟨hbad, resbuff, reslen, hserver⟩ := mainStep_server h
    rw [hserver]
    exact ⟨hinv.memory m.server.reqbuff resbuff m.server.reqlen reslen, hbad⟩

/-- Whatever lwIP does with a connection, its memory is freed once, and no function is called with
memory that has been freed. What `httpsvr_recv` reads of a pbuf behind `pbuf_free` is the subject of
`Scan`. -/
theorem memory_released (lw : Lwip) (reqbuff resbuff : ℕ → Byte) (es : List Event) :
    Always (step lw) Sound (init reqbuff resbuff) es := by
  have hstep : ∀ (m : Machine) (e : Event) (m' : Machine),
      Inv m.server ∧ m.bad = false → step lw m e = some m' → Inv m'.server ∧ m'.bad = false := by
    rintro m e m' ⟨hinv, hsafe⟩ hs
    obtain ⟨hinv', hbad⟩ := (StepRule.of_step lw hinv hs).inv hinv
    exact ⟨hinv', hbad.trans hsafe⟩
  have hinit : Inv (init reqbuff resbuff).server :=
    Or.inl ⟨_, _, inv_accepted reqbuff (httpsvrInit resbuff).1 (httpsvrInit resbuff).2⟩
  exact always_of_invariant hstep (fun _ ⟨hinv, hsafe⟩ => hinv.sound hsafe) ⟨hinit, rfl⟩

end BcmMruby.HttpServer
