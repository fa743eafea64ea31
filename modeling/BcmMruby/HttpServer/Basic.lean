import BcmMruby.Core.Bytes
import BcmMruby.Core.Chain
import BcmMruby.Core.Run

/-!
# The HTTP server

`httpsvr.c`: one accepted connection with its `httpsvr_state`, the page in `resbuff`, and the main
program, which replaces the page with `httpsvr_setres`. lwIP calls the callbacks from the timer
interrupt, in any order, as long as they are registered. A function is `none` where it uses freed
memory or a null pointer, except that `httpsvr_recv` reads `p->tot_len` after `pbuf_free`, which is
not checked here.
-/

namespace BcmMruby.HttpServer

open Core

/-! ### Pbufs -/

abbrev Pbufs := Heap (List Byte)

/-- The functions of lwIP that take a pbuf. Of what they do, the server relies on what the manual
says about pbufs that have not been freed. -/
structure Lwip where
  pbufRef : Pbufs → ℕ → Pbufs
  pbufFree : Pbufs → ℕ → Pbufs
  pbufCat : Pbufs → ℕ → ℕ → Pbufs
  pbufCopyPartial : Pbufs → ℕ → ℕ → List Byte
  pbufTake : Pbufs → ℕ → List Byte → Pbufs
  /-- Increment the reference count of the pbuf. -/
  ref_eq : ∀ h p, h.cells p ≠ none → pbufRef h p = h.retain p
  /-- Dereference a chain and deallocate the pbufs at its head that are no longer used. -/
  free_eq : ∀ h p h', h.release p = some h' → pbufFree h p = h'
  /-- Copy the first bytes of a chain. -/
  copy_eq : ∀ h p ids len, h.Chain (some p) ids →
    pbufCopyPartial h p len = (h.contents ids).flatten.take len
  /-- Copy data into a chain of the same length; the pbufs keep theirs. -/
  take_eq : ∀ h p ids data, h.Chain (some p) ids →
    (h.contents ids).flatten.length = data.length →
    ∃ as, Heap.Filled h (pbufTake h p data) ids as ∧ as.flatten = data ∧
      as.map List.length = (h.contents ids).map List.length

/-- Write `data` into the pbufs at these addresses, as far as each of them goes. -/
def fill : List ℕ → List Byte → Pbufs → Pbufs
  | [], _, h => h
  | p :: ids, data, h =>
    let len := (h.cells p).elim 0 (·.contents.length)
    fill ids (data.drop len) (h.modify p fun c => { c with contents := data.take len })

lemma filled_fill {ids : List ℕ} {data : List Byte} {h : Pbufs} (hnodup : ids.Nodup)
    (hlive : ∀ q ∈ ids, h.cells q ≠ none) (hlen : (h.contents ids).flatten.length = data.length) :
    ∃ as, Heap.Filled h (fill ids data h) ids as ∧ as.flatten = data ∧
      as.map List.length = (h.contents ids).map List.length := by
  induction ids generalizing data h with
  | nil =>
    refine ⟨[], ⟨rfl, rfl, fun _ _ => rfl, by simp, rfl⟩, ?_, rfl⟩
    have hnil : data.length = 0 := by simpa [Heap.contents] using hlen.symm
    rw [List.length_eq_zero_iff.mp hnil, List.flatten_nil]
  | cons p ids ih =>
    obtain ⟨hnot, hnodup⟩ := List.nodup_cons.mp hnodup
    obtain ⟨c, hc⟩ := Option.ne_none_iff_exists'.mp (hlive p List.mem_cons_self)
    let h₁ := h.modify p fun c' => { c' with contents := data.take c.contents.length }
    have hsame : ∀ q ∈ ids, h₁.cells q = h.cells q := by
      intro q hq
      have hne : q ≠ p := fun e => hnot (e ▸ hq)
      simp [h₁, Heap.modify, hne]
    have hp : h₁.cells p = some { c with contents := data.take c.contents.length } := by
      simp [h₁, Heap.modify, hc]
    rw [Heap.contents_cons hc, List.flatten_cons, List.length_append] at hlen
    have hlive' : ∀ q ∈ ids, h₁.cells q ≠ none := by
      intro q hq
      rw [hsame q hq]
      exact hlive q (List.mem_cons_of_mem _ hq)
    have hdrop : (h₁.contents ids).flatten.length = (data.drop c.contents.length).length := by
      rw [Heap.contents_congr hsame, List.length_drop]
      omega
    obtain ⟨as, hfill, has, hlens⟩ := ih hnodup hlive' hdrop
    have hdef : fill (p :: ids) data h = fill ids (data.drop c.contents.length) h₁ := by
      simp [fill, hc, h₁]
    rw [hdef]
    refine ⟨data.take c.contents.length :: as, ⟨hfill.count, hfill.frees, ?_, ?_, ?_⟩, ?_, ?_⟩
    · intro q hq
      rw [List.mem_cons, not_or] at hq
      rw [hfill.frame q hq.2]
      simp [h₁, Heap.modify, hq.1]
    · intro q hq
      rcases List.mem_cons.mp hq with rfl | hq
      · exact ⟨data.take c.contents.length, by rw [hfill.frame q hnot, hp, hc, Option.map_some]⟩
      · obtain ⟨a, ha⟩ := hfill.kept q hq
        exact ⟨a, by rw [ha, hsame q hq]⟩
    · rw [Heap.contents_cons ((hfill.frame p hnot).trans hp), hfill.contents]
    · rw [List.flatten_cons, has, List.take_append_drop]
    · have htake : (data.take c.contents.length).length = c.contents.length := by
        rw [List.length_take]
        omega
      rw [List.map_cons, htake, hlens, Heap.contents_congr hsame, Heap.contents_cons hc,
        List.map_cons]

/-- Functions that do just what the manual says. -/
def documented : Lwip where
  pbufRef := Heap.retain
  pbufFree h p := (h.release p).getD h
  pbufCat h head tail :=
    match (Heap.walk h.count h (some head)).getLast? with
    | none => h
    | some last => h.modify last fun c => { c with next := some tail }
  pbufCopyPartial h p len := (h.chainAt (some p)).flatten.take len
  pbufTake h p data := fill (Heap.walk h.count h (some p)) data h
  ref_eq _ _ _ := rfl
  free_eq h p h' hrel := by rw [hrel, Option.getD_some]
  copy_eq h p ids len hc := by rw [hc.chainAt_eq]
  take_eq h p ids data hc hlen := by
    rw [Heap.walk_of_chain hc hc.length_le]
    exact filled_fill hc.nodup hc.live hlen

/-- `len` cut into pieces, the last one being what `sizes` leaves over. -/
def cut : List ℕ → ℕ → List ℕ
  | [], len => [len]
  | size :: sizes, len => min size len :: cut sizes (len - min size len)

/-- `pbuf_alloc` gives a chain of any number of pbufs, `len` bytes together, or `NULL`. -/
def pbufAlloc (alloc : Option (List ℕ)) (h : Pbufs) (len : ℕ) : Option ℕ × Pbufs :=
  match alloc with
  | none => (none, h)
  | some sizes => h.allocChain ((cut sizes len).map (List.replicate · 0))

/-- `p->tot_len`. -/
def totLen (h : Pbufs) (p : ℕ) : ℕ := (h.chainAt (some p)).flatten.length

/-! ### Data -/

/-- `sizeof(reqbuff)`. -/
def reqbuffSize : ℕ := 1024

/-- `sizeof(resbuff)`. -/
def resbuffSize : ℕ := 1024 * 32

/-- The bytes of a string literal, without the terminating 0. -/
def literal (s : String) : List Byte := s.toList.map fun c => BitVec.ofNat 8 c.toNat

def httpHtmlHdr : List Byte :=
  literal "HTTP/1.1 200 OK\r\nContent-type: text/html\r\n\r\n"

def httpIndexHtml : List Byte :=
  literal ("<html><head><title>Congrats!</title></head><body><h1>Welcome to our lwIP HTTP " ++
    "server!</h1><p>This is a small test page, served by httpserver raw.</body></html>")

inductive HttpsvrStates where
  | esNone
  | esAccepted
  | esReceived
  | esClosing
  deriving DecidableEq

/-- The field `pcb` is left out: nothing reads it. -/
structure HttpsvrState where
  state : HttpsvrStates
  retries : ℕ
  p : Option ℕ
  deriving DecidableEq

inductive Err where
  | ok
  | mem
  | val
  | abrt
  | other
  deriving DecidableEq

inductive PcbState where
  | opened
  | closed
  | aborted
  /-- lwIP has freed the pcb before it calls `httpsvr_error`. -/
  | gone
  deriving DecidableEq

/-- lwIP still makes callbacks on the pcb. -/
def PcbState.alive : PcbState → Bool
  | .opened | .closed => true
  | .aborted | .gone => false

/-- A pcb: whether its argument is not `NULL`, and which callbacks it has. -/
structure Pcb where
  state : PcbState
  arg : Bool
  sent : Bool
  recv : Bool
  err : Bool
  poll : Bool
  deriving DecidableEq

structure Server where
  pbufs : Pbufs
  reqbuff : ℕ → Byte
  reqlen : ℕ
  resbuff : ℕ → Byte
  reslen : ℕ
  /-- The `httpsvr_state` of the connection, while it is allocated. -/
  es : Option HttpsvrState
  /-- How often it has been freed. -/
  esFrees : ℕ
  pcb : Pcb
  /-- The bytes that `tcp_write` has accepted. -/
  written : List Byte
  /-- The sum of the lengths passed to `tcp_recved`. -/
  recved : ℕ
  /-- `resbuff[0 .. reslen)` each time a response has been attached to the connection. -/
  responses : List (List Byte)

/-- `resbuff[0 .. reslen)`. -/
def Server.page (s : Server) : List Byte := load s.resbuff 0 s.reslen

/-- What a callback gets through `arg`. -/
def Server.deref (s : Server) (arg : Bool) : Option HttpsvrState := if arg then s.es else none

def Server.setP (s : Server) (p : Option ℕ) : Server :=
  { s with es := s.es.map fun es => { es with p := p } }

def Server.setState (s : Server) (state : HttpsvrStates) : Server :=
  { s with es := s.es.map fun es => { es with state := state } }

def Server.pbufRef (lw : Lwip) (s : Server) (p : ℕ) : Option Server :=
  (s.pbufs.cells p).map fun _ => { s with pbufs := lw.pbufRef s.pbufs p }

def Server.pbufFree (lw : Lwip) (s : Server) (p : ℕ) : Option Server :=
  (s.pbufs.cells p).map fun _ => { s with pbufs := lw.pbufFree s.pbufs p }

/-! ### Callbacks -/

def httpsvrFree (lw : Lwip) (arg : Bool) (s : Server) : Option Server :=
  if arg then do
    let es ← s.deref arg
    let s ← match es.p with
      | none => some s
      | some p => s.pbufFree lw p
    some { s with es := none, esFrees := s.esFrees + 1 }
  else some s

def httpsvrClose (lw : Lwip) (arg : Bool) (s : Server) : Option Server := do
  let s := { s with pcb := ⟨s.pcb.state, false, false, false, false, false⟩ }
  let s ← httpsvrFree lw arg s
  some { s with pcb := { s.pcb with state := .closed } }

/-- What lwIP answers in one turn of the loop of `httpsvr_send`. -/
structure Turn where
  sndbuf : ℕ
  wrErr : Err

/-- After the turns listed `tcp_write` finds no memory. -/
def httpsvrSend (lw : Lwip) : List Turn → Server → Option Server
  | [], s => some s
  | t :: ts, s => do
    let es ← s.es
    match es.p with
    | none => some s
    | some ptr =>
      let c ← s.pbufs.cells ptr
      if c.contents.length ≤ t.sndbuf then
        match t.wrErr with
        | .ok =>
          let s := { s with written := s.written ++ c.contents }
          let s := s.setP c.next
          let s ← match c.next with
            | none => some s
            | some p => s.pbufRef lw p
          let s ← s.pbufFree lw ptr
          httpsvrSend lw ts { s with recved := s.recved + c.contents.length }
        | .mem => some (s.setP (some ptr))
        | _ => some s
      else some s

def httpsvrError (lw : Lwip) (arg : Bool) (s : Server) : Option Server := httpsvrFree lw arg s

def httpsvrPoll (lw : Lwip) (arg : Bool) (turns : List Turn) (s : Server) :
    Option (Server × Err) :=
  if arg then do
    let es ← s.deref arg
    let s ←
      if es.p ≠ none then httpsvrSend lw turns s
      else if es.state = .esClosing then httpsvrClose lw arg s
      else some s
    some (s, .ok)
  else some ({ s with pcb := { s.pcb with state := .aborted } }, .abrt)

def httpsvrSent (lw : Lwip) (arg : Bool) (turns : List Turn) (s : Server) :
    Option (Server × Err) := do
  let es ← s.deref arg
  let s := { s with es := some { es with retries := 0 } }
  let s ←
    if es.p ≠ none then httpsvrSend lw turns { s with pcb := { s.pcb with sent := true } }
    else if es.state = .esClosing then httpsvrClose lw arg s
    else some s
  some (s, .ok)

/-- The test for the end of a request, on `reqbuff` and on the memory around it. -/
def endOfRequest (reqbuff : ℤ → Byte) (totLen : ℕ) : Bool :=
  (reqbuff (totLen - 2) = 10 && reqbuff (totLen - 1) = 10) ||
    (reqbuff (totLen - 4) = 13 && reqbuff (totLen - 3) = 10 &&
      reqbuff (totLen - 2) = 13 && reqbuff (totLen - 1) = 10)

/-- `reqbuff[i]` in C: an index outside the array reads the memory around it. -/
def indexed (reqbuff : ℕ → Byte) (around : ℤ → Byte) (i : ℤ) : Byte :=
  if 0 ≤ i ∧ i < reqbuffSize then reqbuff i.toNat else around i

/-- What is outside the server during a call of `httpsvr_recv`: the memory around `reqbuff`, the
result of `pbuf_alloc`, and lwIP's answers to `httpsvr_send`. -/
structure Env where
  around : ℤ → Byte
  alloc : Option (List ℕ)
  turns : List Turn

/-- A pbuf is freed before its `tot_len` is read; the pool leaves the field as it was. -/
def httpsvrRecv (lw : Lwip) (arg : Bool) (p : Option ℕ) (err : Err) (env : Env) (s : Server) :
    Option (Server × Err) :=
  match p with
  | none => do
    let es ← s.deref arg
    let s := s.setState .esClosing
    let s ← if es.p = none then httpsvrClose lw arg s else httpsvrSend lw env.turns s
    some (s, .ok)
  | some p =>
    if err ≠ .ok then do
      let s ← s.pbufFree lw p
      some (s, err)
    else do
      let es ← s.deref arg
      let len := totLen s.pbufs p
      match es.state with
      | .esAccepted =>
        let s := s.setState .esClosing
        let reqlen := if len > reqbuffSize then reqbuffSize else len
        let s := { s with
          reqlen := reqlen
          reqbuff := store s.reqbuff 0 (lw.pbufCopyPartial s.pbufs p reqlen) }
        let s ← s.pbufFree lw p
        if endOfRequest (indexed s.reqbuff env.around) len then
          let (b, pbufs) := pbufAlloc env.alloc s.pbufs s.reslen
          -- `pbuf_take` looks whether it gets `NULL`
          let s := match b with
            | none => { s with pbufs := pbufs }
            | some b => { s with
                pbufs := lw.pbufTake pbufs b s.page
                responses := s.responses ++ [s.page] }
          let s ← httpsvrSend lw env.turns (s.setP b)
          some (s, .ok)
        else some (s, .ok)
      | .esReceived =>
        match es.p with
        | none => do
          let s ← s.pbufFree lw p
          some (s, .ok)
        | some ptr => some ({ s with pbufs := lw.pbufCat s.pbufs ptr p }, .ok)
      | _ => do
        let s ← { s with recved := s.recved + len }.pbufFree lw p
        some (s, .ok)

/-- `alloc` says whether `mem_malloc` succeeds. -/
def httpsvrAccept (err : Err) (alloc : Bool) (s : Server) : Server × Err :=
  if err ≠ .ok then (s, .val)
  else if alloc then
    ({ s with
      es := some ⟨.esAccepted, 0, none⟩
      pcb := ⟨s.pcb.state, true, true, true, true, true⟩ }, .ok)
  else (s, .mem)

/-! ### The page -/

/-- `httpsvr_init`: the page and its length. `sizeof` counts the terminating 0. -/
def httpsvrInit (resbuff : ℕ → Byte) : (ℕ → Byte) × ℕ :=
  (store (store resbuff 0 httpHtmlHdr) httpHtmlHdr.length httpIndexHtml,
    (httpHtmlHdr.length + 1) + (httpIndexHtml.length + 1) - 2)

/-- Where the main program is: elsewhere, or in `httpsvr_setres` between `cli()` and `sti()`. -/
inductive Main where
  | idle
  | test (buff : ℕ → Byte) (len : BitVec 32)
  | copy (buff : ℕ → Byte) (len : BitVec 32) (i : ℕ)
  | sti

structure Machine where
  server : Server
  main : Main
  /-- Interrupts are enabled. -/
  ie : Bool
  /-- The page of `httpsvr_init` and those of the calls of `httpsvr_setres` that have been
  accepted, the latest one first. -/
  pages : List (List Byte)
  /-- A function has come to `none`. -/
  bad : Bool

/-- One step of `httpsvr_setres`. The length is compared as an unsigned number. -/
def mainStep (m : Machine) : Option Machine :=
  match m.main with
  | .idle => none
  | .test buff len =>
    some { m with main := if len.toNat < resbuffSize then .copy buff len 0 else .sti }
  | .copy buff len i =>
    if i < len.toNat then
      some { m with
        server := { m.server with resbuff := store m.server.resbuff i [buff i] }
        main := .copy buff len (i + 1) }
    else
      some { m with
        server := { m.server with reslen := len.toNat }
        main := .sti
        pages := load buff 0 len.toNat :: m.pages }
  | .sti => some { m with main := .idle, ie := true }

inductive Event where
  /-- A segment, as a chain of payloads; no payload is the end of the stream, a null pbuf. -/
  | recv (data : List (List Byte)) (env : Env)
  | sent (turns : List Turn)
  | poll (turns : List Turn)
  | error
  /-- `reqbuff` and `reqlen` after another connection, or `httpsvr_copyreq`. -/
  | others (reqbuff : ℕ → Byte) (reqlen : ℕ)
  | setres (buff : ℕ → Byte) (len : BitVec 32)
  | main

def Machine.after (m : Machine) : Option Server → Machine
  | none => { m with bad := true }
  | some s => { m with server := s }

def step (lw : Lwip) (m : Machine) (e : Event) : Option Machine :=
  let s := m.server
  match e with
  | .recv data env =>
    if m.ie ∧ s.pcb.state.alive ∧ s.pcb.recv then
      let (p, pbufs) := s.pbufs.allocChain data
      some (m.after ((httpsvrRecv lw s.pcb.arg p .ok env { s with pbufs := pbufs }).map (·.1)))
    else none
  | .sent turns =>
    if m.ie ∧ s.pcb.state.alive ∧ s.pcb.sent then
      some (m.after ((httpsvrSent lw s.pcb.arg turns s).map (·.1)))
    else none
  | .poll turns =>
    if m.ie ∧ s.pcb.state.alive ∧ s.pcb.poll then
      some (m.after ((httpsvrPoll lw s.pcb.arg turns s).map (·.1)))
    else none
  | .error =>
    if m.ie ∧ s.pcb.state.alive ∧ s.pcb.err then
      some (m.after (httpsvrError lw s.pcb.arg { s with pcb := { s.pcb with state := .gone } }))
    else none
  | .others reqbuff reqlen =>
    if m.ie then some { m with server := { s with reqbuff := reqbuff, reqlen := reqlen } } else none
  | .setres buff len =>
    match m.main with
    | .idle => some { m with main := .test buff len, ie := false }
    | _ => none
  | .main => mainStep m

/-- A connection that `httpsvr_accept` has just taken. -/
def accepted (reqbuff resbuff : ℕ → Byte) (reslen : ℕ) : Server :=
  (httpsvrAccept .ok true ⟨Heap.empty, reqbuff, 0, resbuff, reslen, none, 0,
    ⟨.opened, false, false, false, false, false⟩, [], 0, []⟩).1

/-- The first connection after `httpsvr_init`, over any memory. -/
def init (reqbuff resbuff : ℕ → Byte) : Machine where
  server := accepted reqbuff (httpsvrInit resbuff).1 (httpsvrInit resbuff).2
  main := .idle
  ie := true
  pages := [httpHtmlHdr ++ httpIndexHtml]
  bad := false

end BcmMruby.HttpServer
