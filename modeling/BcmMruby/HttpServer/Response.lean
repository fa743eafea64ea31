import BcmMruby.HttpServer.Ownership

/-!
# The response

What `tcp_write` has accepted and what `es->p` still holds make up the page that was attached, and
that page is whole: `httpsvr_setres` writes it with interrupts disabled.
-/

namespace BcmMruby.HttpServer

open Core

variable {m m' : Machine}

/-! ### The page -/

/-- While interrupts are enabled, `resbuff[0 .. reslen)` is the latest page. -/
structure PageInv (m : Machine) : Prop where
  idle : m.ie = true → m.main = .idle
  current : (∀ buff len i, m.main ≠ .copy buff len i) → m.pages.head? = some m.server.page
  copied : ∀ buff len i, m.main = .copy buff len i →
    i ≤ len.toNat ∧ load m.server.resbuff 0 i = load buff 0 i

/-- One block behind the other, as `httpsvr_init` lays them out. -/
lemma load_store_store (m : ℕ → Byte) (xs ys : List Byte) :
    load (store (store m 0 xs) xs.length ys) 0 (xs.length + ys.length) = xs ++ ys := by
  have happend := load_store_append (store m 0 xs) 0 xs.length ys
  rw [load_store_self, Nat.zero_add] at happend
  exact happend

lemma page_of_httpsvrInit (reqbuff : ℕ → Byte) {resbuff m : ℕ → Byte} {len : ℕ}
    (h : httpsvrInit resbuff = (m, len)) : (init reqbuff resbuff).server.page = load m 0 len := by
  have haccepted : ∀ m len, (accepted reqbuff m len).page = load m 0 len := fun _ _ => rfl
  rw [init, haccepted, h]

lemma page_init (reqbuff resbuff : ℕ → Byte) :
    (init reqbuff resbuff).server.page = httpHtmlHdr ++ httpIndexHtml := by
  have hlen : ∀ a b : ℕ, (a + 1) + (b + 1) - 2 = a + b := by omega
  have hinit : httpsvrInit resbuff =
      (store (store resbuff 0 httpHtmlHdr) httpHtmlHdr.length httpIndexHtml,
        httpHtmlHdr.length + httpIndexHtml.length) := by
    rw [httpsvrInit, hlen]
  exact (page_of_httpsvrInit reqbuff hinit).trans (load_store_store resbuff _ _)

lemma pageInv_init (reqbuff resbuff : ℕ → Byte) : PageInv (init reqbuff resbuff) := by
  refine ⟨fun _ => rfl, fun _ => ?_, ?_⟩
  · rw [page_init]
    rfl
  · intro buff len i h
    cases h

lemma Effect.page {s s' : Server} (h : Effect s s') : s'.page = s.page := by
  rw [Server.page, Server.page, h.resbuff, h.reslen]

/-- `httpsvr_setres` works with interrupts disabled. -/
lemma PageInv.disabled (h : PageInv m) (hbusy : m.main ≠ .idle) : m.ie = false := by
  cases hie : m.ie with
  | false => rfl
  | true => exact absurd (h.idle hie) hbusy

/-- One step of `httpsvr_setres`. -/
lemma PageInv.mainStep (h : PageInv m) (hs : HttpServer.mainStep m = some m') :
    PageInv m' ∧ ∀ r ∈ m.pages, r ∈ m'.pages := by
  simp only [HttpServer.mainStep] at hs
  split at hs
  · cases hs
  · next buff len hmain =>
    have hie : m.ie = false := h.disabled (by simp [hmain])
    cases hs
    refine ⟨⟨fun hon => ?_, ?_, ?_⟩, fun _ hr => hr⟩
    · rw [hie] at hon
      cases hon
    · intro _
      exact h.current fun _ _ _ hcopy => by rw [hmain] at hcopy; cases hcopy
    · intro buff' len' i hcopy
      split_ifs at hcopy
      cases hcopy
      exact ⟨Nat.zero_le _, rfl⟩
  · next buff len i hmain =>
    have hie : m.ie = false := h.disabled (by simp [hmain])
    obtain ⟨hle, hload⟩ := h.copied buff len i hmain
    split_ifs at hs with hlt
    · cases hs
      refine ⟨⟨fun hon => ?_, ?_, ?_⟩, fun _ hr => hr⟩
      · rw [hie] at hon
        cases hon
      · intro hno
        exact absurd rfl (hno buff len (i + 1))
      · intro buff' len' i' hcopy
        cases hcopy
        refine ⟨hlt, ?_⟩
        have happend := load_store_append m.server.resbuff 0 i [buff i]
        rw [Nat.zero_add, List.length_singleton] at happend
        calc load (store m.server.resbuff i [buff i]) 0 (i + 1)
            = load buff 0 i ++ [buff i] := by rw [happend, hload]
          _ = load buff 0 i ++ load buff (0 + i) 1 := by rw [Nat.zero_add]; rfl
          _ = load buff 0 (i + 1) := (load_add buff 0 i 1).symm
    · cases hs
      refine ⟨⟨fun hon => ?_, ?_, ?_⟩, fun _ hr => List.mem_cons_of_mem _ hr⟩
      · rw [hie] at hon
        cases hon
      · intro _
        have hi : i = len.toNat := by omega
        show some (load buff 0 len.toNat) = some (load m.server.resbuff 0 len.toNat)
        rw [← hi, hload]
      · intro buff' len' i' hcopy
        cases hcopy
  · next hmain =>
    cases hs
    refine ⟨⟨fun _ => rfl, ?_, ?_⟩, fun _ hr => hr⟩
    · intro _
      exact h.current fun _ _ _ hcopy => by rw [hmain] at hcopy; cases hcopy
    · intro buff len i hcopy
      cases hcopy

/-! ### Runs -/

/-- The bytes still held in the chain `es->p`. -/
def pending (s : Server) : List Byte := (s.pbufs.chainAt (s.es.bind (·.p))).flatten

/-- No byte of the response is lost, repeated or out of order; the response is one of the pages,
and `httpsvr_close` has been called only after all of it. -/
structure Delivered (m : Machine) : Prop where
  bytes : m.server.pcb.state = .opened → ∀ r ∈ m.server.responses,
    m.server.written ++ pending m.server = r
  whole : ∀ r ∈ m.server.responses, r ∈ m.pages
  closed : m.server.pcb.state = .closed → ∀ r ∈ m.server.responses, m.server.written = r

structure RunInv (m : Machine) : Prop where
  inv : Inv m.server
  page : PageInv m
  whole : ∀ r ∈ m.server.responses, r ∈ m.pages

lemma RunInv.delivered (h : RunInv m) : Delivered m := by
  rcases h.inv with ⟨es, ids, hl⟩ | he
  · refine ⟨?_, h.whole, ?_⟩
    · intro _ r hr
      rcases hl.ledger with ⟨hnone, -⟩ | ⟨-, r', hr', hbytes⟩
      · rw [hnone] at hr
        cases hr
      · rw [hr', List.mem_singleton] at hr
        rw [pending, hl.record, Option.bind_some, hl.owns.chain.chainAt_eq, hr, hbytes]
    · intro hclosed
      rw [hl.pcb] at hclosed
      cases hclosed
  · refine ⟨?_, h.whole, he.written⟩
    intro hopen
    rcases he.pcb with hclosed | hgone
    · rw [hclosed] at hopen
      cases hopen
    · rw [hgone] at hopen
      cases hopen

lemma RunInv.step {lw : Lwip} (h : RunInv m) {e : Event} (hs : HttpServer.step lw m e = some m') :
    RunInv m' := by
  have hrule := StepRule.of_step lw h.inv hs
  have hinv := (hrule.inv h.inv).1
  cases hrule with
  | callback s' hie heffect =>
    refine ⟨hinv, ⟨h.page.idle, fun hno => ?_, fun buff len i hcopy => ?_⟩, ?_⟩
    · rw [show m.pages.head? = _ from h.page.current hno, heffect.page]
    · show _ ∧ load s'.resbuff 0 i = _
      rw [heffect.resbuff]
      exact h.page.copied buff len i hcopy
    · intro r hr
      rcases heffect.responses with hsame | hnew
      · exact h.whole r (hsame ▸ hr)
      · -- the page is attached while interrupts are enabled
        have hidle := h.page.idle hie
        have hhead := h.page.current fun _ _ _ hcopy => by rw [hidle] at hcopy; cases hcopy
        have hr' : r = m.server.page := by
          rw [show s'.responses = _ from hnew] at hr
          exact List.mem_singleton.mp hr
        rw [hr']
        exact List.mem_of_head? hhead
  | setres buff len hidle =>
    refine ⟨hinv, ⟨fun hon => (by cases hon), fun _ => ?_, fun _ _ _ hcopy => by cases hcopy⟩,
      h.whole⟩
    exact h.page.current fun _ _ _ hcopy => by rw [hidle] at hcopy; cases hcopy
  | main m' hmain =>
    obtain ⟨hpage, hpages⟩ := h.page.mainStep hmain
    refine ⟨hinv, hpage, ?_⟩
    intro r hr
    obtain ⟨-, resbuff, reslen, hserver⟩ := mainStep_server hmain
    rw [hserver] at hr
    exact hpages r (h.whole r hr)

/-- A response goes out as it was attached, whatever the interrupts, the sizes of its pbufs and the
answers of `tcp_write`. -/
theorem response_delivered (lw : Lwip) (reqbuff resbuff : ℕ → Byte) (es : List Event) :
    Always (step lw) Delivered (init reqbuff resbuff) es := by
  have hinit : RunInv (init reqbuff resbuff) := by
    refine ⟨Or.inl ⟨_, _, inv_accepted reqbuff (httpsvrInit resbuff).1 (httpsvrInit resbuff).2⟩,
      pageInv_init reqbuff resbuff, ?_⟩
    intro r hr
    cases hr
  exact always_of_invariant (fun _ _ _ h hs => h.step hs) (fun _ h => h.delivered) hinit

end BcmMruby.HttpServer
