import Mathlib.Data.List.GetD
import BcmMruby.HttpServer.Ownership

/-!
# The request

`httpsvr_recv` looks for the end of a request in the first segment of a connection and in nothing
else: the first segment makes the state `ES_CLOSING`, in which further segments are thrown away. The
test is on the last four bytes of the segment if it has four and fits in `reqbuff`, and otherwise on
memory that the segment has not written.
-/

namespace BcmMruby.HttpServer

open Core

/-! ### Requests and segments -/

/-- The last line is empty: `\n\n` or `\r\n\r\n`. -/
def EndsEmpty (r : List Byte) : Prop := [10, 10] <:+ r ∨ [13, 10, 13, 10] <:+ r

instance : DecidablePred EndsEmpty := fun _ => inferInstanceAs (Decidable (_ ∨ _))

/-- The first empty line is at the end. -/
def Complete (r : List Byte) : Prop := EndsEmpty r ∧ ∀ s ∈ r.inits, s ≠ r → ¬EndsEmpty s

instance : DecidablePred Complete := fun _ => inferInstanceAs (Decidable (_ ∧ _))

/-- There is no empty line yet. -/
def Incomplete (r : List Byte) : Prop := ∀ s ∈ r.inits, ¬EndsEmpty s

/-- The payloads of the chain that lwIP delivers, and what is outside the server then. -/
structure Segment where
  data : List (List Byte)
  nonempty : data.flatten ≠ []
  env : Env

def Segment.bytes (d : Segment) : List Byte := d.data.flatten

def request (ds : List Segment) : List Byte := (ds.map Segment.bytes).flatten

def deliver (ds : List Segment) : List Event := ds.map fun d => .recv d.data d.env

/-- A connection that has just been accepted. -/
def connected (reqbuff resbuff : ℕ → Byte) (reslen : ℕ) : Machine :=
  ⟨accepted reqbuff resbuff reslen, .idle, true, [load resbuff 0 reslen], false⟩

/-- A request is answered once, with the page, and nothing else is. -/
def Answers (page r : List Byte) (responses : List (List Byte)) : Prop :=
  (Complete r → responses = [page]) ∧ (Incomplete r → responses = [])

/-- What the test for the end of a request finds in `reqbuff`, to which the first 1024 bytes of the
segment have been copied, and in the memory around it. -/
def findsEnd (reqbuff : ℕ → Byte) (d : Segment) : Bool :=
  endOfRequest (indexed (store reqbuff 0 (d.bytes.take reqbuffSize)) d.env.around) d.bytes.length

/-- If the test reads the first segment alone: a request is in the first segment, and there is a
pbuf for the response. Otherwise there is an empty line where the test looks, and a pbuf, for a
request, and not both for bytes without an empty line. -/
def FirstDecides (reqbuff : ℕ → Byte) (first : Segment) (rest : List Segment) : Prop :=
  if 4 ≤ first.bytes.length ∧ first.bytes.length ≤ reqbuffSize then
    Complete (request (first :: rest)) → rest = [] ∧ first.env.alloc.isSome
  else
    (Complete (request (first :: rest)) →
        findsEnd reqbuff first = true ∧ first.env.alloc.isSome) ∧
      (Incomplete (request (first :: rest)) →
        findsEnd reqbuff first = false ∨ first.env.alloc = none)

/-! ### The test -/

lemma suffix_append_iff {xs ys zs : List Byte} (h : xs.length = zs.length) :
    xs <:+ ys ++ zs ↔ xs = zs := by
  constructor
  · intro hx
    exact (List.suffix_of_suffix_length_le hx (List.suffix_append ys zs) h.le).eq_of_length h
  · rintro rfl
    exact List.suffix_append ys xs

/-- A cell of `reqbuff` that the segment has written. -/
lemma indexed_store (reqbuff : ℕ → Byte) (around : ℤ → Byte) {seg : List Byte}
    (hlong : seg.length ≤ reqbuffSize) {i : ℕ} (hi : i < seg.length) :
    indexed (store reqbuff 0 seg) around i = seg.getD i 0 := by
  have hrange : (0 : ℤ) ≤ i ∧ (i : ℤ) < reqbuffSize := by omega
  rw [indexed, if_pos hrange, Int.toNat_natCast]
  simp [store, List.getElem?_eq_getElem hi]

/-- On a segment of four bytes or more that fits in `reqbuff` the test is right. -/
lemma endOfRequest_iff (reqbuff : ℕ → Byte) (around : ℤ → Byte) {seg : List Byte}
    (hshort : 4 ≤ seg.length) (hlong : seg.length ≤ reqbuffSize) :
    endOfRequest (indexed (store reqbuff 0 seg) around) seg.length = true ↔ EndsEmpty seg := by
  obtain ⟨pre, last, rfl, hlast⟩ : ∃ pre last, seg = pre ++ last ∧ last.length = 4 :=
    ⟨_, _, (List.take_append_drop (seg.length - 4) seg).symm, by rw [List.length_drop]; omega⟩
  obtain ⟨a, b, c, d, rfl⟩ : ∃ a b c d, last = [a, b, c, d] := by
    match last, hlast with
    | [a, b, c, d], _ => exact ⟨a, b, c, d, rfl⟩
  have hlen : (pre ++ [a, b, c, d]).length = pre.length + 4 := by simp
  have hindex : ∀ k < 4, indexed (store reqbuff 0 (pre ++ [a, b, c, d])) around
      (((pre.length + k : ℕ) : ℤ)) = [a, b, c, d].getD k 0 := by
    intro k hk
    rw [indexed_store reqbuff around hlong (by omega), List.getD_append_right _ _ _ _ (by omega),
      Nat.add_sub_cancel_left]
  have h₄ : ((pre ++ [a, b, c, d]).length : ℤ) - 4 = ((pre.length + 0 : ℕ) : ℤ) := by omega
  have h₃ : ((pre ++ [a, b, c, d]).length : ℤ) - 3 = ((pre.length + 1 : ℕ) : ℤ) := by omega
  have h₂ : ((pre ++ [a, b, c, d]).length : ℤ) - 2 = ((pre.length + 2 : ℕ) : ℤ) := by omega
  have h₁ : ((pre ++ [a, b, c, d]).length : ℤ) - 1 = ((pre.length + 3 : ℕ) : ℤ) := by omega
  have hshortEnd : [10, 10] <:+ pre ++ [a, b, c, d] ↔ [c, d] = [10, 10] := by
    rw [List.append_cons, List.append_cons _ b, suffix_append_iff (by rfl)]
    exact eq_comm
  have hlongEnd : [13, 10, 13, 10] <:+ pre ++ [a, b, c, d] ↔ [a, b, c, d] = [13, 10, 13, 10] := by
    rw [suffix_append_iff (by rfl)]
    exact eq_comm
  rw [endOfRequest, h₁, h₂, h₃, h₄, hindex 0 (by decide), hindex 1 (by decide),
    hindex 2 (by decide), hindex 3 (by decide), EndsEmpty, hshortEnd, hlongEnd]
  simp only [List.getD_cons_zero, List.getD_cons_succ, Bool.or_eq_true, Bool.and_eq_true,
    decide_eq_true_eq, List.cons.injEq, and_true, and_assoc]

/-! ### Runs -/

lemma Segment.data_ne_nil (d : Segment) : d.data ≠ [] := by
  intro hnil
  exact d.nonempty (by rw [hnil, List.flatten_nil])

variable (lw : Lwip)

lemma step_recv {m : Machine} {es : HttpsvrState} {ids : List ℕ} (hie : m.ie = true)
    (hl : Live m.server es ids) {data : List (List Byte)} {env : Env} {s' : Server}
    (hrecv : httpsvrRecv lw true (m.server.pbufs.allocChain data).1 .ok env
      { m.server with pbufs := (m.server.pbufs.allocChain data).2 } = some (s', .ok)) :
    step lw m (.recv data env) = some { m with server := s' } := by
  have halive : m.server.pcb.state.alive = true := by simp [hl.pcb, PcbState.alive]
  have harg : m.server.pcb.arg = true := by simp [hl.pcb]
  have hon : m.server.pcb.recv = true := by simp [hl.pcb]
  show (if m.ie ∧ m.server.pcb.state.alive ∧ m.server.pcb.recv then _ else none) = _
  rw [if_pos ⟨hie, halive, hon⟩, harg]
  exact congrArg (fun r => some (m.after (r.map Prod.fst))) hrecv

/-- Segments after the first one change nothing. -/
lemma deliver_closing {m : Machine} {es : HttpsvrState} {ids : List ℕ} (hie : m.ie = true)
    (hl : Live m.server es ids) (hstate : es.state = .esClosing) (ds : List Segment) :
    ∃ m', run (step lw) m (deliver ds) = some m' ∧ m'.server.responses = m.server.responses := by
  induction ds generalizing m with
  | nil => exact ⟨m, rfl, rfl⟩
  | cons d ds ih =>
    obtain ⟨s', hrecv, hlive, hsame, -⟩ := httpsvrRecv_closing_spec lw d.env d.data_ne_nil hl hstate
    obtain ⟨m', hrun, hresponses⟩ := ih (m := { m with server := s' }) hie hlive
    refine ⟨m', ?_, hresponses.trans hsame.responses⟩
    rw [deliver, List.map_cons, run_cons, step_recv lw hie hl hrecv, Option.bind_some]
    exact hrun

/-- What the first segment leads to is all that is attached. -/
lemma deliver_connected (reqbuff resbuff : ℕ → Byte) (reslen : ℕ) (first : Segment)
    (rest : List Segment) :
    ∃ m, run (step lw) (connected reqbuff resbuff reslen) (deliver (first :: rest)) = some m ∧
      m.server.responses =
        if answered reqbuff first.env first.bytes then [load resbuff 0 reslen] else [] := by
  have hl := inv_accepted reqbuff resbuff reslen
  obtain ⟨s', es', ids', hrecv, hlive, hclosing, -, -, hresponses⟩ :=
    httpsvrRecv_accepted_spec lw first.env first.data_ne_nil hl rfl
  obtain ⟨m', hrun, hresponses'⟩ :=
    deliver_closing lw (m := { connected reqbuff resbuff reslen with server := s' }) rfl hlive
      hclosing rest
  refine ⟨m', ?_, hresponses'.trans hresponses⟩
  rw [deliver, List.map_cons, run_cons,
    step_recv lw (m := connected reqbuff resbuff reslen) rfl hl hrecv, Option.bind_some]
  exact hrun

/-! ### Segmentation -/

lemma request_cons (d : Segment) (ds : List Segment) : request (d :: ds) = d.bytes ++ request ds :=
  rfl

lemma first_mem_inits (first : Segment) (rest : List Segment) :
    first.bytes ∈ (request (first :: rest)).inits := by
  rw [List.mem_inits, request_cons]
  exact List.prefix_append _ _

/-- A first segment that is not the whole request ends before the empty line. -/
lemma endsEmpty_first_iff {first : Segment} {rest : List Segment}
    (hr : Complete (request (first :: rest))) : EndsEmpty first.bytes ↔ rest = [] := by
  constructor
  · intro hend
    by_contra hne
    obtain ⟨d, ds, rfl⟩ := List.exists_cons_of_ne_nil hne
    refine hr.2 _ (first_mem_inits first (d :: ds)) ?_ hend
    intro heq
    have hnil : request (d :: ds) = [] := List.append_right_eq_self.mp heq.symm
    exact d.nonempty (List.append_eq_nil_iff.mp hnil).1
  · rintro rfl
    have hwhole : request [first] = first.bytes := List.append_nil _
    rw [← hwhole]
    exact hr.1

lemma answered_eq_true_iff (reqbuff : ℕ → Byte) (d : Segment) :
    answered reqbuff d.env d.bytes = true ↔
      findsEnd reqbuff d = true ∧ d.env.alloc.isSome = true := by
  rw [answered, Bool.and_eq_true]
  rfl

lemma answered_eq_false_iff (reqbuff : ℕ → Byte) (d : Segment) :
    answered reqbuff d.env d.bytes = false ↔
      findsEnd reqbuff d = false ∨ d.env.alloc = none := by
  rw [answered, Bool.and_eq_false_iff, Option.isSome_eq_false_iff, Option.isNone_iff_eq_none]
  rfl

lemma findsEnd_iff (reqbuff : ℕ → Byte) {d : Segment} (hshort : 4 ≤ d.bytes.length)
    (hlong : d.bytes.length ≤ reqbuffSize) : findsEnd reqbuff d = true ↔ EndsEmpty d.bytes := by
  rw [findsEnd, List.take_of_length_le hlong]
  exact endOfRequest_iff reqbuff _ hshort hlong

lemma answers_iff_firstDecides (page : List Byte) (reqbuff : ℕ → Byte) (first : Segment)
    (rest : List Segment) :
    Answers page (request (first :: rest))
        (if answered reqbuff first.env first.bytes then [page] else []) ↔
      FirstDecides reqbuff first rest := by
  have hgeneral : Answers page (request (first :: rest))
        (if answered reqbuff first.env first.bytes then [page] else []) ↔
      (Complete (request (first :: rest)) → answered reqbuff first.env first.bytes = true) ∧
        (Incomplete (request (first :: rest)) →
          answered reqbuff first.env first.bytes = false) := by
    rw [Answers]
    cases answered reqbuff first.env first.bytes <;> simp
  rw [hgeneral, answered_eq_true_iff, answered_eq_false_iff, FirstDecides]
  by_cases hlen : 4 ≤ first.bytes.length ∧ first.bytes.length ≤ reqbuffSize
  swap
  · rw [if_neg hlen]
  have hfinds := findsEnd_iff reqbuff hlen.1 hlen.2
  rw [if_pos hlen, hfinds]
  constructor
  · rintro ⟨hcomplete, -⟩ hr
    rw [endsEmpty_first_iff hr] at hcomplete
    exact hcomplete hr
  · intro h
    refine ⟨fun hr => ⟨(endsEmpty_first_iff hr).mpr (h hr).1, (h hr).2⟩, fun hr => Or.inl ?_⟩
    rw [Bool.eq_false_iff]
    exact fun hyes => hr _ (first_mem_inits first rest) (hfinds.mp hyes)

/-- A request cut into segments is answered if the first segment decides, and only then. -/
theorem request_answered_iff (lw : Lwip) (reqbuff resbuff : ℕ → Byte) (reslen : ℕ)
    (first : Segment) (rest : List Segment) :
    ∃ m, run (step lw) (connected reqbuff resbuff reslen) (deliver (first :: rest)) = some m ∧
      (Answers (load resbuff 0 reslen) (request (first :: rest)) m.server.responses ↔
        FirstDecides reqbuff first rest) := by
  obtain ⟨m, hrun, hresponses⟩ := deliver_connected lw reqbuff resbuff reslen first rest
  refine ⟨m, hrun, ?_⟩
  rw [hresponses]
  exact answers_iff_firstDecides _ reqbuff first rest

/-- `GET ` and an empty line, in two segments: the request is not answered. -/
theorem request_in_two_segments :
    ∃ first second : Segment, first.bytes = [71, 69, 84, 32] ∧ second.bytes = [10, 10] ∧
      Complete (request [first, second]) ∧
      ∃ m, run (step documented) (connected (fun _ => 0) (fun _ => 0) 1)
          (deliver [first, second]) = some m ∧
        ¬Answers [0] (request [first, second]) m.server.responses := by
  let env : Env := ⟨fun _ => 0, some [], []⟩
  let first : Segment := ⟨[[71, 69, 84, 32]], by decide, env⟩
  let second : Segment := ⟨[[10, 10]], by decide, env⟩
  have hcomplete : Complete (request [first, second]) := by decide
  refine ⟨first, second, rfl, rfl, hcomplete, ?_⟩
  obtain ⟨m, hrun, hresponses⟩ :=
    deliver_connected documented (fun _ => 0) (fun _ => 0) 1 first [second]
  refine ⟨m, hrun, fun h => ?_⟩
  have hsilent : m.server.responses = [] := by
    rw [hresponses, if_neg (by decide)]
  exact absurd ((h.1 hcomplete).symm.trans hsilent) (by simp)

end BcmMruby.HttpServer
