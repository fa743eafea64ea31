import Mathlib.Data.List.ReduceOption
import BcmMruby.Core.Ring
import BcmMruby.Core.Run

/-!
# The receive queue

`net_rcv` takes a received frame into a pbuf and queues it in `inque`; `doque` hands what is
queued to `netif.input`. Neither looks at the result of `pbuf_alloc` or at whether there is room.
-/

namespace BcmMruby.Ether

open Core

/-- `INQEULEN`. -/
abbrev inqeulen : ℕ := 32

/-- A frame as `net_rcv` gets it: a buffer whose first 32 bytes are the receive header, and the
length of the frame behind it. -/
structure Frame where
  data : List UInt8
  len : ℕ
  len_le : 32 + len ≤ data.length
  len_lt : len < 2 ^ 16

/-- The bytes of the frame. -/
def Frame.bytes (frame : Frame) : List UInt8 := (frame.data.drop 32).take frame.len

/-- A pbuf, known by the number of its allocation. -/
structure Pbuf where
  num : ℕ
  payload : List UInt8
  deriving DecidableEq

/-- `pbuf_alloc` gives a pbuf of the length asked for, or `NULL`. -/
def pbufAlloc (ok : Bool) (num len : ℕ) : Option Pbuf :=
  if ok then some ⟨num, List.replicate len 0⟩ else none

/-- `pbuf_take` copies to the front of a pbuf; with `NULL` it does nothing. -/
def pbufTake (p : Option Pbuf) (data : List UInt8) : Option Pbuf :=
  p.map fun p => { p with payload := data.take p.payload.length ++ p.payload.drop data.length }

structure State where
  inque : Ring inqeulen (Option Pbuf)
  /-- The arguments of `netif.input`, in the order of the calls. -/
  passed : List (Option Pbuf)
  /-- The arguments of `pbuf_free`. -/
  freed : List (Option Pbuf)
  /-- What has been queued since the last `doque`. -/
  arrived : List (Option Pbuf)
  /-- The pbufs allocated so far, as they should be passed on. -/
  allocated : List Pbuf

/-- The state `ethernetif_init` leaves. -/
def init : State := ⟨⟨fun _ => none, 0, 0⟩, [], [], [], []⟩

def eninque (s : State) (p : Option Pbuf) : State :=
  { s with inque := s.inque.put p, arrived := s.arrived ++ [p] }

/-- `ok` says whether `pbuf_alloc` succeeds. -/
def netRcv (s : State) (frame : Frame) (ok : Bool) : State :=
  let num := s.allocated.length
  let p := pbufTake (pbufAlloc ok num frame.len) ((frame.data.drop 32).take frame.len)
  let s := { s with allocated := if ok then s.allocated ++ [⟨num, frame.bytes⟩] else s.allocated }
  eninque s p

/-- One turn of the loop of `doque`; `accept` says when `netif.input` returns `ERR_OK`. -/
def doqueTurn (accept : Option Pbuf → Bool) (s : State) : State :=
  { s with
    passed := s.passed ++ [s.inque.head]
    freed := if accept s.inque.head then s.freed else s.freed ++ [s.inque.head]
    inque := s.inque.drop }

def doque (accept : Option Pbuf → Bool) (s : State) : State :=
  if _h : s.inque.remove = s.inque.add then { s with arrived := [] }
  else doque accept (doqueTurn accept s)
termination_by s.inque.count
decreasing_by
  have := Ring.count_drop _h
  simp only [doqueTurn]
  omega

inductive Event where
  | netRcv (frame : Frame) (ok : Bool)
  | doque (accept : Option Pbuf → Bool)

def step (s : State) : Event → Option State
  | .netRcv frame ok => some (netRcv s frame ok)
  | .doque accept => some (doque accept s)

/-- After `doque` the calls of `netif.input` have been for the pbufs allocated, each once and in
the order of the frames. -/
def Delivers (s : State) : Event → Prop
  | .doque accept => (doque accept s).passed = (doque accept s).allocated.map some
  | .netRcv _ _ => True

/-- Of the `m` frames since the last `doque` the first `m - m % 32` have got no pbuf, and each of
the others has got one. -/
def Fits (s : State) : Event → Prop
  | .doque _ =>
    let lost := s.arrived.length - s.arrived.length % inqeulen
    (∀ p ∈ s.arrived.take lost, p = none) ∧ ∀ p ∈ s.arrived.drop lost, p ≠ none
  | .netRcv _ _ => True

/-! ### What the functions do -/

lemma pbufTake_pbufAlloc (frame : Frame) (num : ℕ) :
    pbufTake (pbufAlloc true num frame.len) frame.bytes = some ⟨num, frame.bytes⟩ := by
  have hlen : frame.bytes.length = frame.len := by
    have := frame.len_le
    simp only [Frame.bytes, List.length_take, List.length_drop]
    omega
  simp [pbufTake, pbufAlloc, hlen]

/-- The pbuf `net_rcv` queues, if any, carries the bytes of the frame. -/
lemma netRcv_eq (s : State) (frame : Frame) (ok : Bool) :
    netRcv s frame ok = { s with
      inque := s.inque.put (if ok then some ⟨s.allocated.length, frame.bytes⟩ else none)
      arrived := s.arrived ++ [if ok then some ⟨s.allocated.length, frame.bytes⟩ else none]
      allocated := s.allocated ++ (if ok then [⟨s.allocated.length, frame.bytes⟩] else []) } := by
  cases ok with
  | true =>
    have hp := pbufTake_pbufAlloc frame s.allocated.length
    rw [Frame.bytes] at hp
    simp [netRcv, eninque, hp, Frame.bytes]
  | false => simp [netRcv, eninque, pbufTake, pbufAlloc]

/-- `doque` passes on what the ring shows, in its order, and leaves it empty. -/
lemma doque_spec (accept : Option Pbuf → Bool) (s : State) :
    (doque accept s).passed = s.passed ++ s.inque.toList ∧
      (doque accept s).inque.remove = (doque accept s).inque.add ∧
      (doque accept s).allocated = s.allocated ∧ (doque accept s).arrived = [] := by
  induction s using doque.induct accept with
  | case1 s h =>
    rw [doque, dif_pos h, Ring.toList_eq_nil_iff.mpr h]
    simp [h]
  | case2 s h ih =>
    rw [doque, dif_neg h, Ring.toList_eq_head_cons h]
    simpa [doqueTurn] using ih

/-! ### Bursts -/

lemma map_some_reduceOption {α : Type*} {xs : List (Option α)} (h : ∀ x ∈ xs, x ≠ none) :
    xs.reduceOption.map some = xs := by
  induction xs with
  | nil => rfl
  | cons x xs ih =>
    obtain ⟨hx, hxs⟩ := List.forall_mem_cons.mp h
    obtain ⟨a, rfl⟩ := Option.ne_none_iff_exists'.mp hx
    rw [List.reduceOption_cons_of_some, List.map_cons, ih hxs]

lemma reduceOption_eq_nil_iff {α : Type*} {xs : List (Option α)} :
    xs.reduceOption = [] ↔ ∀ x ∈ xs, x = none := by
  rw [List.reduceOption_eq_nil_iff]
  constructor
  · rintro ⟨n, rfl⟩ x hx
    exact List.eq_of_mem_replicate hx
  · intro h
    exact ⟨xs.length, List.eq_replicate_iff.mpr ⟨rfl, h⟩⟩

/-- `ys` is all there is in `xs ++ ys` exactly when `xs` has only `none` and `ys` has no `none`. -/
lemma eq_reduceOption_append_iff {α : Type*} {xs ys : List (Option α)} :
    ys = (xs ++ ys).reduceOption.map some ↔ (∀ x ∈ xs, x = none) ∧ ∀ y ∈ ys, y ≠ none := by
  constructor
  · intro h
    have hys : ∀ y ∈ ys, y ≠ none := by
      intro y hy
      rw [h] at hy
      obtain ⟨a, -, rfl⟩ := List.mem_map.mp hy
      simp
    refine ⟨reduceOption_eq_nil_iff.mp ?_, hys⟩
    -- `xs` has to contribute nothing
    have hlen := congrArg List.length h
    rw [List.reduceOption_append, List.map_append, map_some_reduceOption hys] at hlen
    simpa using hlen
  · rintro ⟨hxs, hys⟩
    rw [List.reduceOption_append, reduceOption_eq_nil_iff.mpr hxs, List.nil_append,
      map_some_reduceOption hys]

/-! ### Main result -/

/-- Up to the last `doque` everything has gone well, and the ring holds what has come since as
far as it is still to be seen. -/
structure Inv (s : State) : Prop where
  queue : ∃ r : Ring inqeulen (Option Pbuf), r.remove = r.add ∧ s.inque = r.putAll s.arrived
  delivered : ∃ before, s.passed = before.map some ∧
    s.allocated = before ++ s.arrived.reduceOption

lemma Inv.netRcv {s : State} (h : Inv s) (frame : Frame) (ok : Bool) :
    Inv (netRcv s frame ok) := by
  obtain ⟨⟨r, hr, hinque⟩, before, hpassed, hallocated⟩ := h
  rw [netRcv_eq]
  refine ⟨⟨r, hr, ?_⟩, before, hpassed, ?_⟩
  · simp [Ring.putAll_append, hinque]
  · rw [hallocated, List.append_assoc, List.reduceOption_append]
    cases ok <;> rfl

lemma delivers_iff_fits {s : State} (h : Inv s) (accept : Option Pbuf → Bool) :
    Delivers s (.doque accept) ↔ Fits s (.doque accept) := by
  obtain ⟨⟨r, hr, hinque⟩, before, hpassed, hallocated⟩ := h
  obtain ⟨hpassed', -, hallocated', -⟩ := doque_spec accept s
  rw [Delivers, Fits, hpassed', hallocated', hpassed, hallocated, List.map_append,
    List.append_cancel_left_eq, hinque, Ring.toList_putAll_of_empty hr,
    ← eq_reduceOption_append_iff, List.take_append_drop]

lemma inv_doque {s : State} {accept : Option Pbuf → Bool} (h : Delivers s (.doque accept)) :
    Inv (doque accept s) := by
  obtain ⟨-, hempty, -, harrived⟩ := doque_spec accept s
  refine ⟨⟨_, hempty, by rw [harrived]; rfl⟩, (doque accept s).allocated, h, ?_⟩
  rw [harrived]
  simp

lemma inv_init : Inv init := ⟨⟨init.inque, rfl, rfl⟩, [], rfl, rfl⟩

lemma throughout_delivers_iff_of_inv {s : State} (h : Inv s) (es : List Event) :
    Throughout step Delivers s es ↔ Throughout step Fits s es := by
  refine throughout_congr (P := Inv) (fun s e s' h hs => ?_) h
  cases e with
  | netRcv frame ok =>
    cases hs
    exact ⟨Iff.rfl, fun _ => h.netRcv frame ok⟩
  | doque accept =>
    cases hs
    exact ⟨delivers_iff_fits h accept, inv_doque⟩

/-- Every `doque` of a run delivers if and only if what has come before it fits. -/
theorem throughout_delivers_iff (es : List Event) :
    Throughout step Delivers init es ↔ Throughout step Fits init es :=
  throughout_delivers_iff_of_inv inv_init es

/-- A frame of one byte. -/
def oneByte : Frame := ⟨List.replicate 33 0, 1, by decide, by decide⟩

/-- One frame without a pbuf: `netif.input` gets `NULL`. And 32 frames with one: it gets
nothing. -/
theorem null_and_burst_break_delivery :
    ¬ Throughout step Delivers init [.netRcv oneByte false, .doque fun _ => true] ∧
      ¬ Throughout step Delivers init
        (List.replicate 32 (.netRcv oneByte true) ++ [.doque fun _ => true]) := by
  rw [throughout_delivers_iff_of_inv inv_init, throughout_delivers_iff_of_inv inv_init]
  constructor
  · intro h
    obtain ⟨-, h⟩ := h _ rfl
    obtain ⟨⟨-, hsome⟩, -⟩ := h _ rfl
    exact hsome none (by decide) rfl
  · intro h
    obtain ⟨-, h⟩ := (throughout_append rfl).mp h
    obtain ⟨⟨hnone, -⟩, -⟩ := h _ rfl
    exact absurd (hnone (some ⟨0, oneByte.bytes⟩) (by decide)) (by decide)

end BcmMruby.Ether
