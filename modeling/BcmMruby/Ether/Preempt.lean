import BcmMruby.Ether.Queue

/-!
# Queueing in the main program

When `cfe_output` polls the driver, `net_rcv` and with it `eninque` run in the main program, and
the timer interrupt can run `doque` between any two accesses of `eninque` to memory. The state has
the queue as the code has it, an array and two `int`s, and the pbufs that `doque` is to pass on:
one is queued by the store of `++inqueend`, which makes it visible.
-/

namespace BcmMruby.Ether.Preempt

open Core

/-- The next access of `eninque`, with what it has in registers. -/
inductive Pc where
  | idle
  /-- `inque[inqueend] = p`. -/
  | loadSlot (p : Option Pbuf)
  | storeSlot (p : Option Pbuf) (i : ℕ)
  /-- `++inqueend`. -/
  | loadEnd (p : Option Pbuf)
  | storeEnd (p : Option Pbuf) (i : ℕ)
  /-- `if (inqueend == INQEULEN)`. -/
  | loadTest
  /-- `inqueend = 0`. -/
  | storeWrap
  deriving DecidableEq

@[ext]
structure State where
  /-- What is read with an index, those behind the array included. -/
  inque : ℕ → Option Pbuf
  inquestart : ℕ
  inqueend : ℕ
  pc : Pc
  /-- The arguments of `netif.input`, in the order of the calls. -/
  passed : List (Option Pbuf)
  freed : List (Option Pbuf)
  /-- Queued and not yet passed on. -/
  queued : List (Option Pbuf)
  /-- The loop of `doque` goes on for ever. -/
  hung : Bool

/-- The state `ethernetif_init` leaves. -/
def init : State := ⟨fun _ => none, 0, 0, .idle, [], [], [], false⟩

/-- One turn of the loop of `doque`; `accept` says when `netif.input` returns `ERR_OK`. -/
def doqueTurn (accept : Option Pbuf → Bool) (s : State) : State :=
  let p := s.inque s.inquestart
  let next := s.inquestart + 1
  { s with
    passed := s.passed ++ [p]
    freed := if accept p then s.freed else s.freed ++ [p]
    inquestart := if next = inqeulen then 0 else next
    queued := s.queued.tail }

/-- `doque`, if it ends within so many tests of its loop. -/
def doque (accept : Option Pbuf → Bool) : ℕ → State → Option State
  | 0, _ => none
  | n + 1, s =>
    if s.inquestart = s.inqueend then some s else doque accept n (doqueTurn accept s)

/-- The next access of `eninque`. -/
def mainStep (s : State) : Option State :=
  match s.pc with
  | .idle => none
  | .loadSlot p => some { s with pc := .storeSlot p s.inqueend }
  | .storeSlot p i => some { s with inque := Function.update s.inque i p, pc := .loadEnd p }
  | .loadEnd p => some { s with pc := .storeEnd p s.inqueend }
  | .storeEnd p i =>
    some { s with inqueend := i + 1, queued := s.queued ++ [p], pc := .loadTest }
  | .loadTest => some { s with pc := if s.inqueend = inqeulen then .storeWrap else .idle }
  | .storeWrap => some { s with inqueend := 0, pc := .idle }

inductive Event where
  /-- `net_rcv` calls `eninque`. -/
  | call (p : Option Pbuf)
  | main
  /-- The timer interrupt runs `doque`. -/
  | doque (accept : Option Pbuf → Bool)

def step (s : State) : Event → Option State
  | .call p => if s.pc = .idle ∧ ¬ s.hung then some { s with pc := .loadSlot p } else none
  | .main => if s.hung then none else mainStep s
  | .doque accept =>
    if s.hung then none
    -- the indices come back after as many turns as there are slots
    else some ((doque accept inqeulen s).getD { s with hung := true })

/-- Where `doque` starts, the indices are in range, and it ends after having passed on what is
queued, in its order. -/
def Correct (s : State) : Event → Prop
  | .doque accept =>
    s.inquestart < inqeulen ∧ s.inqueend < inqeulen ∧
      ∃ t, doque accept (s.queued.length + 1) s = some t ∧ t.passed = s.passed ++ s.queued
  | _ => True

/-- One that makes 32 is never queued. -/
def Room (s : State) : Event → Prop
  | .main => ∀ p i, s.pc = .storeEnd p i → s.queued.length + 1 < inqeulen
  | _ => True

/-- `doque` does not start where `eninque` has stored an index that it is about to wrap. -/
def Wrapped (s : State) : Event → Prop
  | .doque _ => s.pc = .loadTest ∨ s.pc = .storeWrap → s.inqueend ≠ inqeulen
  | _ => True

/-! ### A call left alone -/

/-- The accesses of one `eninque`. -/
def eninque (s : State) (p : Option Pbuf) : List Event :=
  .call p :: List.replicate (if s.inqueend + 1 = inqeulen then 6 else 5) .main

/-- The accesses up to the store of `++inqueend`. -/
def window (p : Option Pbuf) : List Event := [.call p, .main, .main, .main, .main]

lemma run_window {s : State} (hidle : s.pc = .idle) (hung : s.hung = false) (p : Option Pbuf) :
    run step s (window p) = some { s with
      inque := Function.update s.inque s.inqueend p
      inqueend := s.inqueend + 1
      queued := s.queued ++ [p]
      pc := .loadTest } := by
  simp [window, step, mainStep, hidle, hung]

lemma run_eninque {s : State} (hidle : s.pc = .idle) (hung : s.hung = false) (p : Option Pbuf) :
    run step s (eninque s p) = some { s with
      inque := Function.update s.inque s.inqueend p
      inqueend := if s.inqueend + 1 = inqeulen then 0 else s.inqueend + 1
      queued := s.queued ++ [p] } := by
  have hwindow := run_window hidle hung p
  by_cases h : s.inqueend + 1 = inqeulen
  · have hsplit : eninque s p = window p ++ [.main, .main] := by
      rw [eninque, if_pos h]
      rfl
    rw [hsplit, run_append, hwindow]
    simp [step, mainStep, hung, h, hidle]
  · have hsplit : eninque s p = window p ++ [.main] := by
      rw [eninque, if_neg h]
      rfl
    rw [hsplit, run_append, hwindow]
    simp [step, mainStep, hung, h, hidle]

/-! ### The ring -/

instance : NeZero inqeulen := ⟨by decide⟩

/-- The array and the indices as a ring; an index that is about to be wrapped counts as 0. -/
def State.ring (s : State) : Ring inqeulen (Option Pbuf) where
  slot i := s.inque i
  remove := Fin.ofNat inqeulen s.inquestart
  add := Fin.ofNat inqeulen s.inqueend

lemma wrapSucc_ofNat {i : ℕ} (h : i < inqeulen) :
    wrapSucc (Fin.ofNat inqeulen i) = Fin.ofNat inqeulen (i + 1) := by
  have hi : i % inqeulen = i := Nat.mod_eq_of_lt h
  apply Fin.ext
  rw [wrapSucc]
  split_ifs with hlast
  · rw [Fin.val_ofNat, hi] at hlast
    simp only [Fin.val_ofNat, hi, Nat.mod_eq_of_lt hlast]
  · rw [Fin.val_ofNat, hi] at hlast
    have hwrap : i + 1 = inqeulen := by omega
    simp only [Fin.val_ofNat, hwrap, Nat.mod_self]

lemma ofNat_eq_iff {i j : ℕ} (hi : i < inqeulen) (hj : j < inqeulen) :
    Fin.ofNat inqeulen i = Fin.ofNat inqeulen j ↔ i = j := by
  rw [Fin.ext_iff, Fin.val_ofNat, Fin.val_ofNat, Nat.mod_eq_of_lt hi, Nat.mod_eq_of_lt hj]

/-- An index that is stored as 0 where it would be 32. -/
lemma ofNat_wrap (i : ℕ) :
    Fin.ofNat inqeulen (if i = inqeulen then 0 else i) = Fin.ofNat inqeulen i := by
  split_ifs with h
  · rw [h]
    rfl
  · rfl

lemma head_ring {s : State} (h : s.inquestart < inqeulen) :
    s.ring.head = s.inque s.inquestart := by
  simp [Ring.head, State.ring, Nat.mod_eq_of_lt h]

lemma ring_doqueTurn {s : State} (h : s.inquestart < inqeulen) (accept : Option Pbuf → Bool) :
    (doqueTurn accept s).ring = s.ring.drop := by
  simp only [doqueTurn, State.ring, Ring.drop, Ring.storeRemove, wrapSucc_ofNat h, ofNat_wrap]

lemma inquestart_doqueTurn_lt {s : State} (h : s.inquestart < inqeulen)
    (accept : Option Pbuf → Bool) : (doqueTurn accept s).inquestart < inqeulen := by
  simp only [doqueTurn]
  split_ifs <;> omega

/-- From indices in range `doque` passes on what the ring shows. -/
lemma doque_spec (accept : Option Pbuf → Bool) {n : ℕ} {s : State}
    (hstart : s.inquestart < inqeulen) (hend : s.inqueend < inqeulen)
    (hqueued : s.ring.toList = s.queued) (hn : s.queued.length < n) :
    doque accept n s = some { s with
      inquestart := s.inqueend
      passed := s.passed ++ s.queued
      freed := s.freed ++ s.queued.filter (!accept ·)
      queued := [] } := by
  induction n generalizing s with
  | zero => exact absurd hn (Nat.not_lt_zero _)
  | succ n ih =>
    have hends : s.ring.remove = s.ring.add ↔ s.inquestart = s.inqueend :=
      ofNat_eq_iff hstart hend
    by_cases h : s.inquestart = s.inqueend
    · have hnil : s.queued = [] := by rw [← hqueued, Ring.toList_eq_nil_iff, hends, h]
      rw [doque, if_pos h]
      exact congrArg some (State.ext rfl h rfl rfl (by simp [hnil]) (by simp [hnil]) hnil rfl)
    · have hcons := Ring.toList_eq_head_cons (mt hends.mp h)
      rw [hqueued, head_ring hstart, ← ring_doqueTurn hstart accept] at hcons
      have htail : (doqueTurn accept s).ring.toList = s.queued.tail := by rw [hcons, List.tail_cons]
      have hlen : s.queued.tail.length < n := by
        rw [hcons] at hn ⊢
        exact Nat.lt_of_succ_lt_succ hn
      have hpassed :
          s.passed ++ [s.inque s.inquestart] ++ s.queued.tail = s.passed ++ s.queued := by
        rw [hcons, List.tail_cons, List.append_assoc, List.singleton_append]
      have hfreed : (doqueTurn accept s).freed ++ s.queued.tail.filter (!accept ·) =
          s.freed ++ s.queued.filter (!accept ·) := by
        rw [hcons, List.tail_cons, List.filter_cons]
        cases hp : accept (s.inque s.inquestart) <;> simp [doqueTurn, hp]
      rw [doque, if_neg h, ih (inquestart_doqueTurn_lt hstart accept) hend htail hlen]
      exact congrArg some (State.ext rfl rfl rfl rfl hpassed hfreed rfl rfl)

/-- From an index that has not been wrapped the loop never ends. -/
lemma doque_eq_none (accept : Option Pbuf → Bool) (n : ℕ) {s : State}
    (hstart : s.inquestart < inqeulen) (hend : s.inqueend = inqeulen) :
    doque accept n s = none := by
  induction n generalizing s with
  | zero => rfl
  | succ n ih =>
    have hne : s.inquestart ≠ s.inqueend := by omega
    rw [doque, if_neg hne]
    exact ih (inquestart_doqueTurn_lt hstart accept) hend

/-- A store to the array, as the ring has it. -/
lemma slot_update (inque : ℕ → Option Pbuf) {i : ℕ} (hi : i < inqeulen) (p : Option Pbuf) :
    (fun j : Fin inqeulen => Function.update inque i p j) =
      Function.update (fun j : Fin inqeulen => inque j) (Fin.ofNat inqeulen i) p := by
  funext j
  have hj : j = Fin.ofNat inqeulen i ↔ j.val = i := by
    rw [Fin.ext_iff, Fin.val_ofNat, Nat.mod_eq_of_lt hi]
  by_cases h : j.val = i
  · rw [hj.mpr h, Function.update_self, Fin.val_ofNat, Nat.mod_eq_of_lt hi, Function.update_self]
  · rw [Function.update_of_ne h, Function.update_of_ne (mt hj.mp h)]

/-- Left alone, `eninque` is the `put` that the queue is modelled with. -/
lemma ring_eninque {s t : State} (hidle : s.pc = .idle) (hung : s.hung = false)
    (hend : s.inqueend < inqeulen) {p : Option Pbuf} (hrun : run step s (eninque s p) = some t) :
    t.ring = s.ring.put p := by
  rw [run_eninque hidle hung] at hrun
  cases hrun
  simp only [State.ring, Ring.put, Ring.storeAdd, Ring.write, slot_update s.inque hend,
    wrapSucc_ofNat hend, ofNat_wrap]

/-! ### Accesses -/

/-- What each access of `eninque` finds. -/
def AtPc (s : State) : Pc → Prop
  | .idle | .loadSlot _ => s.inqueend < inqeulen
  | .storeSlot _ i => i = s.inqueend ∧ s.inqueend < inqeulen
  | .loadEnd p => s.inque s.inqueend = p ∧ s.inqueend < inqeulen
  | .storeEnd p i => i = s.inqueend ∧ s.inque s.inqueend = p ∧ s.inqueend < inqeulen
  | .loadTest => s.inqueend ≤ inqeulen
  | .storeWrap => s.inqueend = inqeulen

/-- An index that is not about to be wrapped is in range. -/
lemma AtPc.lt {s : State} {pc : Pc} (h : AtPc s pc)
    (hwrapped : pc = .loadTest ∨ pc = .storeWrap → s.inqueend ≠ inqeulen) :
    s.inqueend < inqeulen := by
  cases pc with
  | idle => exact h
  | loadSlot p => exact h
  | storeSlot p i => exact h.2
  | loadEnd p => exact h.2
  | storeEnd p i => exact h.2.2
  | loadTest => exact lt_of_le_of_ne h (hwrapped (Or.inl rfl))
  | storeWrap => exact absurd h (hwrapped (Or.inr rfl))

lemma AtPc.congr {s t : State} {pc : Pc} (h : AtPc s pc) (hinque : t.inque = s.inque)
    (hend : t.inqueend = s.inqueend) : AtPc t pc := by
  cases pc <;> simpa only [AtPc, hinque, hend] using h

structure Inv (s : State) : Prop where
  start_lt : s.inquestart < inqeulen
  queued : s.ring.toList = s.queued
  length_lt : s.queued.length < inqeulen
  atPc : AtPc s s.pc

lemma inv_init : Inv init := ⟨by decide, rfl, by decide, (by decide : 0 < inqeulen)⟩

/-- What a load changes, the ring does not show. -/
lemma Inv.setPc {s : State} (h : Inv s) {pc : Pc} (hpc : AtPc s pc) : Inv { s with pc } := by
  exact ⟨h.start_lt, h.queued, h.length_lt, hpc.congr rfl rfl⟩

lemma Inv.storeSlot {s : State} (h : Inv s) (p : Option Pbuf) (hend : s.inqueend < inqeulen) :
    Inv { s with inque := Function.update s.inque s.inqueend p, pc := .loadEnd p } := by
  have hring : State.ring { s with inque := Function.update s.inque s.inqueend p, pc := .loadEnd p }
      = s.ring.write s.ring.add p := by
    simp only [State.ring, Ring.write, Ring.mk.injEq, and_true]
    exact slot_update s.inque hend p
  refine ⟨h.start_lt, ?_, h.length_lt, ?_, hend⟩
  · rw [hring, Ring.toList_write]
    exact h.queued
  · exact Function.update_self _ _ _

lemma Inv.storeEnd {s : State} (h : Inv s) {p : Option Pbuf} (hp : s.inque s.inqueend = p)
    (hend : s.inqueend < inqeulen) (hroom : s.queued.length + 1 < inqeulen) :
    Inv { s with inqueend := s.inqueend + 1, queued := s.queued ++ [p], pc := .loadTest } := by
  have hring : State.ring { s with
      inqueend := s.inqueend + 1
      queued := s.queued ++ [p]
      pc := .loadTest } = s.ring.storeAdd s.ring.add := by
    simp only [State.ring, Ring.storeAdd, wrapSucc_ofNat hend]
  have hnotFull : ¬ s.ring.full := by
    apply Ring.not_full_of_count
    rw [← Ring.length_toList, h.queued]
    exact hroom
  have hslot : s.ring.slot s.ring.add = p := by
    simp [State.ring, Nat.mod_eq_of_lt hend, hp]
  refine ⟨h.start_lt, ?_, by simpa using hroom, Nat.succ_le_of_lt hend⟩
  rw [hring, Ring.toList_storeAdd hnotFull, h.queued, hslot]

lemma Inv.storeWrap {s : State} (h : Inv s) (hend : s.inqueend = inqeulen) :
    Inv { s with inqueend := 0, pc := .idle } := by
  have hring : State.ring { s with inqueend := 0, pc := .idle } = s.ring := by
    simp [State.ring, hend]
  refine ⟨h.start_lt, ?_, h.length_lt, (by decide : 0 < inqeulen)⟩
  rw [hring]
  exact h.queued

lemma Inv.main {s s' : State} (h : Inv s) (hroom : Room s .main) (hs : mainStep s = some s') :
    Inv s' := by
  have hat := h.atPc
  simp only [mainStep] at hs
  cases hpc : s.pc with
  | idle => simp [hpc] at hs
  | loadSlot p =>
    simp only [hpc, Option.some.injEq] at hs hat
    subst hs
    exact h.setPc ⟨rfl, hat⟩
  | storeSlot p i =>
    simp only [hpc, Option.some.injEq] at hs hat
    obtain ⟨rfl, hend⟩ := hat
    subst hs
    exact h.storeSlot p hend
  | loadEnd p =>
    simp only [hpc, Option.some.injEq] at hs hat
    subst hs
    exact h.setPc ⟨rfl, hat⟩
  | storeEnd p i =>
    simp only [hpc, Option.some.injEq] at hs hat
    obtain ⟨rfl, hp, hend⟩ := hat
    subst hs
    exact h.storeEnd hp hend (hroom p _ hpc)
  | loadTest =>
    simp only [hpc, Option.some.injEq] at hs hat
    subst hs
    split_ifs with heq
    · exact h.setPc heq
    · exact h.setPc (lt_of_le_of_ne hat heq)
  | storeWrap =>
    simp only [hpc, Option.some.injEq] at hs hat
    subst hs
    exact h.storeWrap hat

/-! ### Filling the queue -/

/-- So many calls of `eninque` left alone. -/
def fill : ℕ → List Event
  | 0 => []
  | n + 1 => fill n ++ .call none :: List.replicate 5 .main

/-- The state behind them, from a queue that has not been used. -/
def filled (n : ℕ) : State := { init with inqueend := n, queued := List.replicate n none }

lemma run_fill {n : ℕ} (hn : n < inqeulen) :
    run step init (fill n) = some (filled n) ∧ Throughout step Room init (fill n) := by
  induction n with
  | zero => exact ⟨rfl, trivial⟩
  | succ n ih =>
    obtain ⟨hrun, hroom⟩ := ih (Nat.lt_of_succ_lt hn)
    have hnext : (filled n).inqueend + 1 ≠ inqeulen := hn.ne
    have hinque : Function.update init.inque n none = init.inque := Function.update_eq_self n _
    have hcall := run_eninque (s := filled n) rfl rfl none
    rw [eninque, if_neg hnext, if_neg hnext] at hcall
    simp only [filled, hinque, ← List.replicate_succ'] at hcall
    refine ⟨run_trans hrun hcall, (throughout_append hrun).mpr ⟨hroom, ?_⟩⟩
    simp [Throughout, List.replicate, step, mainStep, Room, filled, init, hn]

lemma segment_none (i : Fin inqeulen) (n : ℕ) :
    segment (fun _ => (none : Option Pbuf)) i n = List.replicate n none := by
  induction n generalizing i with
  | zero => rfl
  | succ n ih => rw [segment_succ, ih, List.replicate_succ]

lemma inv_filled {n : ℕ} (hn : n < inqeulen) : Inv (filled n) := by
  have hcount : (filled n).ring.count = n := by
    simp [Ring.count, gap, State.ring, filled, init, Nat.mod_eq_of_lt hn]
  have hlist : (filled n).ring.toList = List.replicate n none := by
    rw [Ring.toList, hcount]
    exact segment_none _ n
  exact ⟨(by decide : 0 < inqeulen), hlist, by simpa [filled] using hn, hn⟩

/-- The state behind the `doque` that follows. -/
def emptied (n : ℕ) : State :=
  { init with inquestart := n, inqueend := n, passed := List.replicate n none }

lemma step_filled {n : ℕ} (hn : n < inqeulen) :
    run step (filled n) [.doque fun _ => true] = some (emptied n) := by
  have hinv := inv_filled hn
  have hdoque := doque_spec (fun _ => true) hinv.start_lt hn hinv.queued hinv.length_lt
  simp only [run_cons, step, hdoque]
  simp [filled, emptied, init]

/-! ### Main result -/

lemma Inv.correct_iff {s : State} (h : Inv s) (e : Event) : Correct s e ↔ Wrapped s e := by
  cases e with
  | doque accept =>
    constructor
    · rintro ⟨-, hend, -⟩ -
      exact hend.ne
    · intro hwrapped
      have hend := h.atPc.lt hwrapped
      exact ⟨h.start_lt, hend, _,
        doque_spec accept h.start_lt hend h.queued (Nat.lt_succ_self _), rfl⟩
  | _ => exact Iff.rfl

lemma Inv.step {s s' : State} {e : Event} (h : Inv s) (hroom : Room s e) (hwrapped : Wrapped s e)
    (hs : step s e = some s') : Inv s' := by
  cases e with
  | call p =>
    simp only [Preempt.step] at hs
    split_ifs at hs with hidle
    cases hs
    have hat := h.atPc
    rw [hidle.1] at hat
    exact h.setPc hat
  | main =>
    simp only [Preempt.step] at hs
    split_ifs at hs
    exact h.main hroom hs
  | doque accept =>
    simp only [Preempt.step] at hs
    split_ifs at hs
    cases hs
    obtain ⟨-, hend, -⟩ := (h.correct_iff (.doque accept)).mpr hwrapped
    rw [doque_spec accept h.start_lt hend h.queued h.length_lt]
    exact ⟨hend, Ring.toList_eq_nil_iff.mpr rfl, (by decide : 0 < inqeulen),
      h.atPc.congr rfl rfl⟩

/-- In every interleaving in which fewer than 32 pbufs are queued, every `doque` starts with
indices in range and passes on exactly what is queued, if and only if none starts between the
store of `++inqueend` that leaves the range and the store that wraps it. -/
theorem throughout_correct_iff {es : List Event} (hroom : Throughout step Room init es) :
    Throughout step Correct init es ↔ Throughout step Wrapped init es := by
  refine throughout_congr_of_throughout (P := Inv) (fun s e s' h hL hs => ?_) inv_init hroom
  have hiff := h.correct_iff e
  exact ⟨hiff, fun hcorrect => h.step hL (hiff.mp hcorrect) hs⟩

theorem throughout_correct_iff_one :
    Throughout step Correct init
      [.call none, .main, .main, .main, .doque fun _ => true, .main, .main, .doque fun _ => true] :=
  (throughout_correct_iff (by simp [Throughout, step, mainStep, Room, init, doque])).mpr
    (by simp [Throughout, step, mainStep, Wrapped, init, doque])

/-- With the last slot of the array next, an interrupt right behind `++inqueend` finds index 32,
and its loop has no end. -/
theorem doque_hangs :
    ∃ es s, run step init es = some s ∧
      Throughout step Room init (es ++ [.doque fun _ => true]) ∧
      s.queued = [none] ∧ s.inqueend = inqeulen ∧ (∀ n, doque (fun _ => true) n s = none) ∧
      ¬ Throughout step Correct init (es ++ [.doque fun _ => true]) := by
  obtain ⟨hrun, hroom⟩ := run_fill (n := 31) (by decide)
  have hempty := run_trans hrun (step_filled (by decide))
  have hwindow := run_window (s := emptied 31) rfl rfl none
  have hes := run_trans hempty hwindow
  refine ⟨_, _, hes, ?_, rfl, rfl, fun n => doque_eq_none _ n (by decide) rfl, ?_⟩
  · rw [throughout_append hes, throughout_append hempty, throughout_append hrun]
    refine ⟨⟨⟨hroom, fun _ _ => ⟨trivial, trivial⟩⟩, ?_⟩, fun _ _ => ⟨trivial, trivial⟩⟩
    simp [Throughout, window, step, mainStep, Room, emptied, init]
  · rw [throughout_append hes]
    rintro ⟨-, hdoque⟩
    obtain ⟨-, hend, -⟩ := (hdoque _ rfl).1
    exact absurd hend (by decide)

end BcmMruby.Ether.Preempt
