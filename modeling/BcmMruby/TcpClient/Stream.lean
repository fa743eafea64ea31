import BcmMruby.Core.Run
import BcmMruby.TcpClient.Basic

/-!
# Reading while the timer interrupt delivers

`http_read` and `sock_read` run in the main program, the callbacks in the timer interrupt. A
reader makes three accesses that the interrupt can come between: it loads `tcplen`, and then
either runs its section under `cli()` or loads `tcpstat`. The state keeps, next to the globals,
the bytes delivered and the bytes returned so far, and how many bytes had been delivered when
the stream ended.

The section is all a reader needs to return the stream in order (`Conserves.step`). The end of
the stream is another matter: a last segment and a FIN that arrive together between the two
loads make the reader report the end with the segment still in the buffer.
-/

namespace BcmMruby.TcpClient.Stream

open Core

/-- The next access of the reader the main program is in. -/
inductive Pc where
  | idle
  | loadLen (len : ℕ)
  | lock (len : ℕ)
  | loadStat
  deriving DecidableEq

inductive Event where
  /-- The main program calls a reader. -/
  | call (len : ℕ)
  /-- The reader makes its next access. -/
  | main
  /-- The interrupt makes a callback. -/
  | recv (pbuf : Option (List UInt8))
  | err

structure State where
  client : Client
  pc : Pc
  delivered : List UInt8
  returned : List UInt8
  /-- Bytes delivered before the latest end-of-stream event. -/
  atEnd : ℕ

/-- The state `http_connected` leaves, whatever it finds. -/
def connected (c : Client) : State := ⟨httpConnected c, .idle, [], [], 0⟩

/-- The reader's next access, both readers making the same ones. -/
def mainStep (s : State) : Option State :=
  match s.pc with
  | .idle => none
  | .loadLen len => some { s with pc := if s.client.tcplen ≠ 0 then .lock len else .loadStat }
  | .lock len =>
    let (client, buf) := readSection s.client len
    some { s with client, pc := .idle, returned := s.returned ++ buf }
  -- the value returned is -1 or 0: `tcpstat` decides it and nothing else changes
  | .loadStat => some { s with pc := .idle }

def step (s : State) : Event → Option State
  | .call len => if s.pc = .idle then some { s with pc := .loadLen len } else none
  | .main => mainStep s
  | .recv (some pbuf) =>
    some { s with client := httpRecv s.client (some pbuf), delivered := s.delivered ++ pbuf }
  | .recv none => some { s with client := httpRecv s.client none, atEnd := s.delivered.length }
  | .err => some { s with client := httpErr s.client, atEnd := s.delivered.length }

/-- No copy of `http_recv` runs past `tcpbuff`. -/
def CopyFits (s : State) : Event → Prop
  | .recv (some pbuf) => copyOff s.client + s.client.tcplen + pbuf.length ≤ tcpbuffSize
  | _ => True

/-- If the step returns -1, then all that was delivered before the end has been returned. -/
def EndAfterAll (s : State) : Event → Prop
  | .main => s.pc = .loadStat → s.client.tcpstat ≥ 2 → s.atEnd ≤ s.returned.length
  | _ => True

/-- The stream does not end between the two loads of a reader when a delivery has already come
between them. -/
def QuietGap (s : State) : Event → Prop
  | .recv none | .err => s.pc = .loadStat → s.client.tcplen = 0
  | _ => True

/-! ### What a step can do -/

inductive Rule : State → Event → State → Prop where
  | call (s : State) (len : ℕ) (hpc : s.pc = .idle) :
      Rule s (.call len) { s with pc := .loadLen len }
  | found (s : State) (len : ℕ) (hpc : s.pc = .loadLen len) (hlen : s.client.tcplen ≠ 0) :
      Rule s .main { s with pc := .lock len }
  | empty (s : State) (len : ℕ) (hpc : s.pc = .loadLen len) (hlen : s.client.tcplen = 0) :
      Rule s .main { s with pc := .loadStat }
  | section_ (s : State) (len : ℕ) (hpc : s.pc = .lock len) :
      Rule s .main { s with
        client := (readSection s.client len).1
        pc := .idle
        returned := s.returned ++ (readSection s.client len).2 }
  | stat (s : State) (hpc : s.pc = .loadStat) : Rule s .main { s with pc := .idle }
  | recv (s : State) (pbuf : List UInt8) :
      Rule s (.recv (some pbuf)) { s with
        client := httpRecv s.client (some pbuf)
        delivered := s.delivered ++ pbuf }
  | ended (s : State) :
      Rule s (.recv none) { s with
        client := httpRecv s.client none
        atEnd := s.delivered.length }
  | err (s : State) :
      Rule s .err { s with client := httpErr s.client, atEnd := s.delivered.length }

lemma Rule.of_step {s s' : State} {e : Event} (h : step s e = some s') : Rule s e s' := by
  cases e with
  | call len =>
    simp only [step] at h
    split_ifs at h with hpc
    cases h
    exact .call s len hpc
  | main =>
    simp only [step, mainStep] at h
    split at h
    · cases h
    · next len hpc =>
      cases h
      split_ifs with hlen
      · exact .found s len hpc hlen
      · exact .empty s len hpc (not_not.mp hlen)
    · next len hpc =>
      cases h
      exact .section_ s len hpc
    · next hpc =>
      cases h
      exact .stat s hpc
  | recv pbuf =>
    cases pbuf with
    | some pbuf =>
      cases h
      exact .recv s pbuf
    | none =>
      cases h
      exact .ended s
  | err =>
    cases h
    exact .err s

/-- Left alone, the accesses of the machine make up the reader of the source. -/
lemma run_reader {s : State} (hs : s.pc = .idle) (len : ℕ) :
    run step s [.call len, .main, .main] =
      some { s with
        client := (httpRead s.client len).1
        returned := s.returned ++ (httpRead s.client len).2.2 } := by
  by_cases h : s.client.tcplen = 0
  · by_cases h' : s.client.tcpstat ≥ 2 <;> simp [step, mainStep, hs, httpRead, tcpRead, h, h']
  · simp [step, mainStep, hs, httpRead, tcpRead, h]

/-! ### The stream -/

/-- The bytes returned and the bytes waiting are the bytes delivered. -/
def Conserves (s : State) : Prop := s.returned ++ s.client.pending = s.delivered

lemma Conserves.step {s : State} {e : Event} {s' : State} (h : Conserves s) (hfit : CopyFits s e)
    (hs : step s e = some s') : Conserves s' := by
  rw [Conserves] at h ⊢
  cases Rule.of_step hs with
  | recv pbuf => rw [pending_httpRecv hfit, ← List.append_assoc, h]
  | section_ len => rw [List.append_assoc, ← pending_readSection, h]
  | _ => exact h

/-- With nothing in the buffer everything has been returned. -/
lemma Conserves.returned_eq {s : State} (h : Conserves s) (h0 : s.client.tcplen = 0) :
    s.returned = s.delivered := by
  have hnil : s.client.pending = [] := by rw [← List.length_eq_zero_iff, length_pending, h0]
  rwa [Conserves, hnil, List.append_nil] at h

/-- Whoever is between the two loads has read all there was before the end of the stream. -/
structure GapInv (s : State) : Prop where
  conserves : Conserves s
  atEnd_le : s.atEnd ≤ s.delivered.length
  gap : s.pc = .loadStat → s.atEnd ≤ s.returned.length

lemma GapInv.step {s : State} {e : Event} {s' : State} (h : GapInv s) (hfit : CopyFits s e)
    (hgap : QuietGap s e) (hs : step s e = some s') : GapInv s' := by
  have hconserves := h.conserves.step hfit hs
  have hall : s.client.tcplen = 0 → s.delivered.length ≤ s.returned.length := fun h0 =>
    (congrArg List.length (h.conserves.returned_eq h0)).ge
  cases Rule.of_step hs with
  | recv pbuf => exact ⟨hconserves, by simpa using Nat.le_add_right_of_le h.atEnd_le, h.gap⟩
  | ended => exact ⟨hconserves, le_rfl, fun hpc => hall (hgap hpc)⟩
  | err => exact ⟨hconserves, le_rfl, fun hpc => hall (hgap hpc)⟩
  | empty len hpc h0 => exact ⟨hconserves, h.atEnd_le, fun _ => h.atEnd_le.trans (hall h0)⟩
  | stat hpc => exact ⟨hconserves, h.atEnd_le, fun hpc => nomatch hpc⟩
  | section_ len hpc => exact ⟨hconserves, h.atEnd_le, fun hpc => nomatch hpc⟩
  | call len hpc => exact ⟨hconserves, h.atEnd_le, fun hpc => nomatch hpc⟩
  | found len hpc => exact ⟨hconserves, h.atEnd_le, fun hpc => nomatch hpc⟩

/-- A reader that will find the end of the stream although bytes are left. -/
structure Doomed (s : State) : Prop where
  gap : s.pc = .loadStat
  ended : s.client.tcpstat ≥ 2
  left : s.returned.length < s.atEnd
  atEnd_le : s.atEnd ≤ s.delivered.length

/-- Nothing but its own access gets a reader out of the gap. -/
lemma Doomed.step {s : State} {e : Event} {s' : State} (h : Doomed s) (he : e ≠ .main)
    (hs : step s e = some s') : Doomed s' := by
  have hlt := h.left.trans_le h.atEnd_le
  cases Rule.of_step hs with
  | call len hpc => exact absurd (hpc.symm.trans h.gap) (by simp)
  | recv pbuf => exact ⟨h.gap, h.ended, h.left, by simpa using Nat.le_add_right_of_le h.atEnd_le⟩
  | ended => exact ⟨h.gap, le_rfl, hlt, le_rfl⟩
  | err => exact ⟨h.gap, by simp [httpErr], hlt, le_rfl⟩
  | _ => exact absurd rfl he

/-- A stream that ends in a gap with bytes left dooms the reader. -/
lemma GapInv.doomed {s s' : State} {e : Event} (h : GapInv s) (hgap : ¬ QuietGap s e)
    (hs : Stream.step s e = some s') : Doomed s' := by
  have hleft : s.client.tcplen ≠ 0 → s.returned.length < s.delivered.length := by
    intro hne
    rw [← h.conserves, List.length_append, length_pending]
    omega
  cases Rule.of_step hs with
  | ended =>
    simp only [QuietGap, Classical.not_imp] at hgap
    exact ⟨hgap.1, le_rfl, hleft hgap.2, le_rfl⟩
  | err =>
    simp only [QuietGap, Classical.not_imp] at hgap
    exact ⟨hgap.1, by simp [httpErr], hleft hgap.2, le_rfl⟩
  | _ => exact absurd trivial hgap

/-! ### Main results -/

lemma gapInv_connected (c : Client) : GapInv (connected c) :=
  ⟨rfl, le_rfl, fun h => nomatch h⟩

/-- Quiet gaps are enough for every -1 to come after all of the bytes. -/
lemma throughout_endAfterAll {s t : State} {es : List Event} (h : GapInv s)
    (hrun : run step s es = some t) (hfit : Throughout step CopyFits s es)
    (hgap : Throughout step QuietGap s es) : Throughout step EndAfterAll s es := by
  induction es generalizing s with
  | nil => trivial
  | cons e es ih =>
    obtain ⟨s', hs', hrun'⟩ := run_eq_some_cons.mp hrun
    rw [throughout_cons_of_step hs'] at hfit hgap ⊢
    refine ⟨?_, ih (h.step hfit.1 hgap.1 hs') hrun' hfit.2 hgap.2⟩
    cases e with
    | main => exact fun hpc _ => h.gap hpc
    | _ => trivial

/-- Quiet gaps are necessary too, in a run that lets every reader finish. -/
lemma throughout_quietGap {s t : State} {es : List Event} (h : GapInv s)
    (hrun : run step s es = some t) (hfit : Throughout step CopyFits s es) (ht : t.pc = .idle)
    (hend : Throughout step EndAfterAll s es) : Throughout step QuietGap s es := by
  refine throughout_of_doomed (L := CopyFits) (fun _ _ _ h hf hq hs => h.step hf hq hs)
    (fun _ _ _ h hq hs => h.doomed hq hs) (fun u e u' hdoomed hend' hs => ?_) h hfit hrun ?_ hend
  · refine hdoomed.step ?_ hs
    rintro rfl
    exact absurd (hend' hdoomed.gap hdoomed.ended) (not_le.mpr hdoomed.left)
  · intro hdoomed
    exact absurd (ht.symm.trans hdoomed.gap) (by simp)

/-- In every interleaving in which no copy runs past `tcpbuff`, the bytes returned and the bytes
waiting are the bytes delivered; and if the gaps of the run are quiet, then -1 is returned only
after all that was delivered before the end. The converse holds as soon as the last reader has
finished. -/
theorem stream_law {c : Client} {es : List Event} {s : State}
    (hrun : run step (connected c) es = some s)
    (hfit : Throughout step CopyFits (connected c) es) :
    s.returned ++ s.client.pending = s.delivered ∧
      (Throughout step QuietGap (connected c) es → Throughout step EndAfterAll (connected c) es) ∧
      (s.pc = .idle → Throughout step EndAfterAll (connected c) es →
        Throughout step QuietGap (connected c) es) := by
  refine ⟨?_, throughout_endAfterAll (gapInv_connected c) hrun hfit,
    throughout_quietGap (gapInv_connected c) hrun hfit⟩
  exact run_invariant (P := Conserves) (fun _ _ _ h hf hs => h.step hf hs)
    (gapInv_connected c).conserves hfit hrun

theorem stream_law_two_segments :
    Throughout step EndAfterAll (connected Client.zero)
      [.recv (some [71, 69]), .call 1, .main, .recv (some [84]), .main, .recv none] :=
  (stream_law rfl (by simp [Throughout, step, mainStep, connected, CopyFits, copyOff,
    httpConnected, httpRecv, Client.zero, tcpbuffSize])).2.1
    (by simp [Throughout, step, mainStep, connected, QuietGap, httpConnected, httpRecv])

/-- A last segment and the end of the stream between the loads of `tcplen` and `tcpstat`: the
reader returns -1 and the segment is still in the buffer. -/
theorem segment_and_end_in_gap :
    ∃ s, run step (connected Client.zero)
        [.call 16, .main, .recv (some [10]), .recv none, .main] = some s ∧
      Throughout step CopyFits (connected Client.zero)
        [.call 16, .main, .recv (some [10]), .recv none, .main] ∧
      ¬ Throughout step EndAfterAll (connected Client.zero)
        [.call 16, .main, .recv (some [10]), .recv none, .main] := by
  refine ⟨_, rfl, ?_, ?_⟩
  all_goals
    simp [Throughout, step, mainStep, connected, CopyFits, EndAfterAll, copyOff, httpConnected,
      httpRecv, Client.zero, tcpbuffSize]

end BcmMruby.TcpClient.Stream
