import BcmMruby.Core.Run
import BcmMruby.TcpClient.Basic

/-!
# The receive buffer and the receive window

lwIP never delivers more than the receive window it advertises, and `http_recv` re-opens the
window at once, by the length it has just copied. The window therefore bounds one delivery and
not what piles up in `tcpbuff`: `tcpoff` goes back to 0 only when a delivery finds the buffer
empty, so `tcpoff + tcplen` counts every byte delivered since then, read or not.

`Feed` reads that count off the events alone, and `throughout_copyInside_iff` says that the
copies of a run stay inside `tcpbuff` exactly when no such burst is longer than the buffer.
-/

namespace BcmMruby.TcpClient.Window

open Core

/-- What happens to the buffer; the lengths of the readers are those they are asked for. -/
inductive Event where
  | connected
  | recv (pbuf : List UInt8)
  | httpRead (len : ℕ)
  | sockRead (len : ℕ)

/-- The client, and the receive window lwIP has open for the connection. -/
structure State where
  client : Client
  rcvWnd : ℕ

def init (tcpWnd : ℕ) : State := ⟨Client.zero, tcpWnd⟩

/-- `tcpWnd` is the window a new connection starts with. -/
def step (tcpWnd : ℕ) (s : State) : Event → Option State
  | .connected => some ⟨httpConnected s.client, tcpWnd⟩
  | .recv pbuf =>
    if pbuf.length ≤ s.rcvWnd then
      some ⟨TcpClient.httpRecv s.client (some pbuf),
        s.rcvWnd - pbuf.length + httpRecvRecved (some pbuf)⟩
    else none
  | .httpRead len => some { s with client := (TcpClient.httpRead s.client len).1 }
  | .sockRead len => some { s with client := (TcpClient.sockRead s.client len).1 }

/-- If the step is a delivery, the copy `http_recv` makes ends inside `tcpbuff`. -/
def CopyInside (s : State) : Event → Prop
  | .recv pbuf => copyOff s.client + s.client.tcplen + pbuf.length ≤ tcpbuffSize
  | _ => True

/-! ### Bursts -/

/-- What the events alone say about the buffer: the bytes delivered and not read, and the bytes
delivered since a delivery last found all the earlier ones read. -/
structure Feed where
  unread : ℕ
  burst : ℕ

def Feed.step (f : Feed) : Event → Feed
  | .connected => ⟨0, 0⟩
  | .recv pbuf =>
    if f.unread = 0 then ⟨pbuf.length, pbuf.length⟩
    else ⟨f.unread + pbuf.length, f.burst + pbuf.length⟩
  | .httpRead len | .sockRead len => ⟨f.unread - min f.unread len, f.burst⟩

def feed (es : List Event) : Feed := es.foldl Feed.step ⟨0, 0⟩

/-- No burst is longer than `tcpbuff`. -/
def BurstsFit (es : List Event) : Prop :=
  ∀ pre pbuf post, es = pre ++ .recv pbuf :: post →
    (feed (pre ++ [.recv pbuf])).burst ≤ tcpbuffSize

lemma feed_snoc (es : List Event) (e : Event) : feed (es ++ [e]) = (feed es).step e := by
  simp [feed]

/-- The client's counters as the events determine them. -/
structure Tracks (pre : List Event) (s : State) : Prop where
  tcplen : s.client.tcplen = (feed pre).unread
  tcpoff : s.client.tcplen ≠ 0 → s.client.tcpoff + s.client.tcplen = (feed pre).burst

lemma tcplen_tcpRead (c : Client) (len : ℕ) :
    (tcpRead c len).1.tcplen = c.tcplen - min c.tcplen len := by
  unfold tcpRead
  split_ifs with h₁ h₂
  · simp [readSection, readCount_eq_min]
  all_goals simp_all

lemma tcpoff_tcpRead (c : Client) (len : ℕ) :
    (tcpRead c len).1.tcpoff + (tcpRead c len).1.tcplen = c.tcpoff + c.tcplen := by
  have := readCount_le c.tcplen len
  unfold tcpRead
  split_ifs <;> simp [readSection]
  omega

/-- A reader moves `tcpoff` forward by what it takes off `tcplen`. -/
lemma Tracks.read {pre : List Event} {s : State} (h : Tracks pre s) {e : Event} {len : ℕ}
    (he : (feed pre).step e = ⟨(feed pre).unread - min (feed pre).unread len, (feed pre).burst⟩) :
    Tracks (pre ++ [e]) { s with client := (tcpRead s.client len).1 } := by
  constructor
  · rw [feed_snoc, he, tcplen_tcpRead, h.tcplen]
  · intro hne
    rw [feed_snoc, he, tcpoff_tcpRead]
    apply h.tcpoff
    intro h0
    simp [tcplen_tcpRead, h0] at hne

/-- Where a copy ends is what the burst it belongs to amounts to. -/
lemma Tracks.copyEnd {pre : List Event} {s : State} (h : Tracks pre s) (pbuf : List UInt8) :
    copyOff s.client + s.client.tcplen + pbuf.length = (feed (pre ++ [.recv pbuf])).burst := by
  rw [feed_snoc]
  by_cases h0 : s.client.tcplen = 0
  · simp [Feed.step, ← h.tcplen, h0, copyOff]
  · simp [Feed.step, ← h.tcplen, h0, copyOff, h.tcpoff h0]

lemma Tracks.step {tcpWnd : ℕ} (pre : List Event) (s : State) (e : Event) (s' : State)
    (h : Tracks pre s) (hs : step tcpWnd s e = some s') : Tracks (pre ++ [e]) s' := by
  cases e with
  | connected =>
    cases hs
    exact ⟨by simp [feed_snoc, Feed.step, httpConnected], fun hne => absurd rfl hne⟩
  | recv pbuf =>
    simp only [Window.step] at hs
    split_ifs at hs
    cases hs
    have hend := h.copyEnd pbuf
    refine ⟨?_, fun _ => by simpa [httpRecv, ← Nat.add_assoc] using hend⟩
    rw [feed_snoc]
    by_cases h0 : s.client.tcplen = 0
    · simp [Feed.step, ← h.tcplen, h0, httpRecv]
    · simp [Feed.step, ← h.tcplen, h0, httpRecv]
  | httpRead len =>
    cases hs
    exact h.read rfl
  | sockRead len =>
    cases hs
    exact h.read rfl

lemma tracks_init (tcpWnd : ℕ) : Tracks [] (init tcpWnd) := ⟨rfl, fun h => absurd rfl h⟩

/-! ### Main results -/

/-- The copies of a run stay inside `tcpbuff` if and only if its bursts fit. -/
theorem throughout_copyInside_iff {tcpWnd : ℕ} {es : List Event} {s : State}
    (hrun : run (step tcpWnd) (init tcpWnd) es = some s) :
    Throughout (step tcpWnd) CopyInside (init tcpWnd) es ↔ BurstsFit es := by
  have htracks : ∀ {pre s'}, run (step tcpWnd) (init tcpWnd) pre = some s' → Tracks pre s' :=
    fun hpre => by simpa using run_history Tracks.step (tracks_init tcpWnd) hpre
  rw [throughout_iff hrun]
  constructor
  · intro H pre pbuf post hsplit
    obtain ⟨s', hpre, -⟩ := run_split (hsplit ▸ hrun)
    rw [← (htracks hpre).copyEnd]
    exact H pre _ post s' hsplit hpre
  · intro H pre e post s' hsplit hpre
    cases e with
    | recv pbuf =>
      rw [CopyInside, (htracks hpre).copyEnd]
      exact H pre pbuf post hsplit
    | _ => trivial

theorem throughout_copyInside_iff_short :
    Throughout (step 2144) CopyInside (init 2144)
        [.connected, .recv [71, 69, 84], .httpRead 2, .recv [10], .sockRead 16] ↔
      BurstsFit [.connected, .recv [71, 69, 84], .httpRead 2, .recv [10], .sockRead 16] :=
  throughout_copyInside_iff rfl

/-- A delivery that uses the whole window. -/
def fullWindow (tcpWnd : ℕ) : List UInt8 := List.replicate tcpWnd 0

@[simp] lemma length_fullWindow (tcpWnd : ℕ) : (fullWindow tcpWnd).length = tcpWnd := by
  simp [fullWindow]

/-- Four full windows of 2144 bytes with no read between them run past the end of `tcpbuff`. -/
theorem four_windows_leave_tcpbuff :
    ∃ s, run (step 2144) (init 2144)
        [.connected, .recv (fullWindow 2144), .recv (fullWindow 2144), .recv (fullWindow 2144),
          .recv (fullWindow 2144)] = some s ∧
      ¬ Throughout (step 2144) CopyInside (init 2144)
        [.connected, .recv (fullWindow 2144), .recv (fullWindow 2144), .recv (fullWindow 2144),
          .recv (fullWindow 2144)] := by
  refine ⟨_, by simp [step, init, httpRecvRecved]; rfl, ?_⟩
  simp [Throughout, step, init, CopyInside, copyOff, httpConnected, TcpClient.httpRecv,
    httpRecvRecved, tcpbuffSize]

end BcmMruby.TcpClient.Window
