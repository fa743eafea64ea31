import BcmMruby.TcpClient.Basic

/-!
# Writing

`my_tcp_write` cuts the length to the free send space and drops the result of `tcp_write`;
`sock_write` and `http_connect` report success all the same. lwIP queues all of the bytes
`tcp_write` is called with, or none of them if it returns an error.
-/

namespace BcmMruby.TcpClient

/-- A buffer of the main program. No object of this 32-bit target has `2 ^ 31` bytes or more, so
its length is not negative as an `int`. -/
structure CBuffer where
  bytes : List UInt8
  length_lt : bytes.length < 2 ^ 31

/-- What lwIP answers to one `my_tcp_write`: the free send space and the result of
`tcp_write`. -/
structure WriteEnv where
  sndbuf : UInt16
  err : ℤ
  deriving DecidableEq

/-- `(u16_t)LWIP_MIN(len, tcp_sndbuf(pcb))`. -/
def writeLen (w : WriteEnv) (len : ℤ) : ℕ :=
  ((if len < w.sndbuf.toNat then len else w.sndbuf.toNat) % 2 ^ 16).toNat

/-- The bytes lwIP accepts. -/
def myTcpWrite (w : WriteEnv) (buf : List UInt8) (len : ℤ) : List UInt8 :=
  if w.err = 0 then buf.take (writeLen w len) else []

/-- The value returned and the bytes lwIP accepts. -/
def sockWrite (w : WriteEnv) (buf : CBuffer) : ℤ × List UInt8 :=
  (buf.bytes.length, myTcpWrite w buf.bytes buf.bytes.length)

/-- The end of `http_connect`, once its loop has been left: the value returned and the bytes of
the header lwIP accepts. -/
def httpConnectEnd (tcpstat : ℤ) (w : WriteEnv) (header : CBuffer) : ℤ × List UInt8 :=
  if tcpstat = 1 then (1, myTcpWrite w header.bytes header.bytes.length) else (0, [])

/-- The buffer is empty, or there is room for it and `tcp_write` takes it. -/
def Fits (w : WriteEnv) (buf : CBuffer) : Prop :=
  buf.bytes = [] ∨ buf.bytes.length ≤ w.sndbuf.toNat ∧ w.err = 0

lemma writeLen_length (w : WriteEnv) (buf : CBuffer) :
    writeLen w buf.bytes.length = min buf.bytes.length w.sndbuf.toNat := by
  have hsnd := w.sndbuf.toNat_lt
  rw [writeLen]
  split_ifs <;> omega

lemma length_myTcpWrite_le (w : WriteEnv) (buf : List UInt8) (len : ℤ) :
    (myTcpWrite w buf len).length ≤ buf.length := by
  rw [myTcpWrite]
  split_ifs
  · exact List.length_take_le' _ _
  · exact Nat.zero_le _

/-- Everything is accepted exactly when the buffer fits. -/
lemma myTcpWrite_eq_iff (w : WriteEnv) (buf : CBuffer) :
    myTcpWrite w buf.bytes buf.bytes.length = buf.bytes ↔ Fits w buf := by
  rw [myTcpWrite, Fits, writeLen_length]
  split_ifs with herr
  · rw [List.take_eq_self_iff]
    constructor
    · intro h
      exact Or.inr ⟨by omega, herr⟩
    · rintro (h | ⟨h, -⟩)
      · simp [h]
      · omega
  · simp [herr, eq_comm]

/-! ### Sequences of writes -/

/-- One call of `sock_write` and what lwIP answers to it. -/
structure SockCall where
  buf : CBuffer
  env : WriteEnv

def SockCall.accepted (call : SockCall) : List UInt8 := (sockWrite call.env call.buf).2

/-- The first `r` bytes of the buffer, `r` being the value `sock_write` returns. -/
def SockCall.promised (call : SockCall) : List UInt8 :=
  call.buf.bytes.take (sockWrite call.env call.buf).1.toNat

@[simp] lemma SockCall.promised_eq (call : SockCall) : call.promised = call.buf.bytes := by
  simp [SockCall.promised, sockWrite]

lemma SockCall.accepted_eq_promised_iff (call : SockCall) :
    call.accepted = call.promised ↔ Fits call.env call.buf := by
  rw [call.promised_eq]
  exact myTcpWrite_eq_iff _ _

lemma SockCall.length_accepted_le (call : SockCall) :
    call.accepted.length ≤ call.promised.length := by
  rw [call.promised_eq]
  exact length_myTcpWrite_le _ _ _

lemma length_flatMap_accepted_le (calls : List SockCall) :
    (calls.flatMap SockCall.accepted).length ≤ (calls.flatMap SockCall.promised).length := by
  induction calls with
  | nil => rfl
  | cons call calls ih =>
    have := call.length_accepted_le
    simp only [List.flatMap_cons, List.length_append]
    omega

/-- No call makes up for what another one has lost. -/
lemma flatMap_accepted_eq_iff (calls : List SockCall) :
    calls.flatMap SockCall.accepted = calls.flatMap SockCall.promised ↔
      ∀ call ∈ calls, Fits call.env call.buf := by
  induction calls with
  | nil => simp
  | cons call calls ih =>
    rw [List.forall_mem_cons, ← ih, ← call.accepted_eq_promised_iff]
    simp only [List.flatMap_cons]
    constructor
    · intro h
      have hlen := congrArg List.length h
      have hcall := call.length_accepted_le
      have hrest := length_flatMap_accepted_le calls
      simp only [List.length_append] at hlen
      exact List.append_inj h (by omega)
    · rintro ⟨h₁, h₂⟩
      rw [h₁, h₂]

/-! ### Main results -/

/-- The bytes accepted are the bytes reported if and only if every buffer fits, and
`http_connect` returns 1 with all of its header accepted if and only if the header fits whenever
it is written. -/
theorem writes_accepted_iff (calls : List SockCall) (tcpstat : ℤ) (w : WriteEnv)
    (header : CBuffer) :
    (calls.flatMap SockCall.accepted = calls.flatMap SockCall.promised ↔
        ∀ call ∈ calls, Fits call.env call.buf) ∧
      (((httpConnectEnd tcpstat w header).1 = 1 →
          (httpConnectEnd tcpstat w header).2 = header.bytes) ↔
        (tcpstat = 1 → Fits w header)) := by
  refine ⟨flatMap_accepted_eq_iff calls, ?_⟩
  rw [httpConnectEnd]
  split_ifs with h
  · simp [h, myTcpWrite_eq_iff]
  · simp [h]

/-- Three bytes with room for two: 3 is returned and two are accepted. -/
theorem sockWrite_cuts_silently :
    (sockWrite ⟨2, 0⟩ ⟨[22, 3, 1], by decide⟩).1 = 3 ∧
      (sockWrite ⟨2, 0⟩ ⟨[22, 3, 1], by decide⟩).2 = [22, 3] ∧
      [(⟨⟨[22, 3, 1], by decide⟩, ⟨2, 0⟩⟩ : SockCall)].flatMap SockCall.accepted ≠
        [(⟨⟨[22, 3, 1], by decide⟩, ⟨2, 0⟩⟩ : SockCall)].flatMap SockCall.promised := by
  decide

end BcmMruby.TcpClient
