import BcmMruby.Core.Memory

/-!
# The TCP client

The globals of `net.c` that one TCP client connection uses, the callbacks lwIP makes on it, and
the two readers that take received bytes out of `tcpbuff`. lwIP itself is not modelled here: a
pbuf chain is the list of its payload bytes, and a pcb is the number of its allocation, so that
a pool slot which is allocated twice gives two different pcbs.
-/

namespace BcmMruby.TcpClient

open Core

/-- `sizeof(tcpbuff)`. -/
def tcpbuffSize : ℕ := 1024 * 8

/-- The client's globals. `tcplen` and `tcpoff` are never negative: they start at 0 and a
requested length is the size of the caller's buffer. -/
structure Client where
  tcpbuff : ℕ → UInt8
  tcplen : ℕ
  tcpoff : ℕ
  tcpstat : ℤ
  tcphttpRawPcb : Option ℕ

/-- The globals before `main` runs. -/
def Client.zero : Client where
  tcpbuff := fun _ => 0
  tcplen := 0
  tcpoff := 0
  tcpstat := 0
  tcphttpRawPcb := none

/-- The bytes received and not yet read: `tcpbuff[tcpoff .. tcpoff + tcplen)`. -/
def Client.pending (c : Client) : List UInt8 := load c.tcpbuff c.tcpoff c.tcplen

/-! ### Callbacks -/

/-- `pbuf_copy_partial` into `tcpbuff + off`. What runs past the array is lost here; in memory
it overwrites whatever lies behind the array. -/
def pbufCopyPartial (tcpbuff : ℕ → UInt8) (off : ℕ) (pbuf : List UInt8) : ℕ → UInt8 :=
  store tcpbuff off (pbuf.take (tcpbuffSize - off))

/-- `tcpoff` at the time `http_recv` copies. -/
def copyOff (c : Client) : ℕ := if c.tcplen = 0 then 0 else c.tcpoff

/-- A null pbuf is the end of the stream. -/
def httpRecv (c : Client) : Option (List UInt8) → Client
  | some pbuf =>
    { c with
      tcpbuff := pbufCopyPartial c.tcpbuff (copyOff c + c.tcplen) pbuf
      tcpoff := copyOff c
      tcplen := c.tcplen + pbuf.length }
  | none => { c with tcpstat := 2 }

/-- The count `http_recv` hands to `tcp_recved`. -/
def httpRecvRecved : Option (List UInt8) → ℕ
  | some pbuf => pbuf.length
  | none => 0

def httpErr (c : Client) : Client := { c with tcpstat := 3 }

/-- `tcp_abort` makes lwIP call `http_err` before `http_poll` goes on. -/
def httpPoll (c : Client) : Client := { httpErr c with tcpstat := 3 }

def httpConnected (c : Client) : Client := { c with tcplen := 0, tcpoff := 0, tcpstat := 1 }

inductive Callback where
  | connected
  | recv (pbuf : Option (List UInt8))
  | err
  | poll
  deriving DecidableEq

def callback (c : Client) : Callback → Client
  | .connected => httpConnected c
  | .recv pbuf => httpRecv c pbuf
  | .err => httpErr c
  | .poll => httpPoll c

/-! ### Readers -/

/-- `rlen` as both readers compute it. -/
def readCount (tcplen len : ℕ) : ℕ := if tcplen > len then len else tcplen

/-- What a reader does between `cli()` and `sti()`: the globals after it and the bytes copied
to the caller. -/
def readSection (c : Client) (len : ℕ) : Client × List UInt8 :=
  let rlen := readCount c.tcplen len
  ({ c with tcplen := c.tcplen - rlen, tcpoff := c.tcpoff + rlen }, load c.tcpbuff c.tcpoff rlen)

/-- The body `http_read` and `sock_read` share: the globals afterwards, the value returned and
the bytes copied to the caller. -/
def tcpRead (c : Client) (len : ℕ) : Client × ℤ × List UInt8 :=
  if c.tcplen ≠ 0 then
    let (c', buf) := readSection c len
    (c', readCount c.tcplen len, buf)
  else if c.tcpstat ≥ 2 then (c, -1, [])
  else (c, 0, [])

def httpRead (c : Client) (len : ℕ) : Client × ℤ × List UInt8 := tcpRead c len

def sockRead (c : Client) (len : ℕ) : Client × ℤ × List UInt8 := tcpRead c len

/-! ### Opening a connection -/

/-- `tcphttp_raw_init` without interrupts. `pcb` is what `tcp_new_ip_type` returns; the result
of `tcp_connect` is not looked at, and `tcpstat` is cleared only if there is a pcb. -/
def tcphttpRawInit (c : Client) (pcb : Option ℕ) : Client :=
  if pcb ≠ none then { c with tcphttpRawPcb := pcb, tcpstat := 0 }
  else { c with tcphttpRawPcb := pcb }

/-! ### The buffer as a queue of bytes -/

lemma readCount_eq_min (tcplen len : ℕ) : readCount tcplen len = min tcplen len := by
  rw [readCount]
  split_ifs <;> omega

lemma readCount_le (tcplen len : ℕ) : readCount tcplen len ≤ tcplen := by
  rw [readCount_eq_min]
  exact min_le_left _ _

@[simp] lemma length_pending (c : Client) : c.pending.length = c.tcplen := by
  simp [Client.pending]

/-- A copy that stays inside `tcpbuff` appends the payload to the bytes waiting there. -/
lemma pending_httpRecv {c : Client} {pbuf : List UInt8}
    (h : copyOff c + c.tcplen + pbuf.length ≤ tcpbuffSize) :
    (httpRecv c (some pbuf)).pending = c.pending ++ pbuf := by
  have hwhole : pbuf.take (tcpbuffSize - (copyOff c + c.tcplen)) = pbuf :=
    List.take_of_length_le (by omega)
  simp only [Client.pending, httpRecv, pbufCopyPartial, hwhole]
  rw [load_store_append]
  by_cases hc : c.tcplen = 0
  · simp [hc]
  · simp [copyOff, hc]

/-- The section of a reader takes bytes off the front. -/
lemma pending_readSection (c : Client) (len : ℕ) :
    c.pending = (readSection c len).2 ++ (readSection c len).1.pending := by
  have hsplit : c.tcplen = readCount c.tcplen len + (c.tcplen - readCount c.tcplen len) := by
    have := readCount_le c.tcplen len
    omega
  conv_lhs => rw [Client.pending, hsplit, load_add]
  rfl

end BcmMruby.TcpClient
