import BcmMruby.Lwip

/-!
# Sending a datagram

`rtl_udp_send` obtains a chain of pbufs from the pool and copies the whole datagram to the payload
of the first one, without a look at the length of that payload or at whether there is a pbuf at all;
`sntp` does the same with its request. `udp_sendto` is recorded with what it is given.
-/

namespace BcmMruby.Udp.Send

open Core Lwip

/-- A call of `udp_sendto`. -/
structure Sendto where
  pcb : Option ℕ
  pbufs : List Pbuf
  addr : BitVec 32
  port : BitVec 16

structure Outcome where
  mem : ℕ → Byte
  /-- What has been stored through `b->payload`, and where. -/
  stores : List (ℕ × List Byte)
  sent : Option Sendto

/-- The pbufs of an allocation, none for `NULL`. -/
def pbufs {len : ℕ} (alloc : Option (PoolPacket len)) : List Pbuf :=
  alloc.elim [] fun b => b.first :: b.rest

/-- `b->payload`; `null` is what stands there when `b` is `NULL`. -/
def payload {len : ℕ} (null : ℕ) (alloc : Option (PoolPacket len)) : ℕ :=
  alloc.elim null fun b => b.first.payload

/-- `memcpy(b->payload, buf, len)` and `udp_sendto`. -/
def copyAndSend (pcb : Option ℕ) (addr : BitVec 32) (port : BitVec 16) (buf : List Byte)
    (alloc : Option (PoolPacket buf.length)) (null : ℕ) (mem : ℕ → Byte) : Outcome where
  mem := store mem (payload null alloc) buf
  stores := [(payload null alloc, buf)]
  sent := some ⟨pcb, pbufs alloc, addr, port⟩

def rtlUdpSend (udpechoRawPcb : Option ℕ) (addr port : BitVec 32) (buf : List Byte)
    (alloc : Option (PoolPacket buf.length)) (null : ℕ) (mem : ℕ → Byte) : Outcome :=
  if udpechoRawPcb ≠ none then
    copyAndSend udpechoRawPcb (htonl addr) (port.setWidth 16) buf alloc null mem
  else ⟨mem, [], none⟩

/-- The request of `sntp`: the version and the mode, and zeros. -/
def msg : List Byte := (4 <<< 3 ||| 3) :: List.replicate 47 0

/-- The end of `sntp`, for an IPv4 address. -/
def sntpSend (udpsntpRawPcb : Option ℕ) (addr : BitVec 32) (alloc : Option (PoolPacket msg.length))
    (null : ℕ) (mem : ℕ → Byte) : Outcome :=
  copyAndSend udpsntpRawPcb (htonl addr) 123 msg alloc null mem

/-- Only payloads of the chain are written, and a chain that is sent holds the datagram. -/
structure Correct (chain : List Pbuf) (buf : List Byte) (o : Outcome) : Prop where
  inside : ∀ st ∈ o.stores, ∀ i < st.2.length, ∃ p ∈ chain, p.Covers (st.1 + i)
  sent : ∀ c, o.sent = some c → bytes o.mem c.pbufs = buf

/-- How much there is room for at `b->payload`. -/
def room {len : ℕ} (alloc : Option (PoolPacket len)) : ℕ := alloc.elim 0 fun b => b.first.len

/-- The datagram fits in the first payload. -/
lemma copyAndSend_correct_iff (pcb : Option ℕ) (addr : BitVec 32) (port : BitVec 16)
    (buf : List Byte) (alloc : Option (PoolPacket buf.length)) (null : ℕ) (mem : ℕ → Byte) :
    Correct (pbufs alloc) buf (copyAndSend pcb addr port buf alloc null mem) ↔
      buf.length ≤ room alloc := by
  cases alloc with
  | none =>
    rw [room, Option.elim_none, Nat.le_zero]
    constructor
    · intro h
      by_contra hne
      obtain ⟨p, hp, -⟩ := h.inside (null, buf) List.mem_cons_self 0 (Nat.pos_of_ne_zero hne)
      cases hp
    · intro hlen
      obtain rfl := List.length_eq_zero_iff.mp hlen
      refine ⟨fun st hst i hi => ?_, fun c hc => ?_⟩
      · obtain rfl := List.mem_singleton.mp hst
        cases hi
      · cases hc
        rfl
  | some b =>
    rw [room, Option.elim_some]
    constructor
    · intro h
      by_contra hlong
      obtain ⟨p, hp, hcovers⟩ :=
        h.inside (b.first.payload, buf) List.mem_cons_self b.first.len (not_le.mp hlong)
      exact b.not_covers hp hcovers
    · intro hfits
      refine ⟨fun st hst i hi => ?_, fun c hc => ?_⟩
      · obtain rfl := List.mem_singleton.mp hst
        have hlt : i < b.first.len := hi.trans_le hfits
        exact ⟨b.first, List.mem_cons_self, Nat.le_add_right _ _, Nat.add_lt_add_left hlt _⟩
      · cases hc
        exact b.bytes_store hfits mem

/-- The request of `sntp` needs a first payload of 48 bytes. -/
theorem sntpSend_correct_iff (udpsntpRawPcb : Option ℕ) (addr : BitVec 32)
    (alloc : Option (PoolPacket msg.length)) (null : ℕ) (mem : ℕ → Byte) :
    Correct (pbufs alloc) msg (sntpSend udpsntpRawPcb addr alloc null mem) ↔ 48 ≤ room alloc :=
  copyAndSend_correct_iff udpsntpRawPcb (htonl addr) 123 msg alloc null mem

/-- Without a pcb nothing is done; with one, the datagram has to fit in the first payload. -/
theorem rtlUdpSend_iff (udpechoRawPcb : Option ℕ) (addr port : BitVec 32) (buf : List Byte)
    (alloc : Option (PoolPacket buf.length)) (null : ℕ) (mem : ℕ → Byte) :
    Correct (pbufs alloc) buf (rtlUdpSend udpechoRawPcb addr port buf alloc null mem) ↔
      udpechoRawPcb = none ∨ buf.length ≤ room alloc := by
  rw [rtlUdpSend]
  split_ifs with hpcb
  · rw [or_iff_right hpcb]
    exact copyAndSend_correct_iff _ _ _ buf alloc null mem
  · exact iff_of_true ⟨nofun, nofun⟩ (Or.inl (not_not.mp hpcb))

def long : List Byte := List.replicate 600 0

/-- 600 bytes in two buffers of 592, the first one with room for the headers. -/
def inTwo : PoolPacket long.length :=
  ⟨⟨⟨92, 516⟩, [⟨624, 84⟩], 600, rfl⟩, List.length_replicate.symm, by simp [Pbuf.Apart]⟩

/-- A datagram in two pbufs is copied over what stands behind the first payload, and a byte without
a pbuf goes to wherever `NULL->payload` points. -/
theorem rtlUdpSend_overruns :
    (¬Correct (pbufs (some inTwo)) long
        (rtlUdpSend (some 0) 0 7 long (some inTwo) 0 fun _ => 0)) ∧
      ¬Correct [] [65] (rtlUdpSend (some 0) 0 7 [65] none 0 fun _ => 0) := by
  constructor
  · intro h
    have hlong : 516 < long.length := by
      rw [long, List.length_replicate]
      decide
    obtain ⟨p, hp, hcovers⟩ := h.inside (92, long) List.mem_cons_self 516 hlong
    exact inTwo.not_covers hp hcovers
  · intro h
    obtain ⟨p, hp, -⟩ := h.inside (0, [65]) List.mem_cons_self 0 (by decide)
    cases hp

end BcmMruby.Udp.Send
