import BcmMruby.Core.Bytes

/-!
# Chains of pbufs

lwIP keeps a packet in a chain of pbufs. Of a pbuf the code uses the address of its payload, its
length and, in the first one, the length of the whole chain. A pbuf of the pool stands in front of
its payload, which keeps the payloads of two of them apart.
-/

namespace BcmMruby.Lwip

open Core

structure Pbuf where
  payload : ℕ
  len : ℕ
  deriving DecidableEq

/-- The payloads of a chain, one behind the other. -/
def bytes (mem : ℕ → Byte) (chain : List Pbuf) : List Byte :=
  chain.flatMap fun p => load mem p.payload p.len

def total (chain : List Pbuf) : ℕ := (chain.map Pbuf.len).sum

@[simp] lemma bytes_cons (mem : ℕ → Byte) (p : Pbuf) (chain : List Pbuf) :
    bytes mem (p :: chain) = load mem p.payload p.len ++ bytes mem chain := rfl

@[simp] lemma total_cons (p : Pbuf) (chain : List Pbuf) :
    total (p :: chain) = p.len + total chain := rfl

@[simp] lemma length_bytes (mem : ℕ → Byte) (chain : List Pbuf) :
    (bytes mem chain).length = total chain := by
  induction chain with
  | nil => rfl
  | cons p chain ih => simp [ih]

/-- A chain with the `tot_len` of its first pbuf. -/
structure Packet where
  first : Pbuf
  rest : List Pbuf
  totLen : ℕ
  totLen_eq : totLen = total (first :: rest)

def Packet.bytes (mem : ℕ → Byte) (p : Packet) : List Byte := Lwip.bytes mem (p.first :: p.rest)

/-- The payload of the first pbuf goes on as those of the others. -/
def Packet.Flat (mem : ℕ → Byte) (p : Packet) : Prop :=
  load mem (p.first.payload + p.first.len) (total p.rest) = Lwip.bytes mem p.rest

/-- What a reader finds that takes the whole length from the first payload on. -/
lemma Packet.flat_iff (mem : ℕ → Byte) (p : Packet) :
    p.Flat mem ↔ load mem p.first.payload p.totLen = p.bytes mem := by
  rw [Flat, Packet.bytes, bytes_cons, p.totLen_eq, total_cons, load_add, List.append_cancel_left_eq]

lemma Packet.flat_of_rest_eq_nil {p : Packet} (h : p.rest = []) (mem : ℕ → Byte) :
    p.Flat mem := by
  rw [Flat, h]
  rfl

/-! ### The pool -/

/-- The address is in the payload. -/
def Pbuf.Covers (p : Pbuf) (a : ℕ) : Prop := p.payload ≤ a ∧ a < p.payload + p.len

/-- There is something between the payloads. -/
def Pbuf.Apart (p q : Pbuf) : Prop :=
  p.payload + p.len < q.payload ∨ q.payload + q.len < p.payload

/-- What `pbuf_alloc` gives for `len` bytes of the pool. -/
structure PoolPacket (len : ℕ) extends Packet where
  totLen_eq_len : totLen = len
  apart : (first :: rest).Pairwise Pbuf.Apart

/-- The address behind the first payload is in none. -/
lemma PoolPacket.not_covers {len : ℕ} (b : PoolPacket len) {p : Pbuf}
    (hp : p ∈ b.first :: b.rest) : ¬p.Covers (b.first.payload + b.first.len) := by
  rintro ⟨hle, hlt⟩
  rcases List.mem_cons.mp hp with rfl | hp
  · exact lt_irrefl _ hlt
  · rcases (List.pairwise_cons.mp b.apart).1 p hp with h | h
    · exact absurd hle (not_le.mpr h)
    · omega

/-- What fits in the first payload is the whole packet. -/
lemma PoolPacket.bytes_store {buf : List Byte} (b : PoolPacket buf.length)
    (hfits : buf.length ≤ b.first.len) (mem : ℕ → Byte) :
    Lwip.bytes (store mem b.first.payload buf) (b.first :: b.rest) = buf := by
  have htotal : buf.length = b.first.len + total b.rest :=
    b.totLen_eq_len.symm.trans (b.totLen_eq.trans (total_cons b.first b.rest))
  have hlen : b.first.len = buf.length := by omega
  have hrest : Lwip.bytes (store mem b.first.payload buf) b.rest = [] := by
    rw [← List.length_eq_zero_iff, length_bytes]
    omega
  rw [bytes_cons, hrest, List.append_nil, hlen, load_store_self]

/-- `lwip_htonl`, which is `lwip_ntohl` too, on a little endian machine. -/
def htonl (w : BitVec 32) : BitVec 32 := word (byte w 0) (byte w 1) (byte w 2) (byte w 3)

end BcmMruby.Lwip
