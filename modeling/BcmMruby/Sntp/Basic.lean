import BcmMruby.Core.Run
import BcmMruby.Core.Bytes
import BcmMruby.Timer

/-!
# The SNTP client

`sntp` obtains a UDP pcb and sends a request from it; the reply comes to `udpsntp_raw_recv`, which
sets the clock and gives the pcb back. Pcbs are known by their addresses, and lwIP uses an address
again once it is free. `removed` lists what the calls of `udp_remove` that the two functions make
have found at the address they name.
-/

namespace BcmMruby.Sntp

open Core

inductive User where
  | sntp
  | other
  deriving DecidableEq

/-- A pcb in use: who has allocated it, and whether its callback is `udpsntp_raw_recv`. -/
structure UdpPcb where
  user : User
  recv : Bool
  deriving DecidableEq

structure Net where
  timer : Timer
  /-- The pcb at each address, `none` where the memory is free. -/
  pcbs : ℕ → Option UdpPcb
  udpsntpRawPcb : Option ℕ
  removed : List (Option UdpPcb)

/-- The end of `net_init`, with pcbs of other users here and there. -/
def netInit (timer : Timer) (others : ℕ → Bool) : Net where
  timer := timer
  pcbs := fun p => if others p then some ⟨.other, false⟩ else none
  udpsntpRawPcb := none
  removed := []

def udpRemove (s : Net) (p : ℕ) : Net :=
  { s with
    pcbs := Function.update s.pcbs p none
    removed := s.removed ++ [s.pcbs p] }

/-- `udp_remove(udpsntp_raw_pcb)`; lwIP passes over `NULL`. -/
def removeSntp (s : Net) : Net :=
  match s.udpsntpRawPcb with
  | some p => udpRemove s p
  | none => s

/-- The seconds of a reply, counted from 1970. -/
def timestamp (buf : List (BitVec 8)) : BitVec 32 :=
  word (buf.getD 40 0) (buf.getD 41 0) (buf.getD 42 0) (buf.getD 43 0) - 2208988800

/-- The last statement of the function is a comparison, `udpsntp_raw_pcb == NULL`. -/
def udpsntpRawRecv (s : Net) : Option (List (BitVec 8)) → Net
  | some buf =>
    removeSntp
      (if buf.length = 48 then
        { s with timer := { s.timer.resetCounter with starttime := timestamp buf } }
      else s)
  | none => s

/-- Whatever the address type, a new pcb is obtained at `new` or not at all. -/
def sntp (s : Net) (new : Option ℕ) : Net :=
  let s := removeSntp s
  { s with
    pcbs := match new with
      | some p => Function.update s.pcbs p (some ⟨.sntp, true⟩)
      | none => s.pcbs
    udpsntpRawPcb := new }

inductive Event where
  | sntp (new : Option ℕ)
  /-- lwIP passes a datagram that has come for `pcb` to its callback. -/
  | datagram (pcb : ℕ) (p : Option (List (BitVec 8)))
  /-- Another part of the program allocates a pcb, or removes one of its own. -/
  | otherNew (p : ℕ)
  | otherRemove (p : ℕ)
  | tick
  deriving DecidableEq

def step (s : Net) : Event → Option Net
  | .sntp new =>
    if ∀ p ∈ new, (removeSntp s).pcbs p = none then some (sntp s new) else none
  | .datagram pcb p =>
    if s.pcbs pcb = some ⟨.sntp, true⟩ then some (udpsntpRawRecv s p) else none
  | .otherNew p =>
    if s.pcbs p = none then
      some { s with pcbs := Function.update s.pcbs p (some ⟨.other, false⟩) }
    else none
  | .otherRemove p =>
    if s.pcbs p = some ⟨.other, false⟩ then
      some { s with pcbs := Function.update s.pcbs p none }
    else none
  | .tick => some { s with timer := s.timer.timerIsr }

/-- `udpsntp_raw_recv` is called with a datagram. -/
def Event.Delivers : Event → Prop
  | .datagram _ p => p ≠ none
  | _ => False

/-- A datagram of the length of a reply. -/
def Event.Replies : Event → Prop
  | .datagram _ (some buf) => buf.length = 48
  | _ => False

end BcmMruby.Sntp
