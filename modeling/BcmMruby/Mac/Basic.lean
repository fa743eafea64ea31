import BcmMruby.Core.Ring

/-!
# The Ethernet driver

The packet pool, the two descriptor rings and the functions of `dev_sb_mac.c` that move buffers
between them, each run from beginning to end. The words which only the device reads (the command
words of the descriptors, the registers `R_RCV_PTR` and `R_XMT_PTR`), the statistics and the
contents of the buffers apart from the receive header are left out.

The current descriptor a DMA engine reports is given by its distance from the remove pointer. On
the receive ring this may be any slot. On the transmit ring it is assumed to lie between the
remove pointer and the add pointer.

`Hist` records what the functions do. Each time a buffer is put on a ring it begins a new stay
there; the stays are numbered, and a descriptor carries the number of its own.
-/

namespace BcmMruby.Mac

open Core

/-! ### Constants -/

/-- `ETH_PKTPOOL_SIZE`. -/
abbrev ethPktpoolSize : ℕ := 32

/-- `MAXRXDSCR`. -/
abbrev maxrxdscr : ℕ := 32

/-- `MAXTXDSCR`. -/
abbrev maxtxdscr : ℕ := 32

instance : NeZero maxrxdscr := ⟨by decide⟩

instance : NeZero maxtxdscr := ⟨by decide⟩

/-- `MINRXRING`. -/
def minrxring : ℤ := 8

/-- `ETH_PKTBUF_LEN`, a header and the longest frame rounded up to whole cache lines. -/
def ethPktbufLen : ℤ := 1568

def enetCrcSize : ℤ := 4

def cfeErrIoerr : ℤ := -4

def cfeErrNomem : ℤ := -5

/-- `M_INT_RI`, `M_INT_XI` and `M_INT_TO`. -/
def mIntRi : BitVec 32 := 0x00010000

def mIntXi : BitVec 32 := 0x01000000

def mIntTo : BitVec 32 := 0x00000080

/-- `M_RCVHDR0_ERRORS`: `NO`, `RXER`, `CRC` and `OV`. -/
def mRcvhdr0Errors : BitVec 32 := 0x000F0000

/-- `G_RCVHDR0_CD`. -/
def gRcvhdr0Cd (hdr0 : BitVec 32) : ℤ := (hdr0 &&& 0x0000FFFF).toNat

/-! ### State -/

/-- A packet buffer, by its place in the pool. -/
abbrev PktId : Type := Fin ethPktpoolSize

inductive EthState where
  | uninit
  | off
  | on
  | broken
  deriving DecidableEq

structure Dscr where
  bufptr : Option PktId
  stay : ℕ
  deriving DecidableEq

structure Hist where
  /-- How many stays have begun. -/
  handovers : ℕ
  /-- The stays whose frame has been handed to `net_rcv`, and the arguments of `net_rcv`. -/
  passed : List ℕ
  received : List (PktId × ℤ)
  /-- The stays whose buffer has been put on the free list. -/
  freed : List ℕ
  /-- The stays whose buffer goes from its descriptor back to the receive ring. -/
  recycled : List ℕ
  /-- What `bcm4401_procrxring` gets from `bcm4401_add_rcvbuf`, or `none` where it has no buffer
  to replace the one it has taken. -/
  replaced : List (Option ℤ)

def Hist.empty : Hist := ⟨0, [], [], [], [], []⟩

structure Softc where
  state : EthState
  intmask : BitVec 32
  freelist : List PktId
  /-- The field `length` of each packet. -/
  length : PktId → ℤ
  rx : Ring maxrxdscr Dscr
  rxdscrOnring : ℤ
  tx : Ring maxtxdscr Dscr
  slowPoll : Bool
  hist : Hist

/-! ### Packet management -/

def setLength (sc : Softc) (pkt : PktId) (length : ℤ) : Softc :=
  { sc with length := Function.update sc.length pkt length }

def ethAllocPkt (sc : Softc) : Softc × Option PktId :=
  match sc.freelist with
  | [] => (sc, none)
  | pkt :: freelist => (setLength { sc with freelist := freelist } pkt ethPktbufLen, some pkt)

def ethFreePkt (sc : Softc) (pkt : PktId) : Softc :=
  { sc with freelist := sc.freelist ++ [pkt] }

/-- `eth_free_pkt` with the buffer of a descriptor. -/
def freeStay (sc : Softc) (pkt : PktId) (stay : ℕ) : Softc :=
  ethFreePkt { sc with hist := { sc.hist with freed := sc.hist.freed ++ [stay] } } pkt

def ethInitfreelist (sc : Softc) : Softc :=
  (List.finRange ethPktpoolSize).foldl ethFreePkt { sc with freelist := [] }

/-! ### Receiving -/

/-- The store to `rxd_bufptr` in slot `i`. -/
def writeRx (sc : Softc) (i : Fin maxrxdscr) (pkt : PktId) : Softc :=
  { sc with
    rx := sc.rx.write i ⟨some pkt, sc.hist.handovers⟩
    hist := { sc.hist with handovers := sc.hist.handovers + 1 } }

/-- The store to `rxdscr_add`, with slot `i` as the one before. -/
def storeRxAdd (sc : Softc) (i : Fin maxrxdscr) : Softc := { sc with rx := sc.rx.storeAdd i }

def putRx (sc : Softc) (pkt : PktId) : Softc :=
  storeRxAdd (writeRx sc sc.rx.add pkt) sc.rx.add

def bcm4401AddRcvbuf (sc : Softc) (pkt : PktId) : Softc × ℤ :=
  if sc.rx.full then (sc, -1) else (putRx sc pkt, 0)

/-- The loop of `bcm4401_fillrxring`. Each turn adds 1 to `rxdscr_onring`, which bounds the
number of turns. -/
def fillTurns : ℕ → Softc → Softc
  | 0, sc => sc
  | k + 1, sc =>
    if sc.rxdscrOnring ≥ minrxring then sc
    else
      match ethAllocPkt sc with
      | (sc, none) => sc
      | (sc, some pkt) =>
        let (sc, r) := bcm4401AddRcvbuf sc pkt
        if r ≠ 0 then ethFreePkt sc pkt
        else fillTurns k { sc with rxdscrOnring := sc.rxdscrOnring + 1 }

def bcm4401Fillrxring (sc : Softc) : Softc :=
  fillTurns (minrxring - sc.rxdscrOnring).toNat sc

/-- `net_rcv(pkt->data, pkt->length)`. -/
def passUp (sc : Softc) (pkt : PktId) (stay : ℕ) : Softc :=
  { sc with
    hist := { sc.hist with
      passed := sc.hist.passed ++ [stay]
      received := sc.hist.received ++ [(pkt, sc.length pkt)] } }

def bcm4401RxCallback (sc : Softc) (pkt : PktId) (stay : ℕ) : Softc :=
  freeStay (passUp sc pkt stay) pkt stay

def recycle (sc : Softc) (stay : ℕ) : Softc :=
  { sc with hist := { sc.hist with recycled := sc.hist.recycled ++ [stay] } }

/-- The store to `rxdscr_remove`, with slot `i` as the one before. -/
def storeRxRemove (sc : Softc) (i : Fin maxrxdscr) : Softc :=
  { sc with rx := sc.rx.storeRemove i }

def dropRx (sc : Softc) : Softc := storeRxRemove sc sc.rx.remove

/-- The end of a turn of `bcm4401_procrxring`. -/
def replaceRx (sc : Softc) : Option PktId → Softc
  | some newpkt =>
    let (sc, r) := bcm4401AddRcvbuf sc newpkt
    { sc with hist := { sc.hist with replaced := sc.hist.replaced ++ [some r] } }
  | none =>
    { sc with
      rxdscrOnring := sc.rxdscrOnring - 1
      hist := { sc.hist with replaced := sc.hist.replaced ++ [none] } }

/-- One turn of the loop of `bcm4401_procrxring`, `hdr0` being the header the device has written
in each stay. A null `rxd_bufptr` leads nowhere. -/
def rxTurn (hdr0 : ℕ → BitVec 32) (sc : Softc) : Option Softc :=
  match sc.rx.head with
  | ⟨none, _⟩ => none
  | ⟨some pkt, stay⟩ =>
    if hdr0 stay &&& mRcvhdr0Errors ≠ 0 then
      some (replaceRx (dropRx (recycle sc stay)) (some pkt))
    else
      let sc := setLength sc pkt (gRcvhdr0Cd (hdr0 stay) - enetCrcSize)
      let (sc, newpkt) := ethAllocPkt (bcm4401RxCallback sc pkt stay)
      some (replaceRx (dropRx sc) newpkt)

/-- The loop of `bcm4401_procrxring`. A turn brings the remove pointer one slot nearer to
`rxcurr`, which bounds the number of turns. -/
def rxTurns (hdr0 : ℕ → BitVec 32) (rxcurr : Fin maxrxdscr) : ℕ → Softc → Option Softc
  | 0, sc => some sc
  | k + 1, sc =>
    if sc.rx.remove = rxcurr then some sc
    else (rxTurn hdr0 sc).bind (rxTurns hdr0 rxcurr k)

/-- The current descriptor in `R_RCV_STATUS`, `rcv` slots behind the remove pointer. -/
def rxCurr (sc : Softc) (rcv : Fin maxrxdscr) : Fin maxrxdscr := advance sc.rx.remove rcv

def bcm4401Procrxring (sc : Softc) (rcv : Fin maxrxdscr) (hdr0 : ℕ → BitVec 32) :
    Option Softc :=
  let rxcurr := rxCurr sc rcv
  rxTurns hdr0 rxcurr (gap sc.rx.remove rxcurr) sc

/-! ### Transmitting -/

def writeTx (sc : Softc) (i : Fin maxtxdscr) (pkt : PktId) : Softc :=
  { sc with
    tx := sc.tx.write i ⟨some pkt, sc.hist.handovers⟩
    hist := { sc.hist with handovers := sc.hist.handovers + 1 } }

def storeTxAdd (sc : Softc) (i : Fin maxtxdscr) : Softc := { sc with tx := sc.tx.storeAdd i }

def putTx (sc : Softc) (pkt : PktId) : Softc :=
  storeTxAdd (writeTx sc sc.tx.add pkt) sc.tx.add

def bcm4401AddTxbuf (sc : Softc) (pkt : PktId) : Softc × ℤ :=
  if sc.tx.full then (sc, -1) else (putTx sc pkt, 0)

def bcm4401Transmit (sc : Softc) (pkt : PktId) : Softc × ℤ := bcm4401AddTxbuf sc pkt

def storeTxRemove (sc : Softc) (i : Fin maxtxdscr) : Softc :=
  { sc with tx := sc.tx.storeRemove i }

def dropTx (sc : Softc) : Softc := storeTxRemove sc sc.tx.remove

/-- One turn of the loop of `bcm4401_proctxring`. -/
def txTurn (sc : Softc) : Option Softc :=
  match sc.tx.head with
  | ⟨none, _⟩ => none
  | ⟨some pkt, stay⟩ => some (dropTx (freeStay sc pkt stay))

def txTurns (txcurr : Fin maxtxdscr) : ℕ → Softc → Option Softc
  | 0, sc => some sc
  | k + 1, sc =>
    if sc.tx.remove = txcurr then some sc else (txTurn sc).bind (txTurns txcurr k)

/-- The current descriptor in `R_XMT_STATUS` when the engine has sent `xmt` descriptors. -/
def txCurr (sc : Softc) (xmt : ℕ) : Fin maxtxdscr := advance sc.tx.remove (min xmt sc.tx.count)

def bcm4401Proctxring (sc : Softc) (xmt : ℕ) : Option Softc :=
  let txcurr := txCurr sc xmt
  txTurns txcurr (gap sc.tx.remove txcurr) sc

/-! ### Initialization -/

/-- `bcm4401_initrings`; the rings are empty and no descriptor points to a buffer. -/
def bcm4401Initrings (sc : Softc) : Softc :=
  bcm4401Fillrxring { sc with
    rx := ⟨fun _ => ⟨none, 0⟩, 0, 0⟩
    tx := ⟨fun _ => ⟨none, 0⟩, 0, 0⟩
    rxdscrOnring := 0 }

/-- `bcm4401_init` when there is memory for the pool, and then what the caller makes of `state`
and `intmask`. -/
def bcm4401Init (state : EthState) (intmask : BitVec 32) : Softc :=
  bcm4401Initrings (ethInitfreelist {
    state := state
    intmask := intmask
    freelist := []
    length := fun _ => 0
    rx := ⟨fun _ => ⟨none, 0⟩, 0, 0⟩
    rxdscrOnring := 0
    tx := ⟨fun _ => ⟨none, 0⟩, 0, 0⟩
    slowPoll := false
    hist := Hist.empty })

/-! ### The interrupt routine and the output routine -/

/-- What the device shows to one round of `bcm4401_isr`: the interrupt status, the places of the
two DMA engines and the headers of the frames. -/
structure Round where
  status : BitVec 32
  rcv : Fin maxrxdscr
  hdr0 : ℕ → BitVec 32
  xmt : ℕ

def isrRx (status : BitVec 32) (r : Round) (sc : Softc) : Option Softc :=
  if status &&& mIntRi ≠ 0 then bcm4401Procrxring sc r.rcv r.hdr0 else some sc

def isrTx (status : BitVec 32) (r : Round) (sc : Softc) : Option Softc :=
  if status &&& mIntXi ≠ 0 then bcm4401Proctxring sc r.xmt else some sc

def isrTo (status : BitVec 32) (sc : Softc) : Softc :=
  if status &&& mIntTo ≠ 0 then { sc with slowPoll := true } else sc

/-- One round of the loop of `bcm4401_isr`. -/
def isrRound (sc : Softc) (status : BitVec 32) (r : Round) : Option Softc :=
  (isrRx status r sc).bind fun sc => (isrTx status r sc).map (isrTo status)

/-- The loop ends with the first round that shows no interrupt; behind the last round listed no
interrupt is pending. -/
def bcm4401Isr : List Round → Softc → Option Softc
  | [], sc => some sc
  | r :: rounds, sc =>
    let status := r.status &&& sc.intmask
    if status = 0 then some sc
    else (isrRound sc status r).bind (bcm4401Isr rounds)

/-- What `cfe_output` does between its two polls. -/
def outputBody (sc : Softc) (bufLength : ℤ) : Softc × ℤ :=
  match ethAllocPkt sc with
  | (sc, none) => (sc, cfeErrNomem)
  | (sc, some pkt) =>
    let blen := if bufLength > sc.length pkt then sc.length pkt else bufLength
    let (sc, r) := bcm4401Transmit (setLength sc pkt blen) pkt
    if r ≠ 0 then (ethFreePkt sc pkt, cfeErrIoerr) else (sc, 0)

/-- The value returned comes with the state. -/
def cfeOutput (bufLength : ℤ) (before after : List Round) (sc : Softc) : Option (Softc × ℤ) :=
  (bcm4401Isr before sc).bind fun sc =>
    if sc.state ≠ .on then some (sc, -1)
    else
      let (sc, r) := outputBody sc bufLength
      if r ≠ 0 then some (sc, r) else (bcm4401Isr after sc).map fun sc => (sc, 0)

end BcmMruby.Mac
