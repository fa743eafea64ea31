import BcmMruby.Core.Run
import BcmMruby.Mac.Basic

/-!
# The main program and the interrupt

`cfe_output` calls `bcm4401_isr` before and after it queues a packet, and the Ethernet interrupt
calls the same routine at any moment in between. Here the main program takes one access to the
shared data after the other; a section between `CS_ENTER` and `CS_EXIT` is one step, and so is
the whole run of an interrupt. `Loc` is where the main program stands, together with what it has
in its registers there.

`uninterrupted_cfeOutput` connects the machine with the routine of the source: left alone, the
main program runs through `cfe_output`.
-/

namespace BcmMruby.Mac

open Core

/-! ### The main program, step by step -/

/-- What a round of `bcm4401_isr` keeps in registers: the length of the packet to be queued
afterwards, if it is the first of the two polls, and the interrupt status. -/
structure Ctx where
  poll : Option ℤ
  status : BitVec 32

inductive Loc where
  | idle
  /-- Before the read of the interrupt status. -/
  | isrTop (poll : Option ℤ)
  /-- Before the read of `R_RCV_STATUS`. -/
  | rxBegin (c : Ctx)
  /-- Before the load of `rxdscr_remove`. -/
  | rxHead (c : Ctx) (rxcurr : Fin maxrxdscr)
  /-- Before the load of `rxd_bufptr`. -/
  | rxDscr (c : Ctx) (rxcurr rxd : Fin maxrxdscr)
  /-- Before the load of the receive header. -/
  | rxHdr (c : Ctx) (rxcurr rxd : Fin maxrxdscr) (pkt : PktId) (stay : ℕ)
  /-- Before the section with `net_rcv`. -/
  | rxPass (c : Ctx) (rxcurr rxd : Fin maxrxdscr) (pkt : PktId) (stay : ℕ)
  /-- Before the section of `eth_free_pkt`. -/
  | rxFree (c : Ctx) (rxcurr rxd : Fin maxrxdscr) (pkt : PktId) (stay : ℕ)
  /-- Before the section of `eth_alloc_pkt`. -/
  | rxAlloc (c : Ctx) (rxcurr rxd : Fin maxrxdscr)
  /-- Before the store to `rxdscr_remove`. -/
  | rxStore (c : Ctx) (rxcurr rxd : Fin maxrxdscr) (newpkt : Option PktId)
  /-- Before the load of `rxdscr_add`. -/
  | rxAdd (c : Ctx) (rxcurr : Fin maxrxdscr) (newpkt : PktId)
  /-- Before the comparison with `rxdscr_remove`. -/
  | rxAddTest (c : Ctx) (rxcurr : Fin maxrxdscr) (newpkt : PktId) (rxd : Fin maxrxdscr)
  /-- Before the store to `rxd_bufptr`. -/
  | rxAddWrite (c : Ctx) (rxcurr : Fin maxrxdscr) (newpkt : PktId) (rxd : Fin maxrxdscr)
  /-- Before the store to `rxdscr_add`. -/
  | rxAddStore (c : Ctx) (rxcurr : Fin maxrxdscr) (newpkt : PktId) (rxd : Fin maxrxdscr)
    (stay : ℕ)
  /-- Before the section that counts down `rxdscr_onring`. -/
  | rxDec (c : Ctx) (rxcurr : Fin maxrxdscr)
  /-- Before the read of `R_XMT_STATUS`. -/
  | txBegin (c : Ctx)
  /-- Before the load of `txdscr_remove`. -/
  | txHead (c : Ctx) (txcurr : Fin maxtxdscr)
  /-- Before the load of `txd_bufptr`. -/
  | txDscr (c : Ctx) (txcurr txd : Fin maxtxdscr)
  /-- Before the section of `eth_free_pkt`. -/
  | txFree (c : Ctx) (txcurr txd : Fin maxtxdscr) (pkt : PktId) (stay : ℕ)
  /-- Before the store to `txdscr_remove`. -/
  | txStore (c : Ctx) (txcurr txd : Fin maxtxdscr)
  /-- At the end of a round. -/
  | isrEnd (c : Ctx)
  /-- Before the test of `state`. -/
  | outState (bufLength : ℤ)
  /-- Before the section of `eth_alloc_pkt`. -/
  | outAlloc (bufLength : ℤ)
  /-- Before the buffer is filled. -/
  | outFill (bufLength : ℤ) (pkt : PktId)
  /-- Before the load of `txdscr_add`. -/
  | outAdd (pkt : PktId)
  /-- Before the comparison with `txdscr_remove`. -/
  | outAddTest (pkt : PktId) (txd : Fin maxtxdscr)
  /-- Before the store to `txd_bufptr`. -/
  | outAddWrite (pkt : PktId) (txd : Fin maxtxdscr)
  /-- Before the store to `txdscr_add`. -/
  | outAddStore (pkt : PktId) (txd : Fin maxtxdscr) (stay : ℕ)
  /-- Before the section of `eth_free_pkt`. -/
  | outFail (pkt : PktId)

/-- What a step may find: the length `cfe_output` is called with, the interrupt status, the
places of the two DMA engines and the receive header. -/
structure Input where
  bufLength : ℤ
  status : BitVec 32
  rcv : Fin maxrxdscr
  xmt : ℕ
  hdr0 : BitVec 32

/-- Where `cfe_output` goes on after a poll. -/
def Loc.afterIsr : Option ℤ → Loc
  | some bufLength => .outState bufLength
  | none => .idle

def recordReplaced (sc : Softc) (r : Option ℤ) : Softc :=
  { sc with hist := { sc.hist with replaced := sc.hist.replaced ++ [r] } }

def mainStep (inp : Input) (sc : Softc) : Loc → Option (Softc × Loc)
  | .idle => some (sc, .isrTop (some inp.bufLength))
  | .isrTop poll =>
    let status := inp.status &&& sc.intmask
    if status = 0 then some (sc, .afterIsr poll)
    else some (sc, .rxBegin ⟨poll, status⟩)
  | .rxBegin c =>
    if c.status &&& mIntRi ≠ 0 then some (sc, .rxHead c (rxCurr sc inp.rcv))
    else some (sc, .txBegin c)
  | .rxHead c rxcurr =>
    if sc.rx.remove = rxcurr then some (sc, .txBegin c)
    else some (sc, .rxDscr c rxcurr sc.rx.remove)
  | .rxDscr c rxcurr rxd =>
    match sc.rx.slot rxd with
    | ⟨none, _⟩ => none
    | ⟨some pkt, stay⟩ => some (sc, .rxHdr c rxcurr rxd pkt stay)
  | .rxHdr c rxcurr rxd pkt stay =>
    if inp.hdr0 &&& mRcvhdr0Errors ≠ 0 then
      some (recycle sc stay, .rxStore c rxcurr rxd (some pkt))
    else
      some (setLength sc pkt (gRcvhdr0Cd inp.hdr0 - enetCrcSize), .rxPass c rxcurr rxd pkt stay)
  | .rxPass c rxcurr rxd pkt stay => some (passUp sc pkt stay, .rxFree c rxcurr rxd pkt stay)
  | .rxFree c rxcurr rxd pkt stay => some (freeStay sc pkt stay, .rxAlloc c rxcurr rxd)
  | .rxAlloc c rxcurr rxd =>
    let (sc, newpkt) := ethAllocPkt sc
    some (sc, .rxStore c rxcurr rxd newpkt)
  | .rxStore c rxcurr rxd newpkt =>
    match newpkt with
    | some newpkt => some (storeRxRemove sc rxd, .rxAdd c rxcurr newpkt)
    | none => some (storeRxRemove sc rxd, .rxDec c rxcurr)
  | .rxAdd c rxcurr newpkt => some (sc, .rxAddTest c rxcurr newpkt sc.rx.add)
  | .rxAddTest c rxcurr newpkt rxd =>
    if wrapSucc rxd = sc.rx.remove then some (recordReplaced sc (some (-1)), .rxHead c rxcurr)
    else some (sc, .rxAddWrite c rxcurr newpkt rxd)
  | .rxAddWrite c rxcurr newpkt rxd =>
    some (writeRx sc rxd newpkt, .rxAddStore c rxcurr newpkt rxd sc.hist.handovers)
  | .rxAddStore c rxcurr _ rxd _ =>
    some (recordReplaced (storeRxAdd sc rxd) (some 0), .rxHead c rxcurr)
  | .rxDec c rxcurr =>
    some (recordReplaced { sc with rxdscrOnring := sc.rxdscrOnring - 1 } none, .rxHead c rxcurr)
  | .txBegin c =>
    if c.status &&& mIntXi ≠ 0 then some (sc, .txHead c (txCurr sc inp.xmt))
    else some (sc, .isrEnd c)
  | .txHead c txcurr =>
    if sc.tx.remove = txcurr then some (sc, .isrEnd c)
    else some (sc, .txDscr c txcurr sc.tx.remove)
  | .txDscr c txcurr txd =>
    match sc.tx.slot txd with
    | ⟨none, _⟩ => none
    | ⟨some pkt, stay⟩ => some (sc, .txFree c txcurr txd pkt stay)
  | .txFree c txcurr txd pkt stay => some (freeStay sc pkt stay, .txStore c txcurr txd)
  | .txStore c txcurr txd => some (storeTxRemove sc txd, .txHead c txcurr)
  | .isrEnd c => some (isrTo c.status sc, .isrTop c.poll)
  | .outState bufLength =>
    if sc.state ≠ .on then some (sc, .idle) else some (sc, .outAlloc bufLength)
  | .outAlloc bufLength =>
    match ethAllocPkt sc with
    | (sc, none) => some (sc, .idle)
    | (sc, some pkt) => some (sc, .outFill bufLength pkt)
  | .outFill bufLength pkt =>
    let blen := if bufLength > sc.length pkt then sc.length pkt else bufLength
    some (setLength sc pkt blen, .outAdd pkt)
  | .outAdd pkt => some (sc, .outAddTest pkt sc.tx.add)
  | .outAddTest pkt txd =>
    if wrapSucc txd = sc.tx.remove then some (sc, .outFail pkt)
    else some (sc, .outAddWrite pkt txd)
  | .outAddWrite pkt txd => some (writeTx sc txd pkt, .outAddStore pkt txd sc.hist.handovers)
  | .outAddStore _ txd _ => some (storeTxAdd sc txd, .isrTop none)
  | .outFail pkt => some (ethFreePkt sc pkt, .idle)

structure State where
  sc : Softc
  loc : Loc

/-- The main program is about to call `cfe_output` for the first time. -/
def start (state : EthState) (intmask : BitVec 32) : State :=
  ⟨bcm4401Init state intmask, .idle⟩

inductive Act where
  /-- The main program takes its next step. -/
  | main (inp : Input)
  /-- The Ethernet interrupt runs `bcm4401_isr`. -/
  | interrupt (rounds : List Round)

def act (s : State) : Act → Option State
  | .main inp => (mainStep inp s.sc s.loc).map fun p => ⟨p.1, p.2⟩
  | .interrupt rounds => (bcm4401Isr rounds s.sc).map fun sc => ⟨sc, s.loc⟩

/-! ### Uninterrupted runs -/

/-- The main program goes from one state to another without an interrupt. -/
def Uninterrupted : State → State → Prop :=
  Relation.ReflTransGen fun s s' => ∃ inp, act s (.main inp) = some s'

lemma Uninterrupted.head {sc sc' : Softc} {l l' : Loc} {t : State} (inp : Input)
    (hs : mainStep inp sc l = some (sc', l')) (h : Uninterrupted ⟨sc', l'⟩ t) :
    Uninterrupted ⟨sc, l⟩ t :=
  Relation.ReflTransGen.head ⟨inp, by rw [act, hs]; rfl⟩ h

lemma Uninterrupted.trans {s t u : State} (h₁ : Uninterrupted s t) (h₂ : Uninterrupted t u) :
    Uninterrupted s u :=
  Relation.ReflTransGen.trans h₁ h₂

lemma Uninterrupted.refl (s : State) : Uninterrupted s s := Relation.ReflTransGen.refl

/-- Nothing to be seen. -/
def quiet : Input := ⟨64, 0, 0, 0, 0⟩

variable {sc sc' : Softc} {c : Ctx}

@[simp] lemma ethAllocPkt_rx (sc : Softc) : (ethAllocPkt sc).1.rx = sc.rx := by
  rw [ethAllocPkt]
  split <;> rfl

@[simp] lemma replaceRx_remove (sc : Softc) (newpkt : Option PktId) :
    (replaceRx sc newpkt).rx.remove = sc.rx.remove := by
  cases newpkt with
  | none => rfl
  | some newpkt =>
    rw [replaceRx, bcm4401AddRcvbuf]
    split_ifs <;> rfl

lemma uninterrupted_replaceRx {rxcurr rxd : Fin maxrxdscr} {newpkt : Option PktId} :
    Uninterrupted ⟨sc, .rxStore c rxcurr rxd newpkt⟩
      ⟨replaceRx (storeRxRemove sc rxd) newpkt, .rxHead c rxcurr⟩ := by
  cases newpkt with
  | none => exact .head quiet rfl (.head quiet rfl (.refl _))
  | some newpkt =>
    refine .head quiet rfl (.head quiet rfl ?_)
    rw [replaceRx, bcm4401AddRcvbuf]
    split_ifs with hfull
    · exact .head quiet (if_pos hfull) (.refl _)
    · exact .head quiet (if_neg hfull) (.head quiet rfl (.head quiet rfl (.refl _)))

lemma uninterrupted_rxTurn {hdr0 : ℕ → BitVec 32} {rxcurr : Fin maxrxdscr}
    (hs : rxTurn hdr0 sc = some sc') (hcurr : sc.rx.remove ≠ rxcurr) :
    Uninterrupted ⟨sc, .rxHead c rxcurr⟩ ⟨sc', .rxHead c rxcurr⟩ ∧
      sc'.rx.remove = wrapSucc sc.rx.remove := by
  rw [rxTurn] at hs
  split at hs
  · cases hs
  · next pkt stay hhead =>
    have hslot : sc.rx.slot sc.rx.remove = ⟨some pkt, stay⟩ := hhead
    have hload : mainStep quiet sc (.rxDscr c rxcurr sc.rx.remove) =
        some (sc, .rxHdr c rxcurr sc.rx.remove pkt stay) := by rw [mainStep, hslot]
    let inp : Input := { quiet with hdr0 := hdr0 stay }
    split_ifs at hs with herr
    · cases hs
      refine ⟨.head quiet (if_neg hcurr) (.head quiet hload ?_), by simp; rfl⟩
      exact .head inp (if_pos herr) uninterrupted_replaceRx
    · let sc₁ := bcm4401RxCallback
        (setLength sc pkt (gRcvhdr0Cd (hdr0 stay) - enetCrcSize)) pkt stay
      have hrx : (ethAllocPkt sc₁).1.rx = sc.rx := ethAllocPkt_rx sc₁
      have hend : sc' = replaceRx (storeRxRemove (ethAllocPkt sc₁).1 sc.rx.remove)
          (ethAllocPkt sc₁).2 := by
        rw [← hrx]
        exact (Option.some.inj hs).symm
      subst hend
      refine ⟨.head quiet (if_neg hcurr) (.head quiet hload ?_), by simp; rfl⟩
      exact .head inp (if_neg herr) (.head quiet rfl (.head quiet rfl (.head quiet rfl
        uninterrupted_replaceRx)))

/-- The loop of `bcm4401_procrxring`. -/
lemma uninterrupted_rxTurns {hdr0 : ℕ → BitVec 32} {rxcurr : Fin maxrxdscr} {k : ℕ}
    (hs : rxTurns hdr0 rxcurr k sc = some sc') (hgap : gap sc.rx.remove rxcurr = k) :
    Uninterrupted ⟨sc, .rxHead c rxcurr⟩ ⟨sc', .txBegin c⟩ := by
  induction k generalizing sc with
  | zero =>
    cases hs
    exact .head quiet (if_pos (gap_eq_zero_iff.mp hgap)) (.refl _)
  | succ k ih =>
    have hcurr : sc.rx.remove ≠ rxcurr := fun heq => by simp [heq] at hgap
    rw [rxTurns, if_neg hcurr] at hs
    obtain ⟨sc₁, hturn, hrest⟩ := Option.bind_eq_some_iff.mp hs
    obtain ⟨hsteps, hremove⟩ := uninterrupted_rxTurn hturn hcurr
    have hgap₁ : gap sc₁.rx.remove rxcurr = k := by
      have := gap_wrapSucc_left hcurr
      rw [hremove]
      omega
    exact hsteps.trans (ih hrest hgap₁)

/-- The loop of `bcm4401_proctxring`. -/
lemma uninterrupted_txTurns {txcurr : Fin maxtxdscr} {k : ℕ}
    (hs : txTurns txcurr k sc = some sc') (hgap : gap sc.tx.remove txcurr = k) :
    Uninterrupted ⟨sc, .txHead c txcurr⟩ ⟨sc', .isrEnd c⟩ := by
  induction k generalizing sc with
  | zero =>
    cases hs
    exact .head quiet (if_pos (gap_eq_zero_iff.mp hgap)) (.refl _)
  | succ k ih =>
    have hcurr : sc.tx.remove ≠ txcurr := fun heq => by simp [heq] at hgap
    rw [txTurns, if_neg hcurr] at hs
    obtain ⟨sc₁, hturn, hrest⟩ := Option.bind_eq_some_iff.mp hs
    rw [txTurn] at hturn
    split at hturn
    · cases hturn
    · next pkt stay hhead =>
      have hslot : sc.tx.slot sc.tx.remove = ⟨some pkt, stay⟩ := hhead
      have hload : mainStep quiet sc (.txDscr c txcurr sc.tx.remove) =
          some (sc, .txFree c txcurr sc.tx.remove pkt stay) := by rw [mainStep, hslot]
      cases hturn
      have hgap₁ : gap (wrapSucc sc.tx.remove) txcurr = k := by
        have := gap_wrapSucc_left hcurr
        omega
      exact .head quiet (if_neg hcurr) (.head quiet hload (.head quiet rfl (.head quiet rfl
        (ih hrest hgap₁))))

lemma uninterrupted_isrRound {poll : Option ℤ} {status : BitVec 32} {r : Round}
    (hs : isrRound sc status r = some sc') :
    Uninterrupted ⟨sc, .rxBegin ⟨poll, status⟩⟩ ⟨sc', .isrTop poll⟩ := by
  obtain ⟨sc₁, hrx, hs⟩ := Option.bind_eq_some_iff.mp hs
  obtain ⟨sc₂, htx, rfl⟩ := Option.map_eq_some_iff.mp hs
  have hrx : Uninterrupted ⟨sc, .rxBegin ⟨poll, status⟩⟩ ⟨sc₁, .txBegin ⟨poll, status⟩⟩ := by
    rw [isrRx] at hrx
    split_ifs at hrx with hri
    · let inp : Input := { quiet with rcv := r.rcv }
      exact .head inp (if_pos hri) (uninterrupted_rxTurns hrx rfl)
    · cases hrx
      exact .head quiet (if_neg hri) (.refl _)
  have htx : Uninterrupted ⟨sc₁, .txBegin ⟨poll, status⟩⟩ ⟨sc₂, .isrEnd ⟨poll, status⟩⟩ := by
    rw [isrTx] at htx
    split_ifs at htx with hxi
    · let inp : Input := { quiet with xmt := r.xmt }
      exact .head inp (if_pos hxi) (uninterrupted_txTurns htx rfl)
    · cases htx
      exact .head quiet (if_neg hxi) (.refl _)
  exact hrx.trans (htx.trans (.head quiet rfl (.refl _)))

lemma uninterrupted_isr {poll : Option ℤ} {rounds : List Round}
    (hs : bcm4401Isr rounds sc = some sc') :
    Uninterrupted ⟨sc, .isrTop poll⟩ ⟨sc', .afterIsr poll⟩ := by
  induction rounds generalizing sc with
  | nil =>
    cases hs
    exact .head quiet (if_pos BitVec.zero_and) (.refl _)
  | cons r rounds ih =>
    let inp : Input := { quiet with status := r.status }
    simp only [bcm4401Isr] at hs
    split_ifs at hs with hstatus
    · cases hs
      exact .head inp (if_pos hstatus) (.refl _)
    · obtain ⟨sc₁, hround, hrest⟩ := Option.bind_eq_some_iff.mp hs
      exact .head inp (if_neg hstatus) ((uninterrupted_isrRound hround).trans (ih hrest))

lemma uninterrupted_outputBody {bufLength r : ℤ} (hs : outputBody sc bufLength = (sc', r)) :
    Uninterrupted ⟨sc, .outAlloc bufLength⟩ ⟨sc', if r ≠ 0 then .idle else .isrTop none⟩ := by
  rw [outputBody] at hs
  cases halloc : ethAllocPkt sc with
  | mk sc₁ pkt =>
    rw [halloc] at hs
    cases pkt with
    | none =>
      have hnext : mainStep quiet sc (.outAlloc bufLength) = some (sc₁, .idle) := by
        rw [mainStep, halloc]
      cases hs
      exact .head quiet hnext (.refl _)
    | some pkt =>
      have hnext : mainStep quiet sc (.outAlloc bufLength) =
          some (sc₁, .outFill bufLength pkt) := by
        rw [mainStep, halloc]
      refine .head quiet hnext (.head quiet rfl (.head quiet rfl ?_))
      dsimp only at hs
      generalize (if bufLength > sc₁.length pkt then sc₁.length pkt else bufLength) = blen
        at hs ⊢
      by_cases hfull : (setLength sc₁ pkt blen).tx.full
      · rw [show bcm4401Transmit (setLength sc₁ pkt blen) pkt = _ from if_pos hfull] at hs
        cases hs
        exact .head quiet (if_pos hfull) (.head quiet rfl (.refl _))
      · rw [show bcm4401Transmit (setLength sc₁ pkt blen) pkt = _ from if_neg hfull] at hs
        cases hs
        exact .head quiet (if_neg hfull) (.head quiet rfl (.head quiet rfl (.refl _)))

/-- Left alone, the main program runs through `cfe_output`. -/
theorem uninterrupted_cfeOutput {bufLength r : ℤ} {before after : List Round}
    (hs : cfeOutput bufLength before after sc = some (sc', r)) :
    Uninterrupted ⟨sc, .idle⟩ ⟨sc', .idle⟩ := by
  obtain ⟨sc₁, hbefore, hs⟩ := Option.bind_eq_some_iff.mp hs
  let inp : Input := { quiet with bufLength := bufLength }
  refine .head inp rfl ((uninterrupted_isr hbefore).trans ?_)
  split_ifs at hs with hstate
  · cases hs
    exact .head quiet (if_pos hstate) (.refl _)
  · cases hout : outputBody sc₁ bufLength with
    | mk sc₂ r₂ =>
      rw [hout] at hs
      refine .head quiet (if_neg hstate) ((uninterrupted_outputBody hout).trans ?_)
      dsimp only at hs
      split_ifs at hs ⊢ with hr
      · cases hs
        exact .refl _
      · obtain ⟨sc₃, hafter, hend⟩ := Option.map_eq_some_iff.mp hs
        cases hend
        exact uninterrupted_isr hafter

end BcmMruby.Mac
