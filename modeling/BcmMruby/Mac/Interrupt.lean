import BcmMruby.Mac.Machine
import BcmMruby.Mac.Ownership

/-!
# Polling and interrupts

`Calm` says which interrupts do no harm to the main program: while it is between its load and its
store of a pointer, the interrupt takes nothing off that ring, and while it works through the
descriptors sent, the interrupt takes no more than it has found itself. In a run of calm
interrupts the account of `Ownership` stays right at every place of the main program, and every
descriptor is handled once.
-/

namespace BcmMruby.Mac

open Core

/-! ### Calm interrupts -/

/-- The main program is between the load and the store of `rxdscr_remove`, or of `rxdscr_add`. -/
def Loc.rxBusy : Loc → Prop
  | .rxDscr .. | .rxHdr .. | .rxPass .. | .rxFree .. | .rxAlloc .. | .rxStore .. => True
  | .rxAddTest .. | .rxAddWrite .. | .rxAddStore .. => True
  | _ => False

/-- How many descriptors may be taken off the transmit ring at this point: none between the load
and the store of `txdscr_remove`, and those the main program has found sent before the load. -/
def Loc.txRoom (tx : Ring maxtxdscr Dscr) : Loc → ℕ
  | .txHead _ txcurr => gap tx.remove txcurr
  | .txDscr .. | .txFree .. | .txStore .. => 0
  | _ => tx.count

def Calm (s : State) : Act → Prop
  | .main _ => True
  | .interrupt rounds =>
    (s.loc.rxBusy → rcvTotal s.sc.intmask rounds = 0) ∧
      min (xmtTotal s.sc.intmask rounds) s.sc.tx.count ≤ s.loc.txRoom s.sc.tx

/-! ### What the main program relies on -/

/-- What the main program has in its hand. -/
def Loc.hand : Loc → Hand
  | .rxFree _ _ _ _ stay => { Hand.empty with opened := [stay] }
  | .rxAlloc .. => { Hand.empty with rxTaken := 1 }
  | .rxStore _ _ _ newpkt => { Hand.empty with rxTaken := 1, held := newpkt.toList }
  | .rxAdd _ _ newpkt | .rxAddTest _ _ newpkt _ | .rxAddWrite _ _ newpkt _ =>
    { Hand.empty with held := [newpkt], rxOut := 1 }
  | .rxAddStore _ _ newpkt _ stay =>
    { Hand.empty with held := [newpkt], rxOut := 1, loose := [stay] }
  | .txStore .. => { Hand.empty with txTaken := 1 }
  | .outFill _ pkt | .outAdd pkt | .outAddTest pkt _ | .outAddWrite pkt _ | .outFail pkt =>
    { Hand.empty with held := [pkt] }
  | .outAddStore pkt _ stay => { Hand.empty with held := [pkt], loose := [stay] }
  | _ => Hand.empty

/-- What it knows of the receive ring. `rxDec` is not reached. -/
def Loc.rxFact (rx : Ring maxrxdscr Dscr) : Loc → Prop
  | .rxDscr _ _ rxd | .rxAlloc _ _ rxd => rx.remove = rxd
  | .rxHdr _ _ rxd pkt stay | .rxPass _ _ rxd pkt stay | .rxFree _ _ rxd pkt stay =>
    rx.remove = rxd ∧ rx.head = ⟨some pkt, stay⟩
  | .rxStore _ _ rxd newpkt => rx.remove = rxd ∧ newpkt ≠ none
  | .rxAddTest _ _ _ rxd => rx.add = rxd
  | .rxAddWrite _ _ _ rxd => rx.add = rxd ∧ ¬ rx.full
  | .rxAddStore _ _ newpkt rxd stay =>
    rx.add = rxd ∧ ¬ rx.full ∧ rx.slot rxd = ⟨some newpkt, stay⟩
  | .rxDec .. => False
  | _ => True

/-- What it knows of the transmit ring. -/
def Loc.txFact (tx : Ring maxtxdscr Dscr) : Loc → Prop
  | .txHead _ txcurr => gap tx.remove txcurr ≤ tx.count
  | .txDscr _ txcurr txd | .txStore _ txcurr txd =>
    tx.remove = txd ∧ txd ≠ txcurr ∧ gap txd txcurr ≤ tx.count
  | .txFree _ txcurr txd pkt stay =>
    tx.remove = txd ∧ txd ≠ txcurr ∧ gap txd txcurr ≤ tx.count ∧ tx.head = ⟨some pkt, stay⟩
  | .outAddTest _ txd => tx.add = txd
  | .outAddWrite _ txd => tx.add = txd ∧ ¬ tx.full
  | .outAddStore pkt txd stay => tx.add = txd ∧ ¬ tx.full ∧ tx.slot txd = ⟨some pkt, stay⟩
  | _ => True

/-- The buffer just freed is there to be allocated again. -/
def Loc.free : Loc → ℕ
  | .rxAlloc .. => 1
  | _ => 0

lemma Loc.of_not_rxBusy (l : Loc) (hb : ¬ l.rxBusy) (rx : Ring maxrxdscr Dscr)
    (hfact : l.rxFact rx) :
    l.hand.rxTaken = 0 ∧ l.hand.opened = [] ∧ l.free = 0 ∧ ∀ r, l.rxFact r := by
  cases l <;> simp_all [Loc.rxBusy, Loc.hand, Loc.free, Loc.rxFact, Hand.empty]

/-- The interrupt may take a descriptor off the transmit ring as long as there is room. -/
lemma Loc.txFact_drop (l : Loc) (tx : Ring maxtxdscr Dscr) (hfact : l.txFact tx)
    (hroom : 0 < l.txRoom tx) (hne : tx.remove ≠ tx.add) :
    l.hand.txTaken = 0 ∧ l.txFact tx.drop ∧ l.txRoom tx.drop + 1 = l.txRoom tx := by
  have hcount := Ring.count_drop hne
  cases l with
  | txHead c txcurr =>
    simp only [Loc.txFact, Loc.txRoom, Ring.drop_remove] at hfact hroom ⊢
    have hcurr : tx.remove ≠ txcurr := fun heq => by simp [heq] at hroom
    have hgap := gap_wrapSucc_left hcurr
    exact ⟨rfl, by omega, by omega⟩
  | txDscr c txcurr txd => simp [Loc.txRoom] at hroom
  | txFree c txcurr txd pkt stay => simp [Loc.txRoom] at hroom
  | txStore c txcurr txd => simp [Loc.txRoom] at hroom
  | outAddTest pkt txd => exact ⟨rfl, hfact, hcount⟩
  | outAddWrite pkt txd => exact ⟨rfl, ⟨hfact.1, Ring.not_full_drop hfact.2 hne⟩, hcount⟩
  | outAddStore pkt txd stay =>
    exact ⟨rfl, ⟨hfact.1, Ring.not_full_drop hfact.2.1 hne, hfact.2.2⟩, hcount⟩
  | _ => exact ⟨rfl, trivial, hcount⟩

def Loc.rely (l : Loc) : Rely l.hand where
  busy := l.rxBusy
  rx := fun rx => l.rxFact rx
  tx := fun tx => l.txFact tx
  room := fun tx => l.txRoom tx
  free := l.free
  of_not_busy := l.of_not_rxBusy
  tx_drop := l.txFact_drop

/-- The account is right, with what the main program has in its hand, and it knows what it
relies on. -/
def Sound (s : State) : Prop := s.loc.rely.Holds s.sc

lemma Sound.interrupt {s s' : State} {rounds : List Round} (H : Sound s)
    (hcalm : Calm s (.interrupt rounds)) (hs : act s (.interrupt rounds) = some s') :
    Sound s' := by
  have hout : s.loc.hand.rxOut ≤ 1 := by cases s.loc <;> simp [Loc.hand, Hand.empty]
  obtain ⟨sc', hisr, H', -⟩ := isr_spec s.loc.rely hout H hcalm
  simp only [act, hisr, Option.map_some, Option.some.injEq] at hs
  exact hs ▸ H'

/-! ### Steps of the main program -/

section Steps

variable {inp : Input} {sc sc' : Softc} {l' : Loc}

lemma sound_rxDscr {c : Ctx} {rxcurr rxd : Fin maxrxdscr}
    (H : (Loc.rxDscr c rxcurr rxd).rely.Holds sc)
    (hs : mainStep inp sc (.rxDscr c rxcurr rxd) = some (sc', l')) : l'.rely.Holds sc' := by
  have hrxd : sc.rx.remove = rxd := H.rx
  rw [mainStep] at hs
  split at hs
  · cases hs
  · next pkt stay hslot =>
    cases hs
    exact ⟨H.inv, H.charged, ⟨hrxd, by rw [Ring.head, hrxd, hslot]⟩, trivial, Nat.zero_le _⟩

lemma sound_rxHdr {c : Ctx} {rxcurr rxd : Fin maxrxdscr} {pkt : PktId} {stay : ℕ}
    (H : (Loc.rxHdr c rxcurr rxd pkt stay).rely.Holds sc)
    (hs : mainStep inp sc (.rxHdr c rxcurr rxd pkt stay) = some (sc', l')) :
    l'.rely.Holds sc' := by
  obtain ⟨hrxd, hhead⟩ := H.rx
  have hstay : sc.rx.head.stay = stay := congrArg Dscr.stay hhead
  have hne := H.inv.rx_ne H.charged (Nat.zero_le 1)
  rw [mainStep] at hs
  split_ifs at hs
  · cases hs
    subst hstay
    have hinv := H.inv.recycle rfl hne (congrArg Dscr.bufptr hhead)
    exact ⟨hinv, H.charged, ⟨hrxd, by simp⟩, trivial, Nat.zero_le _⟩
  · cases hs
    exact ⟨H.inv.setLength pkt _, H.charged, ⟨hrxd, hhead⟩, trivial, Nat.zero_le _⟩

lemma sound_rxPass {c : Ctx} {rxcurr rxd : Fin maxrxdscr} {pkt : PktId} {stay : ℕ}
    (H : (Loc.rxPass c rxcurr rxd pkt stay).rely.Holds sc)
    (hs : mainStep inp sc (.rxPass c rxcurr rxd pkt stay) = some (sc', l')) :
    l'.rely.Holds sc' := by
  obtain ⟨hrxd, hhead⟩ := H.rx
  have hstay : sc.rx.head.stay = stay := congrArg Dscr.stay hhead
  have hne := H.inv.rx_ne H.charged (Nat.zero_le 1)
  cases hs
  subst hstay
  exact ⟨H.inv.passUp rfl rfl hne pkt, H.charged, ⟨hrxd, hhead⟩, trivial, Nat.zero_le _⟩

lemma sound_rxFree {c : Ctx} {rxcurr rxd : Fin maxrxdscr} {pkt : PktId} {stay : ℕ}
    (H : (Loc.rxFree c rxcurr rxd pkt stay).rely.Holds sc)
    (hs : mainStep inp sc (.rxFree c rxcurr rxd pkt stay) = some (sc', l')) :
    l'.rely.Holds sc' := by
  obtain ⟨hrxd, hhead⟩ := H.rx
  have hstay : sc.rx.head.stay = stay := congrArg Dscr.stay hhead
  have hne := H.inv.rx_ne H.charged (Nat.zero_le 1)
  cases hs
  subst hstay
  have hinv := H.inv.freeRx (List.Subset.refl _) rfl hne (congrArg Dscr.bufptr hhead)
  refine ⟨hinv, H.charged, hrxd, trivial, ?_⟩
  simp [Loc.rely, Loc.free, freeStay, ethFreePkt]

lemma sound_rxAlloc {c : Ctx} {rxcurr rxd : Fin maxrxdscr}
    (H : (Loc.rxAlloc c rxcurr rxd).rely.Holds sc)
    (hs : mainStep inp sc (.rxAlloc c rxcurr rxd) = some (sc', l')) : l'.rely.Holds sc' := by
  have hfree : sc.freelist ≠ [] := List.ne_nil_of_length_pos H.free
  obtain ⟨sc₁, pkt, halloc, hrx, -, hkept⟩ := exists_alloc hfree
  simp only [mainStep, halloc, Option.some.injEq, Prod.mk.injEq] at hs
  obtain ⟨rfl, rfl⟩ := hs
  have hrxd : sc₁.rx.remove = rxd := hrx ▸ H.rx
  exact ⟨H.inv.alloc halloc, H.charged.of_kept hkept, ⟨hrxd, by simp⟩, trivial, Nat.zero_le _⟩

lemma sound_rxStore {c : Ctx} {rxcurr rxd : Fin maxrxdscr} {newpkt : Option PktId}
    (H : (Loc.rxStore c rxcurr rxd newpkt).rely.Holds sc)
    (hs : mainStep inp sc (.rxStore c rxcurr rxd newpkt) = some (sc', l')) :
    l'.rely.Holds sc' := by
  obtain ⟨hrxd, hnew⟩ := H.rx
  obtain ⟨pkt, rfl⟩ := Option.ne_none_iff_exists'.mp hnew
  have hne := H.inv.rx_ne H.charged (Nat.zero_le 1)
  cases hs
  subst hrxd
  exact ⟨Inv.dropRx (h := { Hand.empty with held := [pkt] }) H.inv hne, H.charged, trivial,
    trivial, Nat.zero_le _⟩

/-- A descriptor has been taken off the ring, so it is not full. -/
lemma not_full_of_rxOut {h : Hand} (H : Inv h sc) (hcharged : Charged sc) : ¬ sc.rx.full := by
  refine Ring.not_full_of_count ?_
  have hcount := H.onring
  simp only [Charged, minrxring, maxrxdscr] at hcharged ⊢
  omega

lemma sound_rxAddTest {c : Ctx} {rxcurr rxd : Fin maxrxdscr} {newpkt : PktId}
    (H : (Loc.rxAddTest c rxcurr newpkt rxd).rely.Holds sc)
    (hs : mainStep inp sc (.rxAddTest c rxcurr newpkt rxd) = some (sc', l')) :
    l'.rely.Holds sc' := by
  have hrxd : sc.rx.add = rxd := H.rx
  have hfull := not_full_of_rxOut H.inv H.charged
  subst hrxd
  rw [mainStep, if_neg (by exact hfull)] at hs
  cases hs
  exact ⟨H.inv, H.charged, ⟨rfl, hfull⟩, trivial, Nat.zero_le _⟩

lemma sound_rxAddWrite {c : Ctx} {rxcurr rxd : Fin maxrxdscr} {newpkt : PktId}
    (H : (Loc.rxAddWrite c rxcurr newpkt rxd).rely.Holds sc)
    (hs : mainStep inp sc (.rxAddWrite c rxcurr newpkt rxd) = some (sc', l')) :
    l'.rely.Holds sc' := by
  obtain ⟨hrxd, hfull⟩ := H.rx
  cases hs
  subst hrxd
  exact ⟨H.inv.writeRx newpkt, H.charged, ⟨rfl, hfull, Ring.write_slot_self _ _⟩, trivial,
    Nat.zero_le _⟩

lemma Inv.recordReplaced {h : Hand} (H : Inv h sc) : Inv h (recordReplaced sc (some 0)) := by
  refine ⟨H.pool, H.begun, H.passed_nodup, H.passed_freed, H.onring, ?_⟩
  intro r hr
  rcases List.mem_append.mp hr with hr | hr
  · exact H.replaced r hr
  · exact List.mem_singleton.mp hr

lemma sound_rxAddStore {c : Ctx} {rxcurr rxd : Fin maxrxdscr} {newpkt : PktId} {stay : ℕ}
    (H : (Loc.rxAddStore c rxcurr newpkt rxd stay).rely.Holds sc)
    (hs : mainStep inp sc (.rxAddStore c rxcurr newpkt rxd stay) = some (sc', l')) :
    l'.rely.Holds sc' := by
  obtain ⟨hrxd, hfull, hslot⟩ := H.rx
  cases hs
  subst hrxd
  have hinv := Inv.storeRxAdd (h := Hand.empty) (k := 0) H.inv hslot rfl hfull
  exact ⟨hinv.recordReplaced, H.charged, trivial, trivial, Nat.zero_le _⟩

lemma sound_txBegin {c : Ctx} (H : (Loc.txBegin c).rely.Holds sc)
    (hs : mainStep inp sc (.txBegin c) = some (sc', l')) : l'.rely.Holds sc' := by
  rw [mainStep] at hs
  split_ifs at hs
  · cases hs
    exact ⟨H.inv, H.charged, trivial, (gap_txCurr inp.xmt).trans_le (min_le_right _ _),
      Nat.zero_le _⟩
  · cases hs
    exact ⟨H.inv, H.charged, trivial, trivial, Nat.zero_le _⟩

lemma sound_txHead {c : Ctx} {txcurr : Fin maxtxdscr}
    (H : (Loc.txHead c txcurr).rely.Holds sc)
    (hs : mainStep inp sc (.txHead c txcurr) = some (sc', l')) : l'.rely.Holds sc' := by
  rw [mainStep] at hs
  split_ifs at hs with hcurr
  · cases hs
    exact ⟨H.inv, H.charged, trivial, trivial, Nat.zero_le _⟩
  · cases hs
    exact ⟨H.inv, H.charged, trivial, ⟨rfl, hcurr, H.tx⟩, Nat.zero_le _⟩

lemma sound_txDscr {c : Ctx} {txcurr txd : Fin maxtxdscr}
    (H : (Loc.txDscr c txcurr txd).rely.Holds sc)
    (hs : mainStep inp sc (.txDscr c txcurr txd) = some (sc', l')) : l'.rely.Holds sc' := by
  obtain ⟨htxd, hcurr, hcount⟩ := H.tx
  rw [mainStep] at hs
  split at hs
  · cases hs
  · next pkt stay hslot =>
    cases hs
    refine ⟨H.inv, H.charged, trivial, ⟨htxd, hcurr, hcount, ?_⟩, Nat.zero_le _⟩
    rw [Ring.head, htxd, hslot]

/-- A descriptor the main program has found sent is on the ring. -/
lemma tx_ne {tx : Ring maxtxdscr Dscr} {txcurr txd : Fin maxtxdscr}
    (hcurr : txd ≠ txcurr) (hcount : gap txd txcurr ≤ tx.count) : tx.remove ≠ tx.add := by
  intro heq
  have hzero : tx.count = 0 := gap_eq_zero_iff.mpr heq
  exact hcurr (gap_eq_zero_iff.mp (by omega))

lemma sound_txFree {c : Ctx} {txcurr txd : Fin maxtxdscr} {pkt : PktId} {stay : ℕ}
    (H : (Loc.txFree c txcurr txd pkt stay).rely.Holds sc)
    (hs : mainStep inp sc (.txFree c txcurr txd pkt stay) = some (sc', l')) :
    l'.rely.Holds sc' := by
  obtain ⟨htxd, hcurr, hcount, hhead⟩ := H.tx
  have hstay : sc.tx.head.stay = stay := congrArg Dscr.stay hhead
  cases hs
  subst hstay
  have hinv := H.inv.freeTx rfl (tx_ne hcurr hcount) (congrArg Dscr.bufptr hhead)
  exact ⟨hinv, H.charged, trivial, ⟨htxd, hcurr, hcount⟩, Nat.zero_le _⟩

lemma sound_txStore {c : Ctx} {txcurr txd : Fin maxtxdscr}
    (H : (Loc.txStore c txcurr txd).rely.Holds sc)
    (hs : mainStep inp sc (.txStore c txcurr txd) = some (sc', l')) : l'.rely.Holds sc' := by
  obtain ⟨htxd, hcurr, hcount⟩ := H.tx
  have hne := tx_ne hcurr hcount
  cases hs
  subst htxd
  refine ⟨Inv.dropTx (h := Hand.empty) H.inv hne, H.charged, trivial, ?_, Nat.zero_le _⟩
  have hgap := gap_wrapSucc_left hcurr
  have hdrop := Ring.count_drop hne
  change gap (wrapSucc sc.tx.remove) txcurr ≤ sc.tx.drop.count
  omega

lemma sound_isrEnd {c : Ctx} (H : (Loc.isrEnd c).rely.Holds sc)
    (hs : mainStep inp sc (.isrEnd c) = some (sc', l')) : l'.rely.Holds sc' := by
  obtain ⟨H', -⟩ := isrTo_spec (Loc.isrEnd c).rely H c.status
  cases hs
  exact ⟨H'.inv, H'.charged, trivial, trivial, Nat.zero_le _⟩

lemma sound_outAlloc {bufLength : ℤ} (H : (Loc.outAlloc bufLength).rely.Holds sc)
    (hs : mainStep inp sc (.outAlloc bufLength) = some (sc', l')) : l'.rely.Holds sc' := by
  by_cases hfree : sc.freelist = []
  · have halloc : ethAllocPkt sc = (sc, none) := by rw [ethAllocPkt, hfree]
    simp only [mainStep, halloc, Option.some.injEq, Prod.mk.injEq] at hs
    obtain ⟨rfl, rfl⟩ := hs
    exact ⟨H.inv, H.charged, trivial, trivial, Nat.zero_le _⟩
  · obtain ⟨sc₁, pkt, halloc, -, -, hkept⟩ := exists_alloc hfree
    simp only [mainStep, halloc, Option.some.injEq, Prod.mk.injEq] at hs
    obtain ⟨rfl, rfl⟩ := hs
    exact ⟨H.inv.alloc halloc, H.charged.of_kept hkept, trivial, trivial, Nat.zero_le _⟩

lemma sound_outAddTest {pkt : PktId} {txd : Fin maxtxdscr}
    (H : (Loc.outAddTest pkt txd).rely.Holds sc)
    (hs : mainStep inp sc (.outAddTest pkt txd) = some (sc', l')) : l'.rely.Holds sc' := by
  have htxd : sc.tx.add = txd := H.tx
  subst htxd
  rw [mainStep] at hs
  split_ifs at hs with hfull
  · cases hs
    exact ⟨H.inv, H.charged, trivial, trivial, Nat.zero_le _⟩
  · cases hs
    exact ⟨H.inv, H.charged, trivial, ⟨rfl, hfull⟩, Nat.zero_le _⟩

lemma sound_outAddWrite {pkt : PktId} {txd : Fin maxtxdscr}
    (H : (Loc.outAddWrite pkt txd).rely.Holds sc)
    (hs : mainStep inp sc (.outAddWrite pkt txd) = some (sc', l')) : l'.rely.Holds sc' := by
  obtain ⟨htxd, hfull⟩ := H.tx
  cases hs
  subst htxd
  exact ⟨H.inv.writeTx pkt, H.charged, trivial, ⟨rfl, hfull, Ring.write_slot_self _ _⟩,
    Nat.zero_le _⟩

lemma sound_outAddStore {pkt : PktId} {txd : Fin maxtxdscr} {stay : ℕ}
    (H : (Loc.outAddStore pkt txd stay).rely.Holds sc)
    (hs : mainStep inp sc (.outAddStore pkt txd stay) = some (sc', l')) : l'.rely.Holds sc' := by
  obtain ⟨htxd, hfull, hslot⟩ := H.tx
  cases hs
  subst htxd
  exact ⟨Inv.storeTxAdd (h := Hand.empty) H.inv hslot rfl hfull, H.charged, trivial, trivial,
    Nat.zero_le _⟩

lemma sound_isrTop {poll : Option ℤ} (H : (Loc.isrTop poll).rely.Holds sc)
    (hs : mainStep inp sc (.isrTop poll) = some (sc', l')) : l'.rely.Holds sc' := by
  simp only [mainStep] at hs
  split_ifs at hs
  · cases poll <;> cases hs <;> exact ⟨H.inv, H.charged, trivial, trivial, Nat.zero_le _⟩
  · cases hs
    exact ⟨H.inv, H.charged, trivial, trivial, Nat.zero_le _⟩

/-- One step of the main program, from each place where it may stand. -/
lemma sound_mainStep {l : Loc} (H : l.rely.Holds sc) (hs : mainStep inp sc l = some (sc', l')) :
    l'.rely.Holds sc' := by
  cases l with
  | idle =>
    cases hs
    exact ⟨H.inv, H.charged, trivial, trivial, Nat.zero_le _⟩
  | isrTop poll => exact sound_isrTop H hs
  | rxBegin c =>
    rw [mainStep] at hs
    split_ifs at hs <;> cases hs <;> exact ⟨H.inv, H.charged, trivial, trivial, Nat.zero_le _⟩
  | rxHead c rxcurr =>
    rw [mainStep] at hs
    split_ifs at hs <;> cases hs
    · exact ⟨H.inv, H.charged, trivial, trivial, Nat.zero_le _⟩
    · exact ⟨H.inv, H.charged, rfl, trivial, Nat.zero_le _⟩
  | rxDscr c rxcurr rxd => exact sound_rxDscr H hs
  | rxHdr c rxcurr rxd pkt stay => exact sound_rxHdr H hs
  | rxPass c rxcurr rxd pkt stay => exact sound_rxPass H hs
  | rxFree c rxcurr rxd pkt stay => exact sound_rxFree H hs
  | rxAlloc c rxcurr rxd => exact sound_rxAlloc H hs
  | rxStore c rxcurr rxd newpkt => exact sound_rxStore H hs
  | rxAdd c rxcurr newpkt =>
    cases hs
    exact ⟨H.inv, H.charged, rfl, trivial, Nat.zero_le _⟩
  | rxAddTest c rxcurr newpkt rxd => exact sound_rxAddTest H hs
  | rxAddWrite c rxcurr newpkt rxd => exact sound_rxAddWrite H hs
  | rxAddStore c rxcurr newpkt rxd stay => exact sound_rxAddStore H hs
  | rxDec c rxcurr => exact H.rx.elim
  | txBegin c => exact sound_txBegin H hs
  | txHead c txcurr => exact sound_txHead H hs
  | txDscr c txcurr txd => exact sound_txDscr H hs
  | txFree c txcurr txd pkt stay => exact sound_txFree H hs
  | txStore c txcurr txd => exact sound_txStore H hs
  | isrEnd c => exact sound_isrEnd H hs
  | outState bufLength =>
    rw [mainStep] at hs
    split_ifs at hs <;> cases hs <;> exact ⟨H.inv, H.charged, trivial, trivial, Nat.zero_le _⟩
  | outAlloc bufLength => exact sound_outAlloc H hs
  | outFill bufLength pkt =>
    cases hs
    exact ⟨H.inv.setLength pkt _, H.charged, trivial, trivial, Nat.zero_le _⟩
  | outAdd pkt =>
    cases hs
    exact ⟨H.inv, H.charged, trivial, rfl, Nat.zero_le _⟩
  | outAddTest pkt txd => exact sound_outAddTest H hs
  | outAddWrite pkt txd => exact sound_outAddWrite H hs
  | outAddStore pkt txd stay => exact sound_outAddStore H hs
  | outFail pkt =>
    cases hs
    exact ⟨Inv.free (h := Hand.empty) H.inv, H.charged, trivial, trivial, Nat.zero_le _⟩

end Steps

lemma Sound.act {s s' : State} {a : Act} (H : Sound s) (hcalm : Calm s a)
    (hs : act s a = some s') : Sound s' := by
  cases a with
  | main inp =>
    obtain ⟨⟨sc', l'⟩, hstep, rfl⟩ := Option.map_eq_some_iff.mp hs
    exact sound_mainStep H hstep
  | interrupt rounds => exact H.interrupt hcalm hs

lemma sound_idle {sc : Softc} (H : Inv Hand.empty sc) (hcharged : Charged sc) :
    Sound ⟨sc, .idle⟩ :=
  ⟨H, hcharged, trivial, trivial, Nat.zero_le _⟩

lemma sound_start (state : EthState) (intmask : BitVec 32) : Sound (start state intmask) :=
  sound_idle (inv_init state intmask).1 (inv_init state intmask).2

/-! ### Whole runs -/

/-- No frame is passed up twice and no buffer freed twice for one stay; and when the main program
is between two calls, every stay that no ring goes on with has been freed or recycled once. -/
structure Once (s : State) : Prop where
  passed : s.sc.hist.passed.Nodup
  freed : s.sc.hist.freed.Nodup
  settled : s.loc = .idle →
    (s.sc.rx.toList.map Dscr.stay ++ s.sc.tx.toList.map Dscr.stay ++ s.sc.hist.freed ++
      s.sc.hist.recycled).Perm (List.range s.sc.hist.handovers)

lemma Sound.once {s : State} (H : Sound s) : Once s where
  passed := H.inv.passed_nodup
  freed := H.inv.freed_nodup
  settled := fun hidle => by
    have hhand : s.loc.hand = Hand.empty := by rw [hidle]; rfl
    have hbegun := H.inv.begun
    simpa [hhand, stays, Hand.empty] using hbegun

/-- As long as the interrupts are calm, the polls and the interrupts handle each descriptor
once. -/
theorem once_of_calm {state : EthState} {intmask : BitVec 32} {es : List Act} {s : State}
    (hcalm : Throughout act Calm (start state intmask) es)
    (hrun : run act (start state intmask) es = some s) : Once s :=
  (run_invariant (P := Sound) (fun _ _ _ H hG hs => H.act hG hs) (sound_start state intmask)
    hcalm hrun).once

/-- The engine has filled one descriptor, with 64 bytes. -/
def oneFrame : Input := ⟨64, mIntRi, 1, 0, 64⟩

/-- It has filled two. -/
def twoFrames : Round := ⟨mIntRi, 2, fun _ => 64, 0⟩

/-- One packet has been sent. -/
def onePacket : Round := ⟨mIntXi, 0, fun _ => 0, 1⟩

/-- `cfe_output` queues a packet, and is called again up to the load of the receive header. -/
def upToHeader : List Input := List.replicate 11 quiet ++ List.replicate 4 oneFrame

/-- The second call goes on to its end. -/
def fromHeader : List Input := List.replicate 12 oneFrame ++ List.replicate 9 quiet

lemma throughout_calm_main (inps : List Input) (s : State) :
    Throughout act Calm s (inps.map .main) := by
  induction inps generalizing s with
  | nil => trivial
  | cons inp inps ih => exact fun s' _ => ⟨trivial, ih s'⟩

/-- In the loop over the frames received, the interrupt frees the packet that has been sent. -/
theorem once_of_calm_in_loop :
    ∃ s, run act (start .on 0x01010000)
        (upToHeader.map .main ++ .interrupt [onePacket] :: fromHeader.map .main) = some s ∧
      s.loc = .idle ∧ s.sc.hist.passed = [0] ∧ s.sc.hist.freed = [8, 0] ∧ Once s := by
  let isIdle : Loc → Bool
    | .idle => true
    | _ => false
  obtain ⟨s, hs, hdata⟩ : ∃ s, run act (start .on 0x01010000)
      (upToHeader.map .main ++ .interrupt [onePacket] :: fromHeader.map .main) = some s ∧
      (isIdle s.loc, s.sc.hist.passed, s.sc.hist.freed) = (true, [0], [8, 0]) :=
    Option.map_eq_some_iff.mp (by decide +kernel)
  obtain ⟨hloc, hpassed, hfreed⟩ : _ ∧ _ ∧ _ := by simpa only [Prod.mk.injEq] using hdata
  have hidle : s.loc = .idle := by
    cases hl : s.loc
    case idle => rfl
    all_goals
      rw [hl] at hloc
      cases hloc
  -- at the interrupt
  obtain ⟨s₁, hs₁, hrounds⟩ : ∃ s₁, run act (start .on 0x01010000) (upToHeader.map .main) =
      some s₁ ∧ (rcvTotal s₁.sc.intmask [onePacket], s₁.sc.tx.count, s₁.loc.txRoom s₁.sc.tx) =
        (0, 1, 1) := Option.map_eq_some_iff.mp (by decide +kernel)
  obtain ⟨hrcv, hcount, hroom⟩ : _ ∧ _ ∧ _ := by simpa only [Prod.mk.injEq] using hrounds
  have hcalm : Throughout act Calm (start .on 0x01010000)
      (upToHeader.map .main ++ .interrupt [onePacket] :: fromHeader.map .main) := by
    rw [throughout_append hs₁]
    refine ⟨throughout_calm_main _ _, fun s' _ => ⟨⟨fun _ => hrcv, ?_⟩, throughout_calm_main _ _⟩⟩
    rw [hcount, hroom]
    exact min_le_right _ _
  exact ⟨s, hs, hidle, hpassed, hfreed, once_of_calm hcalm hs⟩

/-- The poll has loaded `rxdscr_remove` when the interrupt comes, which passes both frames up and
frees their buffers; then the poll goes on with the first one. -/
theorem poll_passes_twice : ¬ ∀ (state : EthState) (intmask : BitVec 32) (es : List Act)
    (s : State), run act (start state intmask) es = some s → Once s := by
  intro h
  obtain ⟨s, hs, hpassed⟩ : ∃ s, run act (start .on 0x01010000)
      [.main quiet, .main oneFrame, .main oneFrame, .main oneFrame, .interrupt [twoFrames],
        .main oneFrame, .main oneFrame, .main oneFrame] = some s ∧
      s.sc.hist.passed = [0, 1, 0] :=
    Option.map_eq_some_iff.mp (by decide +kernel)
  have hnodup := (h _ _ _ s hs).passed
  rw [hpassed] at hnodup
  exact absurd hnodup (by decide)

end BcmMruby.Mac
