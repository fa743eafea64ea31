import BcmMruby.Core.Run
import BcmMruby.Mac.Basic

/-!
# Who has the buffers

Every buffer is on the free list or on one of the two rings, or the main program has it in its
hand; every stay is going on, or its buffer has been freed or recycled. `Hand` is what the main
program has in its hand at some point of its run, and `Inv` the account that it completes. The
lemmas `Inv.alloc` to `Inv.storeTxAdd` say what each access to the shared data does to the hand.
-/

namespace BcmMruby.Mac

open Core

/-! ### The account -/

structure Hand where
  /-- Buffers that are on no list and no ring. -/
  held : List PktId
  /-- How many descriptors at the front of a ring have lost their buffer already. -/
  rxTaken : ℕ
  txTaken : ℕ
  /-- How many descriptors short of `rxdscr_onring` the receive ring is. -/
  rxOut : ℕ
  /-- Stays whose frame has been passed up and whose buffer is still to be freed. -/
  opened : List ℕ
  /-- Stays whose descriptor is written, but not yet on its ring. -/
  loose : List ℕ

def Hand.empty : Hand := ⟨[], 0, 0, 0, [], []⟩

/-- Where the buffers are. -/
def holders (h : Hand) (sc : Softc) : List (Option PktId) :=
  sc.freelist.map some ++ (sc.rx.toList.drop h.rxTaken).map Dscr.bufptr ++
    (sc.tx.toList.drop h.txTaken).map Dscr.bufptr ++ h.held.map some

/-- Where the stays are. -/
def stays (h : Hand) (sc : Softc) : List ℕ :=
  (sc.rx.toList.drop h.rxTaken).map Dscr.stay ++ (sc.tx.toList.drop h.txTaken).map Dscr.stay ++
    sc.hist.freed ++ sc.hist.recycled ++ h.loose

structure Inv (h : Hand) (sc : Softc) : Prop where
  pool : (holders h sc).Perm ((List.finRange ethPktpoolSize).map some)
  begun : (stays h sc).Perm (List.range sc.hist.handovers)
  passed_nodup : sc.hist.passed.Nodup
  passed_freed : ∀ x ∈ sc.hist.passed, x ∈ sc.hist.freed ∨ x ∈ h.opened
  onring : (sc.rx.count : ℤ) + h.rxOut = sc.rxdscrOnring
  replaced : ∀ r ∈ sc.hist.replaced, r = some 0

variable {h : Hand} {sc : Softc}

/-! ### What the account says -/

lemma Inv.stays_nodup (H : Inv h sc) : (stays h sc).Nodup :=
  H.begun.nodup_iff.mpr List.nodup_range

lemma Inv.freed_nodup (H : Inv h sc) : sc.hist.freed.Nodup := by
  have hnodup := H.stays_nodup
  simp only [stays, List.append_assoc] at hnodup
  exact hnodup.of_append_right.of_append_right.of_append_left

/-- A stay that goes on has been neither passed up nor freed. -/
lemma Inv.not_passed (H : Inv h sc) (hopened : h.opened = []) {d : Dscr}
    (hd : d ∈ sc.rx.toList.drop h.rxTaken) : d.stay ∉ sc.hist.passed := by
  intro hpassed
  have hfreed : d.stay ∈ sc.hist.freed := by simpa [hopened] using H.passed_freed _ hpassed
  have hnodup := H.stays_nodup
  simp only [stays, List.append_assoc] at hnodup
  exact (List.disjoint_of_nodup_append hnodup) (List.mem_map_of_mem hd)
    (List.mem_append_right _ (List.mem_append_left _ hfreed))

lemma Inv.exists_pkt (H : Inv h sc) {x : Option PktId} (hx : x ∈ holders h sc) :
    ∃ pkt, x = some pkt := by
  obtain ⟨pkt, -, rfl⟩ := List.mem_map.mp (H.pool.subset hx)
  exact ⟨pkt, rfl⟩

/-- The descriptor at the front of the receive ring has a buffer. -/
lemma Inv.rx_head (H : Inv h sc) (htaken : h.rxTaken = 0) (hne : sc.rx.remove ≠ sc.rx.add) :
    ∃ pkt, sc.rx.head = ⟨some pkt, sc.rx.head.stay⟩ := by
  have hmem : sc.rx.head.bufptr ∈ holders h sc := by
    simp [holders, htaken, Ring.toList_eq_head_cons hne]
  obtain ⟨pkt, hpkt⟩ := H.exists_pkt hmem
  exact ⟨pkt, by rw [← hpkt]⟩

lemma Inv.tx_head (H : Inv h sc) (htaken : h.txTaken = 0) (hne : sc.tx.remove ≠ sc.tx.add) :
    ∃ pkt, sc.tx.head = ⟨some pkt, sc.tx.head.stay⟩ := by
  have hmem : sc.tx.head.bufptr ∈ holders h sc := by
    simp [holders, htaken, Ring.toList_eq_head_cons hne]
  obtain ⟨pkt, hpkt⟩ := H.exists_pkt hmem
  exact ⟨pkt, by rw [← hpkt]⟩

/-! ### The free list -/

lemma Inv.setLength (H : Inv h sc) (pkt : PktId) (length : ℤ) : Inv h (setLength sc pkt length) :=
  ⟨H.pool, H.begun, H.passed_nodup, H.passed_freed, H.onring, H.replaced⟩

lemma Inv.alloc (H : Inv h sc) {sc' : Softc} {pkt : PktId}
    (halloc : ethAllocPkt sc = (sc', some pkt)) : Inv { h with held := pkt :: h.held } sc' := by
  rw [ethAllocPkt] at halloc
  split at halloc
  · cases halloc
  · next freelist hfree =>
    cases halloc
    refine ⟨?_, H.begun, H.passed_nodup, H.passed_freed, H.onring, H.replaced⟩
    apply (List.perm_iff_count.mpr ?_).trans H.pool
    intro x
    simp [holders, hfree, Mac.setLength, List.count_append, List.count_cons]
    omega

lemma Inv.free {pkt : PktId} (H : Inv { h with held := pkt :: h.held } sc) :
    Inv h (ethFreePkt sc pkt) := by
  refine ⟨?_, H.begun, H.passed_nodup, H.passed_freed, H.onring, H.replaced⟩
  apply (List.perm_iff_count.mpr ?_).trans H.pool
  intro x
  simp [holders, ethFreePkt, List.count_append, List.count_cons]
  omega

/-! ### Taking a descriptor off the receive ring -/

lemma Inv.passUp (H : Inv h sc) (hopened : h.opened = []) (htaken : h.rxTaken = 0)
    (hne : sc.rx.remove ≠ sc.rx.add) (pkt : PktId) :
    Inv { h with opened := [sc.rx.head.stay] } (passUp sc pkt sc.rx.head.stay) := by
  have hmem : sc.rx.head ∈ sc.rx.toList.drop h.rxTaken := by
    simp [htaken, Ring.toList_eq_head_cons hne]
  refine ⟨H.pool, H.begun, ?_, ?_, H.onring, H.replaced⟩
  · exact List.nodup_append.mpr ⟨H.passed_nodup, List.nodup_singleton _,
      fun x hx y hy hxy => H.not_passed hopened hmem (by simp_all)⟩
  · intro x hx
    rcases List.mem_append.mp hx with hx | hx
    · have hfreed : x ∈ sc.hist.freed := by simpa [hopened] using H.passed_freed x hx
      exact Or.inl hfreed
    · exact Or.inr hx

lemma Inv.freeRx (H : Inv h sc) (hopened : h.opened ⊆ [sc.rx.head.stay]) (htaken : h.rxTaken = 0)
    (hne : sc.rx.remove ≠ sc.rx.add) {pkt : PktId} (hhead : sc.rx.head.bufptr = some pkt) :
    Inv { h with rxTaken := 1, opened := [] } (freeStay sc pkt sc.rx.head.stay) := by
  have hlist := Ring.toList_eq_head_cons hne
  refine ⟨?_, ?_, H.passed_nodup, ?_, H.onring, H.replaced⟩
  · apply (List.perm_iff_count.mpr ?_).trans H.pool
    intro x
    simp [holders, freeStay, ethFreePkt, htaken, hlist, hhead, List.count_append, List.count_cons]
  · apply (List.perm_iff_count.mpr ?_).trans H.begun
    intro x
    simp [stays, freeStay, ethFreePkt, htaken, hlist, List.count_append, List.count_cons]
    omega
  · intro x hx
    rcases H.passed_freed x hx with hfreed | hx
    · exact Or.inl (List.mem_append_left _ hfreed)
    · exact Or.inl (List.mem_append_right _ (hopened hx))

lemma Inv.recycle (H : Inv h sc) (htaken : h.rxTaken = 0) (hne : sc.rx.remove ≠ sc.rx.add)
    {pkt : PktId} (hhead : sc.rx.head.bufptr = some pkt) :
    Inv { h with rxTaken := 1, held := pkt :: h.held } (recycle sc sc.rx.head.stay) := by
  have hlist := Ring.toList_eq_head_cons hne
  refine ⟨?_, ?_, H.passed_nodup, H.passed_freed, H.onring, H.replaced⟩
  · apply (List.perm_iff_count.mpr ?_).trans H.pool
    intro x
    simp [holders, Mac.recycle, htaken, hlist, hhead, List.count_append, List.count_cons]
    omega
  · apply (List.perm_iff_count.mpr ?_).trans H.begun
    intro x
    simp [stays, Mac.recycle, htaken, hlist, List.count_append, List.count_cons]
    omega

lemma Inv.dropRx (H : Inv { h with rxTaken := 1 } sc) (hne : sc.rx.remove ≠ sc.rx.add) :
    Inv { h with rxTaken := 0, rxOut := h.rxOut + 1 } (dropRx sc) := by
  have hlist := Ring.toList_eq_head_cons hne
  have hcount := Ring.count_drop hne
  have hpool := H.pool
  have hbegun := H.begun
  simp only [holders, stays, hlist, List.drop_succ_cons, List.drop_zero] at hpool hbegun
  refine ⟨hpool, hbegun, H.passed_nodup, H.passed_freed, ?_, H.replaced⟩
  have hbefore : (sc.rx.count : ℤ) + h.rxOut = sc.rxdscrOnring := H.onring
  change (sc.rx.drop.count : ℤ) + (h.rxOut + 1 : ℕ) = sc.rxdscrOnring
  omega

/-! ### Putting a descriptor on the receive ring -/

lemma Inv.writeRx (H : Inv h sc) (pkt : PktId) :
    Inv { h with loose := sc.hist.handovers :: h.loose } (writeRx sc sc.rx.add pkt) := by
  refine ⟨?_, ?_, H.passed_nodup, H.passed_freed, H.onring, H.replaced⟩
  · simpa [holders, Mac.writeRx] using H.pool
  · have hrange := H.begun.append_right [sc.hist.handovers]
    rw [← List.range_succ] at hrange
    apply (List.perm_iff_count.mpr ?_).trans hrange
    intro x
    simp [stays, Mac.writeRx, List.count_append, List.count_cons]

lemma Inv.storeRxAdd {pkt : PktId} {stay : ℕ} {k : ℕ}
    (H : Inv { h with held := pkt :: h.held, loose := stay :: h.loose, rxOut := k + 1 } sc)
    (hslot : sc.rx.slot sc.rx.add = ⟨some pkt, stay⟩) (htaken : h.rxTaken = 0)
    (hfull : ¬ sc.rx.full) : Inv { h with rxOut := k } (storeRxAdd sc sc.rx.add) := by
  have hlist := Ring.toList_storeAdd hfull
  have hcount := congrArg List.length hlist
  simp only [Ring.length_toList, List.length_append, List.length_singleton] at hcount
  refine ⟨?_, ?_, H.passed_nodup, H.passed_freed, ?_, H.replaced⟩
  · apply (List.perm_iff_count.mpr ?_).trans H.pool
    intro x
    simp [holders, Mac.storeRxAdd, htaken, hlist, hslot, List.count_append, List.count_cons]
    omega
  · apply (List.perm_iff_count.mpr ?_).trans H.begun
    intro x
    simp [stays, Mac.storeRxAdd, htaken, hlist, hslot, List.count_append, List.count_cons]
    omega
  · have hbefore : (sc.rx.count : ℤ) + (k + 1 : ℕ) = sc.rxdscrOnring := H.onring
    change ((sc.rx.storeAdd sc.rx.add).count : ℤ) + k = sc.rxdscrOnring
    omega

lemma Inv.putRx {pkt : PktId} {k : ℕ} (H : Inv { h with held := pkt :: h.held, rxOut := k + 1 } sc)
    (htaken : h.rxTaken = 0) (hfull : ¬ sc.rx.full) :
    Inv { h with rxOut := k } (putRx sc pkt) :=
  (H.writeRx pkt).storeRxAdd (Ring.write_slot_self _ _) htaken hfull

/-! ### The transmit ring -/

lemma Inv.freeTx (H : Inv h sc) (htaken : h.txTaken = 0) (hne : sc.tx.remove ≠ sc.tx.add)
    {pkt : PktId} (hhead : sc.tx.head.bufptr = some pkt) :
    Inv { h with txTaken := 1 } (freeStay sc pkt sc.tx.head.stay) := by
  have hlist := Ring.toList_eq_head_cons hne
  refine ⟨?_, ?_, H.passed_nodup, ?_, H.onring, H.replaced⟩
  · apply (List.perm_iff_count.mpr ?_).trans H.pool
    intro x
    simp [holders, freeStay, ethFreePkt, htaken, hlist, hhead, List.count_append, List.count_cons]
    omega
  · apply (List.perm_iff_count.mpr ?_).trans H.begun
    intro x
    simp [stays, freeStay, ethFreePkt, htaken, hlist, List.count_append, List.count_cons]
    omega
  · intro x hx
    exact (H.passed_freed x hx).imp_left (List.mem_append_left _)

lemma Inv.dropTx (H : Inv { h with txTaken := 1 } sc) (hne : sc.tx.remove ≠ sc.tx.add) :
    Inv { h with txTaken := 0 } (dropTx sc) := by
  have hlist := Ring.toList_eq_head_cons hne
  have hpool := H.pool
  have hbegun := H.begun
  simp only [holders, stays, hlist, List.drop_succ_cons, List.drop_zero] at hpool hbegun
  exact ⟨hpool, hbegun, H.passed_nodup, H.passed_freed, H.onring, H.replaced⟩

lemma Inv.writeTx (H : Inv h sc) (pkt : PktId) :
    Inv { h with loose := sc.hist.handovers :: h.loose } (writeTx sc sc.tx.add pkt) := by
  refine ⟨?_, ?_, H.passed_nodup, H.passed_freed, H.onring, H.replaced⟩
  · simpa [holders, Mac.writeTx] using H.pool
  · have hrange := H.begun.append_right [sc.hist.handovers]
    rw [← List.range_succ] at hrange
    apply (List.perm_iff_count.mpr ?_).trans hrange
    intro x
    simp [stays, Mac.writeTx, List.count_append, List.count_cons]

lemma Inv.storeTxAdd {pkt : PktId} {stay : ℕ}
    (H : Inv { h with held := pkt :: h.held, loose := stay :: h.loose } sc)
    (hslot : sc.tx.slot sc.tx.add = ⟨some pkt, stay⟩) (htaken : h.txTaken = 0)
    (hfull : ¬ sc.tx.full) : Inv h (storeTxAdd sc sc.tx.add) := by
  have hlist := Ring.toList_storeAdd hfull
  refine ⟨?_, ?_, H.passed_nodup, H.passed_freed, H.onring, H.replaced⟩
  · apply (List.perm_iff_count.mpr ?_).trans H.pool
    intro x
    simp [holders, Mac.storeTxAdd, htaken, hlist, hslot, List.count_append, List.count_cons]
  · apply (List.perm_iff_count.mpr ?_).trans H.begun
    intro x
    simp [stays, Mac.storeTxAdd, htaken, hlist, hslot, List.count_append, List.count_cons]
    omega

lemma Inv.putTx {pkt : PktId} (H : Inv { h with held := pkt :: h.held } sc)
    (htaken : h.txTaken = 0) (hfull : ¬ sc.tx.full) : Inv h (putTx sc pkt) :=
  (H.writeTx pkt).storeTxAdd (Ring.write_slot_self _ _) htaken hfull

/-! ### Turns of the loops -/

/-- What stays as it is once the device has been started. -/
structure Kept (sc sc' : Softc) : Prop where
  state : sc'.state = sc.state
  intmask : sc'.intmask = sc.intmask
  onring : sc'.rxdscrOnring = sc.rxdscrOnring

lemma Kept.refl (sc : Softc) : Kept sc sc := ⟨rfl, rfl, rfl⟩

lemma Kept.trans {sc₁ sc₂ sc₃ : Softc} (h₁ : Kept sc₁ sc₂) (h₂ : Kept sc₂ sc₃) :
    Kept sc₁ sc₃ :=
  ⟨h₂.state.trans h₁.state, h₂.intmask.trans h₁.intmask, h₂.onring.trans h₁.onring⟩

/-- The receive ring has been filled. -/
def Charged (sc : Softc) : Prop := sc.rxdscrOnring = minrxring

lemma Charged.of_kept {sc sc' : Softc} (H : Charged sc) (hkept : Kept sc sc') : Charged sc' :=
  hkept.onring.trans H

lemma Inv.rx_ne (H : Inv h sc) (hcharged : Charged sc) (hout : h.rxOut ≤ 1) :
    sc.rx.remove ≠ sc.rx.add := by
  intro heq
  have hzero : sc.rx.count = 0 := gap_eq_zero_iff.mpr heq
  have := H.onring
  simp only [Charged, minrxring] at hcharged
  omega

/-- The ring takes the buffer that replaces another one. -/
lemma Inv.replaceRx {pkt : PktId} {k : ℕ}
    (H : Inv { h with held := pkt :: h.held, rxOut := k + 1 } sc) (htaken : h.rxTaken = 0)
    (hcharged : Charged sc) :
    Inv { h with rxOut := k } (replaceRx sc (some pkt)) ∧
      (replaceRx sc (some pkt)).tx = sc.tx ∧
      (replaceRx sc (some pkt)).rx.remove = sc.rx.remove ∧
      Kept sc (replaceRx sc (some pkt)) := by
  have hfull : ¬ sc.rx.full := by
    refine Ring.not_full_of_count ?_
    have hcount : (sc.rx.count : ℤ) + (k + 1 : ℕ) = sc.rxdscrOnring := H.onring
    simp only [Charged, minrxring, maxrxdscr] at hcharged ⊢
    omega
  have hput := H.putRx htaken hfull
  rw [Mac.replaceRx, bcm4401AddRcvbuf, if_neg hfull]
  refine ⟨⟨hput.pool, hput.begun, hput.passed_nodup, hput.passed_freed, hput.onring, ?_⟩, rfl,
    rfl, ⟨rfl, rfl, rfl⟩⟩
  intro r hr
  rcases List.mem_append.mp hr with hr | hr
  · exact hput.replaced r hr
  · exact List.mem_singleton.mp hr

/-- There is a buffer to replace the one that has just been freed. -/
lemma exists_alloc (hfree : sc.freelist ≠ []) : ∃ sc' pkt, ethAllocPkt sc = (sc', some pkt) ∧
    sc'.rx = sc.rx ∧ sc'.tx = sc.tx ∧ Kept sc sc' := by
  obtain ⟨pkt, freelist, hcons⟩ := List.exists_cons_of_ne_nil hfree
  refine ⟨Mac.setLength { sc with freelist := freelist } pkt ethPktbufLen, pkt, ?_, rfl, rfl,
    ⟨rfl, rfl, rfl⟩⟩
  simp [ethAllocPkt, hcons]

lemma rxTurn_spec (hdr0 : ℕ → BitVec 32) (H : Inv h sc) (hcharged : Charged sc)
    (htaken : h.rxTaken = 0) (hopened : h.opened = []) (hout : h.rxOut ≤ 1) :
    ∃ sc', rxTurn hdr0 sc = some sc' ∧ Inv h sc' ∧ sc'.tx = sc.tx ∧
      sc'.rx.remove = wrapSucc sc.rx.remove ∧ Kept sc sc' := by
  have hne := H.rx_ne hcharged hout
  obtain ⟨pkt, hhead⟩ := H.rx_head htaken hne
  have hbufptr : sc.rx.head.bufptr = some pkt := congrArg Dscr.bufptr hhead
  obtain ⟨held, rxTaken, txTaken, rxOut, opened, loose⟩ := h
  simp only at htaken hopened
  subst htaken hopened
  rw [rxTurn, hhead]
  dsimp only
  split_ifs with herr
  · -- an error frame: the buffer stays in use
    have H₁ := H.recycle rfl hne hbufptr
    have H₂ := Inv.dropRx (h := ⟨pkt :: held, 0, txTaken, rxOut, [], loose⟩) H₁ hne
    obtain ⟨H₃, htx, hremove, hkept⟩ :=
      Inv.replaceRx (h := ⟨held, 0, txTaken, rxOut, [], loose⟩) H₂ rfl hcharged
    exact ⟨_, rfl, H₃, htx, hremove, ⟨hkept.state, hkept.intmask, hkept.onring⟩⟩
  · have H₁ := H.setLength pkt (gRcvhdr0Cd (hdr0 sc.rx.head.stay) - enetCrcSize)
    have H₂ := (H₁.passUp rfl rfl hne pkt).freeRx (List.Subset.refl _) rfl hne hbufptr
    have hfree : (bcm4401RxCallback (Mac.setLength sc pkt
        (gRcvhdr0Cd (hdr0 sc.rx.head.stay) - enetCrcSize)) pkt sc.rx.head.stay).freelist ≠ [] := by
      simp [bcm4401RxCallback, freeStay, ethFreePkt]
    obtain ⟨sc₃, newpkt, halloc, hrx₃, htx₃, hkept₃⟩ := exists_alloc hfree
    have H₃ := Inv.alloc H₂ halloc
    have hne₃ : sc₃.rx.remove ≠ sc₃.rx.add := by rw [hrx₃]; exact hne
    have H₄ := Inv.dropRx (h := ⟨newpkt :: held, 0, txTaken, rxOut, [], loose⟩) H₃ hne₃
    obtain ⟨H₅, htx₅, hremove₅, hkept₅⟩ :=
      Inv.replaceRx (h := ⟨held, 0, txTaken, rxOut, [], loose⟩) H₄ rfl
        (hkept₃.onring.trans hcharged)
    rw [halloc]
    refine ⟨_, rfl, H₅, htx₅.trans htx₃, hremove₅.trans ?_, ⟨hkept₅.state.trans hkept₃.state,
      hkept₅.intmask.trans hkept₃.intmask, hkept₅.onring.trans hkept₃.onring⟩⟩
    simp only [Mac.dropRx, storeRxRemove, Ring.storeRemove, hrx₃]
    rfl

/-- As many turns as `rxcurr` is slots away bring the remove pointer there. -/
lemma rxTurns_spec (hdr0 : ℕ → BitVec 32) {rxcurr : Fin maxrxdscr} {k : ℕ} (H : Inv h sc)
    (hcharged : Charged sc) (htaken : h.rxTaken = 0) (hopened : h.opened = []) (hout : h.rxOut ≤ 1)
    (hgap : gap sc.rx.remove rxcurr = k) :
    ∃ sc', rxTurns hdr0 rxcurr k sc = some sc' ∧ Inv h sc' ∧ sc'.tx = sc.tx ∧
      sc'.rx.remove = rxcurr ∧ Kept sc sc' := by
  induction k generalizing sc with
  | zero => exact ⟨sc, rfl, H, rfl, gap_eq_zero_iff.mp hgap, Kept.refl sc⟩
  | succ k ih =>
    have hne : sc.rx.remove ≠ rxcurr := fun heq => by simp [heq] at hgap
    obtain ⟨sc₁, hturn, H₁, htx₁, hremove₁, hkept₁⟩ :=
      rxTurn_spec hdr0 H hcharged htaken hopened hout
    have hgap₁ : gap sc₁.rx.remove rxcurr = k := by
      have := gap_wrapSucc_left hne
      rw [hremove₁]
      omega
    obtain ⟨sc₂, hturns, H₂, htx₂, hremove₂, hkept₂⟩ :=
      ih H₁ (hcharged.of_kept hkept₁) hgap₁
    refine ⟨sc₂, ?_, H₂, htx₂.trans htx₁, hremove₂, hkept₁.trans hkept₂⟩
    rw [rxTurns, if_neg hne, hturn]
    exact hturns

lemma txTurn_spec (H : Inv h sc) (htaken : h.txTaken = 0) (hne : sc.tx.remove ≠ sc.tx.add) :
    ∃ sc', txTurn sc = some sc' ∧ Inv h sc' ∧ sc'.rx = sc.rx ∧ sc'.tx = sc.tx.drop ∧
      sc.freelist.length ≤ sc'.freelist.length ∧ Kept sc sc' := by
  obtain ⟨pkt, hhead⟩ := H.tx_head htaken hne
  have hbufptr : sc.tx.head.bufptr = some pkt := congrArg Dscr.bufptr hhead
  obtain ⟨held, rxTaken, txTaken, rxOut, opened, loose⟩ := h
  simp only at htaken
  subst htaken
  have H₁ := H.freeTx rfl hne hbufptr
  have H₂ := Inv.dropTx (h := ⟨held, rxTaken, 0, rxOut, opened, loose⟩) H₁ hne
  rw [txTurn, hhead]
  refine ⟨_, rfl, H₂, rfl, rfl, ?_, ⟨rfl, rfl, rfl⟩⟩
  simp [Mac.dropTx, storeTxRemove, freeStay, ethFreePkt]

/-! ### The interrupt routine -/

/-- How far the rounds of an interrupt routine go on the receive ring. -/
def rcvTotal (intmask : BitVec 32) : List Round → ℕ
  | [] => 0
  | r :: rounds =>
    if r.status &&& intmask = 0 then 0
    else
      (if r.status &&& intmask &&& mIntRi ≠ 0 then (r.rcv : ℕ) else 0) + rcvTotal intmask rounds

/-- The descriptors they may find sent. -/
def xmtTotal (intmask : BitVec 32) : List Round → ℕ
  | [] => 0
  | r :: rounds =>
    if r.status &&& intmask = 0 then 0
    else (if r.status &&& intmask &&& mIntXi ≠ 0 then r.xmt else 0) + xmtTotal intmask rounds

/-- What the main program relies on at some point of its run, with `h` in its hand: whether it
is busy with the receive ring, what it knows of the two rings, how many descriptors may be taken
off the transmit ring, and how many free buffers there are at least. -/
structure Rely (h : Hand) where
  busy : Prop
  rx : Ring maxrxdscr Dscr → Prop
  tx : Ring maxtxdscr Dscr → Prop
  room : Ring maxtxdscr Dscr → ℕ
  free : ℕ
  of_not_busy : ¬ busy → ∀ r, rx r →
    h.rxTaken = 0 ∧ h.opened = [] ∧ free = 0 ∧ ∀ r', rx r'
  tx_drop : ∀ r, tx r → 0 < room r → r.remove ≠ r.add →
    h.txTaken = 0 ∧ tx r.drop ∧ room r.drop + 1 = room r

/-- The account and what is relied on. -/
structure Rely.Holds (R : Rely h) (sc : Softc) : Prop where
  inv : Inv h sc
  charged : Charged sc
  rx : R.rx sc.rx
  tx : R.tx sc.tx
  free : R.free ≤ sc.freelist.length

/-- An interrupt routine with these rounds does not get in the way. -/
def Rely.Permits (R : Rely h) (sc : Softc) (rounds : List Round) : Prop :=
  (R.busy → rcvTotal sc.intmask rounds = 0) ∧
    min (xmtTotal sc.intmask rounds) sc.tx.count ≤ R.room sc.tx

lemma gap_rxCurr (rcv : Fin maxrxdscr) : gap sc.rx.remove (rxCurr sc rcv) = rcv :=
  gap_advance rcv.isLt

lemma gap_txCurr (xmt : ℕ) : gap sc.tx.remove (txCurr sc xmt) = min xmt sc.tx.count := by
  have := sc.tx.count_lt
  exact gap_advance (by omega)

lemma procrxring_spec (R : Rely h) (H : R.Holds sc) (hout : h.rxOut ≤ 1) {rcv : Fin maxrxdscr}
    (hdr0 : ℕ → BitVec 32) (hbusy : R.busy → rcv = 0) :
    ∃ sc', bcm4401Procrxring sc rcv hdr0 = some sc' ∧ R.Holds sc' ∧ sc'.tx = sc.tx ∧
      Kept sc sc' := by
  by_cases hb : R.busy
  · -- nothing is taken
    refine ⟨sc, ?_, H, rfl, Kept.refl sc⟩
    simp [bcm4401Procrxring, gap_rxCurr, hbusy hb, rxTurns]
  · obtain ⟨htaken, hopened, hfree, hrx⟩ := R.of_not_busy hb _ H.rx
    obtain ⟨sc', hturns, H', htx, -, hkept⟩ :=
      rxTurns_spec hdr0 H.inv H.charged htaken hopened hout rfl
    refine ⟨sc', hturns, ⟨H', H.charged.of_kept hkept, hrx _, htx ▸ H.tx, ?_⟩, htx, hkept⟩
    rw [hfree]
    exact Nat.zero_le _

lemma txTurns_spec (R : Rely h) {txcurr : Fin maxtxdscr} {k : ℕ} (H : R.Holds sc)
    (hgap : gap sc.tx.remove txcurr = k) (hcount : k ≤ sc.tx.count) (hroom : k ≤ R.room sc.tx) :
    ∃ sc', txTurns txcurr k sc = some sc' ∧ R.Holds sc' ∧ sc'.tx.remove = txcurr ∧
      sc'.tx.count + k = sc.tx.count ∧ R.room sc'.tx + k = R.room sc.tx ∧ Kept sc sc' := by
  induction k generalizing sc with
  | zero => exact ⟨sc, rfl, H, gap_eq_zero_iff.mp hgap, rfl, rfl, Kept.refl sc⟩
  | succ k ih =>
    have hcurr : sc.tx.remove ≠ txcurr := fun heq => by simp [heq] at hgap
    have hne : sc.tx.remove ≠ sc.tx.add := by
      intro heq
      have hzero : sc.tx.count = 0 := gap_eq_zero_iff.mpr heq
      omega
    obtain ⟨htaken, htx, hroom'⟩ := R.tx_drop sc.tx H.tx (by omega) hne
    obtain ⟨sc₁, hturn, H₁, hrx₁, htx₁, hfree₁, hkept₁⟩ := txTurn_spec H.inv htaken hne
    have hgap₁ : gap sc₁.tx.remove txcurr = k := by
      have := gap_wrapSucc_left hcurr
      rw [htx₁, Ring.drop_remove]
      omega
    have hcount₁ := Ring.count_drop hne
    rw [← htx₁] at htx hroom' hcount₁
    obtain ⟨sc₂, hturns, H₂, hremove₂, hcount₂, hroom₂, hkept₂⟩ :=
      ih ⟨H₁, H.charged.of_kept hkept₁, hrx₁ ▸ H.rx, htx, H.free.trans hfree₁⟩ hgap₁ (by omega)
        (by omega)
    refine ⟨sc₂, ?_, H₂, hremove₂, by omega, by omega, hkept₁.trans hkept₂⟩
    rw [txTurns, if_neg hcurr, hturn]
    exact hturns

lemma proctxring_spec (R : Rely h) (H : R.Holds sc) {xmt : ℕ}
    (hroom : min xmt sc.tx.count ≤ R.room sc.tx) :
    ∃ sc', bcm4401Proctxring sc xmt = some sc' ∧ R.Holds sc' ∧
      sc'.tx.count + min xmt sc.tx.count = sc.tx.count ∧
      R.room sc'.tx + min xmt sc.tx.count = R.room sc.tx ∧ Kept sc sc' := by
  obtain ⟨sc', hturns, H', -, hcount', hroom', hkept⟩ :=
    txTurns_spec R H (gap_txCurr xmt) (min_le_right _ _) hroom
  refine ⟨sc', ?_, H', hcount', hroom', hkept⟩
  rw [bcm4401Proctxring, gap_txCurr]
  exact hturns

lemma isrTo_spec (R : Rely h) (H : R.Holds sc) (status : BitVec 32) :
    R.Holds (isrTo status sc) ∧ (isrTo status sc).tx.count = sc.tx.count ∧
      R.room (isrTo status sc).tx = R.room sc.tx ∧ Kept sc (isrTo status sc) := by
  rw [isrTo]
  split_ifs
  · have I := H.inv
    exact ⟨⟨⟨I.pool, I.begun, I.passed_nodup, I.passed_freed, I.onring, I.replaced⟩,
      H.charged, H.rx, H.tx, H.free⟩, rfl, rfl, ⟨rfl, rfl, rfl⟩⟩
  · exact ⟨H, rfl, rfl, Kept.refl sc⟩

lemma isrRound_spec (R : Rely h) (hout : h.rxOut ≤ 1) (H : R.Holds sc) {status : BitVec 32}
    {r : Round} (hbusy : R.busy → status &&& mIntRi ≠ 0 → r.rcv = 0)
    (hroom : status &&& mIntXi ≠ 0 → min r.xmt sc.tx.count ≤ R.room sc.tx) :
    ∃ sc', isrRound sc status r = some sc' ∧ R.Holds sc' ∧ Kept sc sc' ∧
      ∃ k, k = (if status &&& mIntXi ≠ 0 then min r.xmt sc.tx.count else 0) ∧
        sc'.tx.count + k = sc.tx.count ∧ R.room sc'.tx + k = R.room sc.tx := by
  have hrx : ∃ sc₁, isrRx status r sc = some sc₁ ∧ R.Holds sc₁ ∧ sc₁.tx = sc.tx ∧
      Kept sc sc₁ := by
    rw [isrRx]
    split_ifs with hri
    · exact procrxring_spec R H hout r.hdr0 fun hb => hbusy hb hri
    · exact ⟨sc, rfl, H, rfl, Kept.refl sc⟩
  obtain ⟨sc₁, hsc₁, H₁, htx₁, hkept₁⟩ := hrx
  have htx : ∃ sc₂, isrTx status r sc₁ = some sc₂ ∧ R.Holds sc₂ ∧ Kept sc₁ sc₂ ∧
      ∃ k, k = (if status &&& mIntXi ≠ 0 then min r.xmt sc.tx.count else 0) ∧
        sc₂.tx.count + k = sc.tx.count ∧ R.room sc₂.tx + k = R.room sc.tx := by
    rw [isrTx]
    split_ifs with hxi
    · obtain ⟨sc₂, hsc₂, H₂, hcount₂, hroom₂, hkept₂⟩ :=
        proctxring_spec R H₁ (by rw [htx₁]; exact hroom hxi)
      rw [htx₁] at hcount₂ hroom₂
      exact ⟨sc₂, hsc₂, H₂, hkept₂, _, rfl, hcount₂, hroom₂⟩
    · exact ⟨sc₁, rfl, H₁, Kept.refl sc₁, 0, rfl, by rw [htx₁]; rfl, by rw [htx₁]; rfl⟩
  obtain ⟨sc₂, hsc₂, H₂, hkept₂, k, hk, hcount₂, hroom₂⟩ := htx
  obtain ⟨H₃, hcount₃, hroom₃, hkept₃⟩ := isrTo_spec R H₂ status
  refine ⟨isrTo status sc₂, ?_, H₃, (hkept₁.trans hkept₂).trans hkept₃, k, hk, by omega, by omega⟩
  rw [isrRound, hsc₁, Option.bind_some, hsc₂]
  rfl

/-- The interrupt routine comes to its end and keeps what the main program relies on. -/
lemma isr_spec (R : Rely h) (hout : h.rxOut ≤ 1) {rounds : List Round} (H : R.Holds sc)
    (hpermits : R.Permits sc rounds) :
    ∃ sc', bcm4401Isr rounds sc = some sc' ∧ R.Holds sc' ∧ Kept sc sc' := by
  induction rounds generalizing sc with
  | nil => exact ⟨sc, rfl, H, Kept.refl sc⟩
  | cons r rounds ih =>
    obtain ⟨hbusy, hroom⟩ := hpermits
    simp only [rcvTotal, xmtTotal] at hbusy hroom
    rw [bcm4401Isr]
    by_cases hstatus : r.status &&& sc.intmask = 0
    · exact ⟨sc, by simp [hstatus], H, Kept.refl sc⟩
    simp only [hstatus, if_false] at hbusy hroom ⊢
    have hrcv : R.busy → r.status &&& sc.intmask &&& mIntRi ≠ 0 → r.rcv = 0 := by
      intro hb hri
      have htotal := hbusy hb
      rw [if_pos hri] at htotal
      exact Fin.ext (Nat.eq_zero_of_add_eq_zero_right htotal)
    have hxmt : r.status &&& sc.intmask &&& mIntXi ≠ 0 → min r.xmt sc.tx.count ≤ R.room sc.tx := by
      intro hxi
      rw [if_pos hxi] at hroom
      omega
    obtain ⟨sc₁, hround, H₁, hkept₁, k, hk, hcount₁, hroom₁⟩ := isrRound_spec R hout H hrcv hxmt
    have hpermits₁ : R.Permits sc₁ rounds := by
      rw [Rely.Permits, hkept₁.intmask]
      constructor
      · intro hb
        have htotal := hbusy hb
        omega
      · split_ifs at hk hroom <;> omega
    obtain ⟨sc₂, hrest, H₂, hkept₂⟩ := ih H₁ hpermits₁
    refine ⟨sc₂, ?_, H₂, hkept₁.trans hkept₂⟩
    rw [hround]
    exact hrest

/-! ### Whole runs -/

/-- Between two functions the main program has nothing in its hand and relies on nothing. -/
def Rely.idle : Rely Hand.empty where
  busy := False
  rx := fun _ => True
  tx := fun _ => True
  room := Ring.count
  free := 0
  of_not_busy := fun _ _ _ => ⟨rfl, rfl, rfl, fun _ => trivial⟩
  tx_drop := fun _ _ _ hne => ⟨rfl, trivial, Ring.count_drop hne⟩

lemma isr_idle (H : Inv Hand.empty sc) (hcharged : Charged sc) (rounds : List Round) :
    ∃ sc', bcm4401Isr rounds sc = some sc' ∧ Inv Hand.empty sc' ∧ Charged sc' := by
  have hpermits : Rely.idle.Permits sc rounds := ⟨False.elim, min_le_right _ _⟩
  obtain ⟨sc', hisr, H', -⟩ := isr_spec Rely.idle (Nat.zero_le 1)
    ⟨H, hcharged, trivial, trivial, Nat.zero_le _⟩ hpermits
  exact ⟨sc', hisr, H'.inv, H'.charged⟩

lemma Inv.outputBody (H : Inv Hand.empty sc) (hcharged : Charged sc) (bufLength : ℤ) :
    Inv Hand.empty (outputBody sc bufLength).1 ∧ Charged (outputBody sc bufLength).1 := by
  rw [Mac.outputBody]
  by_cases hfree : sc.freelist = []
  · have halloc : ethAllocPkt sc = (sc, none) := by rw [ethAllocPkt, hfree]
    rw [halloc]
    exact ⟨H, hcharged⟩
  · obtain ⟨sc₁, pkt, halloc, hrx, htx, hkept⟩ := exists_alloc hfree
    simp only [halloc]
    generalize (if bufLength > sc₁.length pkt then sc₁.length pkt else bufLength) = blen
    have H₁ : Inv { Hand.empty with held := [pkt] } (Mac.setLength sc₁ pkt blen) :=
      (Inv.alloc H halloc).setLength pkt blen
    have hcharged₁ : Charged sc₁ := hcharged.of_kept hkept
    by_cases hfull : (Mac.setLength sc₁ pkt blen).tx.full
    · rw [show bcm4401Transmit (Mac.setLength sc₁ pkt blen) pkt = _ from if_pos hfull]
      exact ⟨Inv.free H₁, hcharged₁⟩
    · rw [show bcm4401Transmit (Mac.setLength sc₁ pkt blen) pkt = _ from if_neg hfull]
      exact ⟨Inv.putTx H₁ rfl hfull, hcharged₁⟩

lemma cfeOutput_idle (H : Inv Hand.empty sc) (hcharged : Charged sc) (bufLength : ℤ)
    (before after : List Round) :
    ∃ sc' r, cfeOutput bufLength before after sc = some (sc', r) ∧ Inv Hand.empty sc' ∧
      Charged sc' := by
  obtain ⟨sc₁, hbefore, H₁, hcharged₁⟩ := isr_idle H hcharged before
  rw [cfeOutput, hbefore, Option.bind_some]
  split_ifs with hstate
  · exact ⟨sc₁, -1, rfl, H₁, hcharged₁⟩
  · obtain ⟨H₂, hcharged₂⟩ := H₁.outputBody hcharged₁ bufLength
    dsimp only
    split_ifs with hr
    · exact ⟨_, _, rfl, H₂, hcharged₂⟩
    · obtain ⟨sc₃, hafter, H₃, hcharged₃⟩ := isr_idle H₂ hcharged₂ after
      exact ⟨sc₃, 0, by rw [hafter]; rfl, H₃, hcharged₃⟩

/-! ### Initialization -/

lemma foldl_ethFreePkt (pkts : List PktId) (sc : Softc) :
    pkts.foldl ethFreePkt sc = { sc with freelist := sc.freelist ++ pkts } := by
  induction pkts generalizing sc with
  | nil => simp
  | cons pkt pkts ih => simp [ih, ethFreePkt]

/-- The ring is filled as long as there are buffers and slots. -/
lemma fillTurns_spec {k : ℕ} (H : Inv Hand.empty sc)
    (honring : sc.rxdscrOnring + k = minrxring) (hfree : k ≤ sc.freelist.length) :
    Inv Hand.empty (fillTurns k sc) ∧ Charged (fillTurns k sc) := by
  induction k generalizing sc with
  | zero => exact ⟨H, by simpa [Charged, fillTurns] using honring⟩
  | succ k ih =>
    have hlow : ¬ sc.rxdscrOnring ≥ minrxring := by
      push_cast at honring
      omega
    obtain ⟨pkt, freelist, hcons⟩ :=
      List.exists_cons_of_ne_nil (List.ne_nil_of_length_pos (by omega : 0 < sc.freelist.length))
    let sc₁ := Mac.setLength { sc with freelist := freelist } pkt ethPktbufLen
    have halloc : ethAllocPkt sc = (sc₁, some pkt) := by simp [ethAllocPkt, hcons, sc₁]
    have hfull : ¬ sc₁.rx.full := by
      refine Ring.not_full_of_count (?_ : sc.rx.count + 1 < maxrxdscr)
      have hcount : (sc.rx.count : ℤ) + (0 : ℕ) = sc.rxdscrOnring := H.onring
      simp only [minrxring, maxrxdscr] at hlow ⊢
      omega
    have hadd : bcm4401AddRcvbuf sc₁ pkt = (Mac.putRx sc₁ pkt, 0) := if_neg hfull
    -- `rxdscr_onring` counts the new buffer from the moment it is in hand
    let sc₂ : Softc := { sc₁ with rxdscrOnring := sc₁.rxdscrOnring + 1 }
    have H₁ := H.alloc halloc
    have H₂ : Inv { Hand.empty with held := [pkt], rxOut := 0 + 1 } sc₂ :=
      ⟨H₁.pool, H₁.begun, H₁.passed_nodup, H₁.passed_freed,
        congrArg (· + 1) H.onring, H₁.replaced⟩
    have H₃ := Inv.putRx (h := Hand.empty) (k := 0) H₂ rfl hfull
    have hrest := ih H₃ (by
      change sc.rxdscrOnring + 1 + k = minrxring
      push_cast at honring
      omega) (by
      change k ≤ freelist.length
      rw [hcons, List.length_cons] at hfree
      omega)
    rw [fillTurns, if_neg hlow, halloc]
    dsimp only
    rw [hadd]
    exact hrest

lemma inv_init (state : EthState) (intmask : BitVec 32) :
    Inv Hand.empty (bcm4401Init state intmask) ∧ Charged (bcm4401Init state intmask) := by
  rw [bcm4401Init, ethInitfreelist, foldl_ethFreePkt, bcm4401Initrings, bcm4401Fillrxring]
  refine fillTurns_spec ⟨?_, ?_, List.nodup_nil, by simp [Hist.empty], rfl, by simp [Hist.empty]⟩
    rfl ?_
  · simp [holders, Hand.empty, Ring.toList, Ring.count]
  · simp [stays, Hand.empty, Ring.toList, Ring.count, Hist.empty]
  · simp [minrxring, ethPktpoolSize]

/-- A complete run of one of the two routines. -/
inductive Event where
  | isr (rounds : List Round)
  | output (bufLength : ℤ) (before after : List Round)

def step (sc : Softc) : Event → Option Softc
  | .isr rounds => bcm4401Isr rounds sc
  | .output bufLength before after => (cfeOutput bufLength before after sc).map Prod.fst

/-- Each buffer is in exactly one place, `rxdscr_onring` is the number of buffers on the receive
ring and stays at 8, and `bcm4401_procrxring` has always had a buffer and a slot to replace the
one it has taken. -/
structure Balanced (sc : Softc) : Prop where
  pool : (sc.freelist.map some ++ sc.rx.toList.map Dscr.bufptr ++
    sc.tx.toList.map Dscr.bufptr).Perm ((List.finRange ethPktpoolSize).map some)
  onring : sc.rxdscrOnring = sc.rx.toList.length
  eight : sc.rxdscrOnring = 8
  replaced : ∀ r ∈ sc.hist.replaced, r = some 0

lemma Inv.balanced (H : Inv Hand.empty sc) (hcharged : Charged sc) : Balanced sc where
  pool := by simpa [holders, Hand.empty] using H.pool
  onring := by simpa [Hand.empty] using H.onring.symm
  eight := hcharged
  replaced := H.replaced

/-- Every sequence of complete runs after the initialization goes through, and leaves the buffers
balanced. -/
theorem runs_balanced (state : EthState) (intmask : BitVec 32) (es : List Event) :
    ∃ sc, run step (bcm4401Init state intmask) es = some sc ∧ Balanced sc := by
  suffices hrun : ∀ sc, Inv Hand.empty sc → Charged sc →
      ∃ sc', run step sc es = some sc' ∧ Inv Hand.empty sc' ∧ Charged sc' by
    obtain ⟨H, hcharged⟩ := inv_init state intmask
    obtain ⟨sc, hsc, H', hcharged'⟩ := hrun _ H hcharged
    exact ⟨sc, hsc, H'.balanced hcharged'⟩
  induction es with
  | nil => exact fun sc H hcharged => ⟨sc, rfl, H, hcharged⟩
  | cons e es ih =>
    intro sc H hcharged
    have hstep : ∃ sc₁, step sc e = some sc₁ ∧ Inv Hand.empty sc₁ ∧ Charged sc₁ := by
      cases e with
      | isr rounds => exact isr_idle H hcharged rounds
      | output bufLength before after =>
        obtain ⟨sc₁, r, hout, H₁, hcharged₁⟩ := cfeOutput_idle H hcharged bufLength before after
        exact ⟨sc₁, by rw [step, hout]; rfl, H₁, hcharged₁⟩
    obtain ⟨sc₁, hsc₁, H₁, hcharged₁⟩ := hstep
    obtain ⟨sc₂, hsc₂, H₂⟩ := ih sc₁ H₁ hcharged₁
    exact ⟨sc₂, by rw [run_cons, hsc₁]; exact hsc₂, H₂⟩

end BcmMruby.Mac
