import BcmMruby.Lwip
import BcmMruby.Mac.Basic

/-!
# The output routine of the link

`low_level_output` hands `cfe_output` the length of a packet and the address of its first payload,
and makes nothing of the result. Here the driver has the contents of its packet buffers, and a
list of the frames it has placed on the transmit ring.
-/

namespace BcmMruby.Ether.Output

open Core Mac

structure Driver where
  sc : Softc
  data : PktId → ℕ → Byte
  /-- The frames placed, each as its descriptor shows it. -/
  placed : List (List Byte)

def errOk : ℤ := 0

/-- What `cfe_output` does between its two polls. -/
def outputBody (mem : ℕ → Byte) (bufLength : ℤ) (bufPtr : ℕ) (d : Driver) : Driver × ℤ :=
  match ethAllocPkt d.sc with
  | (sc, none) => ({ d with sc }, cfeErrNomem)
  | (sc, some pkt) =>
    let blen := if bufLength > sc.length pkt then sc.length pkt else bufLength
    let buffer := store (d.data pkt) 0 (load mem bufPtr blen.toNat)
    let data := Function.update d.data pkt buffer
    let (sc, r) := bcm4401Transmit (setLength sc pkt blen) pkt
    if r ≠ 0 then ({ d with sc := ethFreePkt sc pkt, data }, cfeErrIoerr)
    else ({ sc, data, placed := d.placed ++ [load buffer 0 (sc.length pkt).toNat] }, 0)

/-- `mem` is the memory as the first poll leaves it. -/
def cfeOutput (mem : ℕ → Byte) (bufLength : ℤ) (bufPtr : ℕ) (before after : List Round)
    (d : Driver) : Option (Driver × ℤ) :=
  (bcm4401Isr before d.sc).bind fun sc =>
    let d := { d with sc }
    if sc.state ≠ .on then some (d, -1)
    else
      let (d, r) := outputBody mem bufLength bufPtr d
      if r ≠ 0 then some (d, r) else (bcm4401Isr after d.sc).map fun sc => ({ d with sc }, 0)

def lowLevelOutput (mem : ℕ → Byte) (p : Lwip.Packet) (before after : List Round) (d : Driver) :
    Option (Driver × ℤ) :=
  (cfeOutput mem p.totLen p.first.payload before after d).map fun (d, _) => (d, errOk)

lemma outputBody_eq (mem : ℕ → Byte) (bufLength : ℤ) (bufPtr : ℕ) (d : Driver) :
    ((outputBody mem bufLength bufPtr d).1.sc, (outputBody mem bufLength bufPtr d).2) =
      Mac.outputBody d.sc bufLength := by
  rw [outputBody, Mac.outputBody]
  rcases ethAllocPkt d.sc with ⟨sc, _ | pkt⟩
  · rfl
  · dsimp only
    split_ifs <;> rfl

/-- Apart from the contents this is the routine of the driver. -/
lemma map_cfeOutput (mem : ℕ → Byte) (bufLength : ℤ) (bufPtr : ℕ) (before after : List Round)
    (d : Driver) :
    (cfeOutput mem bufLength bufPtr before after d).map (fun (d, r) => (d.sc, r)) =
      Mac.cfeOutput bufLength before after d.sc := by
  rw [cfeOutput, Mac.cfeOutput]
  cases bcm4401Isr before d.sc with
  | none => rfl
  | some sc =>
    rw [Option.bind_some, Option.bind_some, ← outputBody_eq mem bufLength bufPtr { d with sc }]
    dsimp only
    split_ifs
    · rfl
    · rfl
    · rw [Option.map_map]
      rfl

/-- The driver can place a whole packet of this length. -/
structure Fits (sc : Softc) (p : Lwip.Packet) : Prop where
  on : sc.state = .on
  free : sc.freelist ≠ []
  room : ¬ sc.tx.full
  short : p.totLen ≤ ethPktbufLen

/-- `sc` is the state behind the first poll. -/
structure Correct (mem : ℕ → Byte) (p : Lwip.Packet) (sc : Softc) (d d' : Driver) (r : ℤ) :
    Prop where
  ok : r = errOk → d'.placed = d.placed ++ [p.bytes mem]
  failed : ¬ Fits sc p → r ≠ errOk ∧ d'.placed = d.placed ∧ d'.sc.tx = sc.tx

/-- Where the packet fits, the length is not cut and all of it is copied from the first payload
on. -/
lemma outputBody_of_fits (mem : ℕ → Byte) {p : Lwip.Packet} {d : Driver} (h : Fits d.sc p) :
    (outputBody mem p.totLen p.first.payload d).2 = 0 ∧
      (outputBody mem p.totLen p.first.payload d).1.placed =
        d.placed ++ [load mem p.first.payload p.totLen] := by
  obtain ⟨pkt, freelist, hfree⟩ := List.exists_cons_of_ne_nil h.free
  have hblen : (if (p.totLen : ℤ) > ethPktbufLen then ethPktbufLen else (p.totLen : ℤ)) =
      p.totLen := if_neg h.short.not_gt
  have hcopy := load_store_self (d.data pkt) 0 (load mem p.first.payload p.totLen)
  rw [length_load] at hcopy
  simp [outputBody, ethAllocPkt, hfree, setLength, hblen, bcm4401Transmit, bcm4401AddTxbuf, h.room,
    putTx, storeTxAdd, writeTx, hcopy]

lemma placed_cfeOutput {mem : ℕ → Byte} {p : Lwip.Packet} {before after : List Round}
    {d d' : Driver} {sc : Softc} {r : ℤ} (hbefore : bcm4401Isr before d.sc = some sc)
    (h : Fits sc p)
    (hout : cfeOutput mem p.totLen p.first.payload before after d = some (d', r)) :
    d'.placed = d.placed ++ [load mem p.first.payload p.totLen] := by
  obtain ⟨hr, hplaced⟩ := outputBody_of_fits mem (d := { d with sc }) h
  simp only [cfeOutput, hbefore, Option.bind_some, h.on, ne_eq, not_true_eq_false, if_false, hr]
    at hout
  obtain ⟨sc', -, heq⟩ := Option.map_eq_some_iff.mp hout
  obtain ⟨rfl, -⟩ := Prod.mk.inj heq
  exact hplaced

/-- Whatever the packet and the driver, the result is `ERR_OK`. That is right exactly if the driver
can place the packet whole and its payloads lie one behind the other in memory. -/
theorem lowLevelOutput_iff {mem : ℕ → Byte} {p : Lwip.Packet} {before after : List Round}
    {d d' : Driver} {sc : Softc} {r : ℤ} (hbefore : bcm4401Isr before d.sc = some sc)
    (hout : lowLevelOutput mem p before after d = some (d', r)) :
    Correct mem p sc d d' r ↔ Fits sc p ∧ p.Flat mem := by
  obtain ⟨⟨d₁, r₁⟩, hcfe, heq⟩ := Option.map_eq_some_iff.mp hout
  obtain ⟨rfl, rfl⟩ := Prod.mk.inj heq
  by_cases hfits : Fits sc p
  · rw [p.flat_iff, and_iff_right hfits]
    have hframe : d₁.placed = d.placed ++ [load mem p.first.payload p.totLen] :=
      placed_cfeOutput hbefore hfits hcfe
    constructor
    · intro h
      have hbytes := hframe.symm.trans (h.ok rfl)
      rwa [List.append_cancel_left_eq, List.singleton_inj] at hbytes
    · intro hflat
      exact ⟨fun _ => hflat ▸ hframe, fun hnot => absurd hfits hnot⟩
  · rw [iff_false_right (fun h => hfits h.1)]
    exact fun h => (h.failed hfits).1 rfl

/-- The driver right after `bcm4401_init`, with the interface on or not yet. -/
def initial (state : EthState) : Driver := ⟨bcm4401Init state 0, fun _ _ => 0, []⟩

/-- A memory in which every byte is its own address. -/
def counting : ℕ → Byte := BitVec.ofNat 8

def inOne : Lwip.Packet := ⟨⟨0, 2⟩, [], 2, rfl⟩

/-- The payloads are two bytes apart. -/
def inTwo : Lwip.Packet := ⟨⟨0, 1⟩, [⟨3, 1⟩], 2, rfl⟩

theorem lowLevelOutput_iff_inOne :
    ∃ d' r, lowLevelOutput counting inOne [] [] (initial .on) = some (d', r) ∧
      Correct counting inOne (initial .on).sc (initial .on) d' r := by
  obtain ⟨⟨d', r⟩, h⟩ : ∃ out, lowLevelOutput counting inOne [] [] (initial .on) = some out :=
    Option.isSome_iff_exists.mp rfl
  exact ⟨d', r, h, (lowLevelOutput_iff rfl h).mpr
    ⟨⟨by decide, by decide, by decide, by decide⟩, Lwip.Packet.flat_of_rest_eq_nil rfl _⟩⟩

/-- A packet in two pbufs goes out with the byte behind the first payload in place of the second
payload; and with the interface off nothing goes out. The result is `ERR_OK` both times. -/
theorem lowLevelOutput_loses :
    (∃ d', lowLevelOutput counting inTwo [] [] (initial .on) = some (d', errOk) ∧
      d'.placed = [[0, 1]] ∧ inTwo.bytes counting = [0, 3] ∧
      ¬ Correct counting inTwo (initial .on).sc (initial .on) d' errOk) ∧
    ∃ d', lowLevelOutput counting inOne [] [] (initial .off) = some (d', errOk) ∧
      d'.placed = [] ∧ ¬ Correct counting inOne (initial .off).sc (initial .off) d' errOk := by
  have hchain : (lowLevelOutput counting inTwo [] [] (initial .on)).map (fun x => (x.1.placed, x.2))
      = some ([[0, 1]], errOk) := rfl
  have hoff : (lowLevelOutput counting inOne [] [] (initial .off)).map
      (fun x => (x.1.placed, x.2)) = some ([], errOk) := rfl
  obtain ⟨⟨d, r⟩, hout, heq⟩ := Option.map_eq_some_iff.mp hchain
  obtain ⟨⟨d', r'⟩, hout', heq'⟩ := Option.map_eq_some_iff.mp hoff
  obtain ⟨hplaced, rfl⟩ := Prod.mk.inj heq
  obtain ⟨hplaced', rfl⟩ := Prod.mk.inj heq'
  refine ⟨⟨d, hout, hplaced, rfl, fun h => ?_⟩, ⟨d', hout', hplaced', fun h => ?_⟩⟩
  · exact absurd (hplaced.symm.trans (h.ok rfl)) (by decide)
  · exact absurd (hplaced'.symm.trans (h.ok rfl)) (by decide)

end BcmMruby.Ether.Output
