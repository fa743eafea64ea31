import BcmMruby.Core.Crc
import BcmMruby.Nvram.Commit

/-!
# The checksum of the nvram

`crc8_table` is the table of a polynomial with a constant term, so `nvram_crc` tells two blocks
apart that differ in a burst of up to eight bits. `nvram_find` prints a message when the checksum
is wrong; it never does for a block that `nvram_commit` wrote, and always for one that was damaged
by a burst behind the checksum.
-/

namespace BcmMruby.Nvram

open Core Core.Crc

/-- `x^8 + x^7 + x^6 + x^4 + x^2 + 1`, the highest power in the lowest bit. -/
def crc8Poly : BitVec 8 := 0xab

lemma crc8Table_table : Table crc8Poly crc8Table := by
  rw [Table]
  decide +kernel

lemma nvramCrc_eq_check (hdr : ℕ → Byte) (len : ℕ) :
    nvramCrc hdr len = check crc8Poly 0xff (messageBits (load hdr 9 (len - 9))) := by
  have hstep : tableStep crc8Table = fun crc b => crc8Table.getD (crc ^^^ b).toNat 0 := by
    funext crc b
    have hshift : crc >>> 8 = 0 := BitVec.ushiftRight_eq_zero le_rfl
    rw [tableStep, BitVec.setWidth_eq, BitVec.setWidth_eq, hshift]
    exact BitVec.xor_zero
  rw [check_messageBits le_rfl crc8Table_table, hstep, nvramCrc]

/-- `nvram_find` finds the magic number, and prints that the checksum is wrong. -/
def crcReported (window : ℕ → Byte) : Bool :=
  loadWord window 0 = nvramMagic &&
    nvramCrc window (loadWord window 4).toNat ≠ (loadHeader window).crc

/-- A block that `nvram_commit` wrote is found without a message. When it is damaged in up to eight
bits in a row behind the checksum, `nvram_find` says so. -/
theorem burst_reported (s : Store) (hsize : commitSize s ≤ nvramSpace)
    (hmagic : s.nvHeader.magic = nvramMagic) (window : ℕ → Byte)
    (hblock : load window 0 (commitSize s) = block s (commitHeader s)) :
    crcReported window = false ∧
      ∀ (window' : ℕ → Byte) (start : ℕ), load window' 0 9 = load window 0 9 →
        Burst start 8 (messageBits (load window 9 (commitSize s - 9)))
          (messageBits (load window' 9 (commitSize s - 9))) →
        crcReported window' = true := by
  have hcrc := nvramCrc_block hsize hblock
  have hlt := lt_commitSize s
  have hlen := toNat_len_commitHeader hsize
  obtain ⟨k, heq, -⟩ := block_eq (show headerSize + (terminated s.bindings).length <
    (commitHeader s).len.toNat by omega)
  obtain ⟨hfront, -⟩ := load_of_eq_append (heq ▸ hblock)
  obtain ⟨hheader, -⟩ := load_of_eq_append hfront
  have hload := loadHeader_eq hheader
  have hmagic₀ : loadWord window 0 = nvramMagic := (congrArg Header.magic hload).trans hmagic
  have hlen₄ : (loadWord window 4).toNat = commitSize s := by
    rw [show loadWord window 4 = (commitHeader s).len from congrArg Header.len hload, hlen]
  refine ⟨?_, ?_⟩
  · rw [crcReported, hlen₄, hcrc, hload]
    simp
  · intro window' start hfirst hburst
    have hsame : ∀ i < 9, window' i = window i := fun i hi =>
      eq_of_load_eq hfirst (Nat.zero_le i) (by omega)
    have hmagic' : loadWord window' 0 = nvramMagic :=
      (loadWord_congr fun i hi => hsame _ (by omega)).trans hmagic₀
    have hlen' : (loadWord window' 4).toNat = commitSize s := by
      rw [loadWord_congr fun i hi => hsame (4 + i) (by omega), hlen₄]
    have hstored : (loadHeader window').crc = (loadHeader window).crc := by
      have hlow : ∀ m : ℕ → Byte, (loadHeader m).crc = m 8 := by
        intro m
        apply BitVec.eq_of_getLsbD_eq
        intro i hi
        simp [loadHeader, Header.crc, loadWord, Core.word, hi]
      rw [hlow, hlow, hsame 8 (by decide)]
    have hne := check_ne_of_burst (show crc8Poly.msb = true by decide) hburst 0xff
    rw [← nvramCrc_eq_check, ← nvramCrc_eq_check, hcrc] at hne
    rw [crcReported, hlen', hstored, hload, hmagic']
    simpa using hne.symm

/-- The block of a store that binds `a`, with the value of `a` changed. -/
theorem burst_reported_value :
    let s := (nvramSet (nvramInit (fun _ => 0) []) nameA nameA true).2
    nvramGet s nameA = some [0x61] ∧
      crcReported (fun i => (block s (commitHeader s)).getD i 0) = false ∧
      crcReported (fun i => ((block s (commitHeader s)).set 22 0x63).getD i 0) = true := by
  intro s
  have hwindow : load (fun i => (block s (commitHeader s)).getD i 0) 0 (commitSize s) =
      block s (commitHeader s) := by
    rw [load_getD (by decide +kernel), List.drop_zero, List.take_of_length_le (by decide +kernel)]
  obtain ⟨hintact, hdamaged⟩ := burst_reported s (by decide +kernel) (by decide +kernel) _ hwindow
  refine ⟨by decide +kernel, hintact, hdamaged _ (8 * 13) (by decide +kernel) ?_⟩
  -- the header from the checksum on, and the name
  let before := load (fun i => (block s (commitHeader s)).getD i 0) 9 13
  have hbefore : load (fun i => (block s (commitHeader s)).getD i 0) 9 (commitSize s - 9) =
      before ++ 0x61 :: List.replicate 5 0 := by decide +kernel
  have hafter : load (fun i => ((block s (commitHeader s)).set 22 0x63).getD i 0) 9
      (commitSize s - 9) = before ++ 0x63 :: List.replicate 5 0 := by decide +kernel
  rw [hbefore, hafter]
  exact burst_of_byte le_rfl (by decide) before _

end BcmMruby.Nvram
