import BcmMruby.Nvram.Map

/-!
# The accesses of `nvram_init`

The length of the block comes from the flash. `nvram_find` and `nvram_internalize` are looked at
here by the memory they access: the flash from the start of the window on, and the working copy.
-/

namespace BcmMruby.Nvram

open Core

/-- An access by the offset it begins at and the number of bytes. -/
inductive Access where
  | flash (off size : ℕ)
  /-- A write to the working copy. -/
  | write (off size : ℕ)
  /-- The characters of a string in the working copy. -/
  | scan (off size : ℕ)
  deriving DecidableEq

/-- Which calls of `KMALLOC` succeed: that for the working copy, and that for the tuple of the
string at an offset. -/
structure Kmalloc where
  buffer : Bool
  tuple : ℕ → Bool

/-- `for (; i < hdr->len; i += stride)`, if it ends within `fuel` turns. -/
def forLoop (len : BitVec 32) (stride : ℕ) (body : ℕ → List Access) :
    ℕ → BitVec 32 → Option (List Access)
  | 0, _ => none
  | fuel + 1, i =>
    if i < len then
      (forLoop len stride body fuel (i + BitVec.ofNat 32 stride)).map (body i.toNat ++ ·)
    else some []

def nvramCrcAccesses (len : BitVec 32) (fuel : ℕ) : Option (List Access) :=
  forLoop len 1 (fun offset => [.flash offset 1]) fuel 9

def nvramFindAccesses (window : ℕ → Byte) (fuel : ℕ) : Option (List Access) :=
  if loadWord window 0 ≠ nvramMagic then some [.flash 0 4]
  else
    (nvramCrcAccesses (loadWord window 4) fuel).map fun crc =>
      .flash 0 4 :: .flash 8 4 :: .flash 4 4 :: crc

/-- `strcpy` and `nvram_hash` for the string of `n` characters at an offset. -/
def tupleScans (m : ℕ → Byte) (offset n : ℕ) : List Access :=
  [.scan offset (n + 1),
    .scan offset (((load m offset n).takeWhile (· ≠ equalsSign)).length + 1)]

/-- The loop over the strings of the working copy. A string has fewer than `2 ^ 32` characters. -/
def stringLoop (m : ℕ → Byte) (len : BitVec 32) (kmalloc : Kmalloc) :
    ℕ → BitVec 32 → Option (List Access)
  | 0, _ => none
  | fuel + 1, offset =>
    if offset < len then
      if m offset.toNat = 0 then some [.scan offset.toNat 1]
      else
        let n := strlen m (2 ^ 32) offset.toNat
        if kmalloc.tuple offset.toNat then
          (stringLoop m len kmalloc fuel (offset + BitVec.ofNat 32 (n + 1))).map fun rest =>
            .scan offset.toNat 1 :: .scan offset.toNat (n + 1) ::
              (tupleScans m offset.toNat n ++ rest)
        else some [.scan offset.toNat 1, .scan offset.toNat (n + 1)]
    else some []

/-- A word of the working copy. -/
def copyWord (i : ℕ) : List Access := [.flash i 4, .write i 4]

/-- The working copy, in memory that held `buffer` before. -/
def workingCopy (window buffer : ℕ → Byte) : ℕ → Byte :=
  store buffer 0 (load window 0 (max headerSize (wordAlign (loadWord window 4).toNat)))

def nvramInternalizeAccesses (window buffer : ℕ → Byte) (kmalloc : Kmalloc) (fuel : ℕ) :
    Option (List Access) :=
  let len := loadWord window 4
  (forLoop len 4 copyWord fuel (BitVec.ofNat 32 headerSize)).bind fun tuples =>
    (stringLoop (workingCopy window buffer) len kmalloc fuel (BitVec.ofNat 32 headerSize)).map
      fun scans => .flash 4 4 :: ([0, 4, 8, 12, 16].flatMap copyWord ++ tuples ++ scans)

def nvramInitAccesses (window buffer : ℕ → Byte) (kmalloc : Kmalloc) (fuel : ℕ) :
    Option (List Access) :=
  (nvramFindAccesses window fuel).bind fun find =>
    if (nvramFind window).isSome then
      (nvramInternalizeAccesses window buffer kmalloc fuel).map fun internalize =>
        find ++ .flash 0 headerSize :: internalize
    else some find

/-! ### What is promised -/

/-- Inside the window, or inside the working copy for which `size` bytes were allocated. -/
def Access.Inside (size : ℕ) : Access → Prop
  | .flash off n => off + n ≤ nvramSpace
  | .write off n | .scan off n => off + n ≤ size

/-- What is allocated for the working copy. -/
def allocated (window : ℕ → Byte) (kmalloc : Kmalloc) : ℕ :=
  if kmalloc.buffer then (loadWord window 4).toNat else 0

/-- The loops end, and no access is outside. -/
def InBounds (window buffer : ℕ → Byte) (kmalloc : Kmalloc) : Prop :=
  ∃ fuel accesses, nvramInitAccesses window buffer kmalloc fuel = some accesses ∧
    ∀ a ∈ accesses, a.Inside (allocated window kmalloc)

/-! ### The condition -/

/-- A string of the flash begins here. -/
def StartsAt (window : ℕ → Byte) (i : ℕ) : Prop :=
  i = headerSize ∨ headerSize < i ∧ window (i - 1) = 0

/-- There is no string at all, or the last byte is 0, or there is an empty string before, or one
for which there is no memory. -/
def Closed (window : ℕ → Byte) (len : ℕ) (kmalloc : Kmalloc) : Prop :=
  len = headerSize ∨ window (len - 1) = 0 ∨
    ∃ i, StartsAt window i ∧ i < len ∧
      (window i = 0 ∨ kmalloc.tuple i = false ∧ ∃ j, i ≤ j ∧ j < len ∧ window j = 0)

/-- The length is that of whole words, the header included, within the window. -/
structure WellSized (window : ℕ → Byte) (kmalloc : Kmalloc) : Prop where
  buffer : kmalloc.buffer = true
  header : headerSize ≤ (loadWord window 4).toNat
  space : (loadWord window 4).toNat ≤ nvramSpace
  words : 4 ∣ (loadWord window 4).toNat
  closed : Closed window (loadWord window 4).toNat kmalloc

/-! ### The counted loops -/

/-- The turns that come before the end of the block are made. -/
lemma mem_forLoop {len : BitVec 32} {stride : ℕ} {body : ℕ → List Access} {fuel : ℕ}
    {i : BitVec 32} {accesses : List Access} (h : forLoop len stride body fuel i = some accesses)
    {k : ℕ} (hk : i.toNat + k * stride < len.toNat) {a : Access}
    (ha : a ∈ body (i.toNat + k * stride)) : a ∈ accesses := by
  induction k generalizing fuel i accesses with
  | zero =>
    cases fuel with
    | zero => cases h
    | succ fuel =>
      rw [Nat.zero_mul, Nat.add_zero] at hk ha
      rw [forLoop, if_pos (BitVec.lt_def.mpr hk)] at h
      obtain ⟨rest, -, rfl⟩ := Option.map_eq_some_iff.mp h
      exact List.mem_append_left _ ha
  | succ k ih =>
    cases fuel with
    | zero => cases h
    | succ fuel =>
      have hlen := len.isLt
      rw [Nat.succ_mul] at hk ha
      have hi : (i + BitVec.ofNat 32 stride).toNat = i.toNat + stride := by
        rw [BitVec.toNat_add, BitVec.toNat_ofNat, Nat.add_mod_mod, Nat.mod_eq_of_lt (by omega)]
      have hsum : i.toNat + (k * stride + stride) = i.toNat + stride + k * stride := by omega
      rw [hsum, ← hi] at hk ha
      rw [forLoop, if_pos (BitVec.lt_def.mpr (by omega))] at h
      obtain ⟨rest, hrest, rfl⟩ := Option.map_eq_some_iff.mp h
      exact List.mem_append_right _ (ih hrest hk ha)

/-- The loop ends if its counter does not wrap around, and makes no other turns. -/
lemma exists_forLoop {len : BitVec 32} {stride : ℕ} (body : ℕ → List Access)
    (hpos : 0 < stride) (hwrap : len.toNat + stride ≤ 2 ^ 32) {fuel : ℕ} {i : BitVec 32}
    (hfuel : len.toNat - i.toNat < fuel) :
    ∃ accesses, forLoop len stride body fuel i = some accesses ∧
      ∀ a ∈ accesses, ∃ k, i.toNat + k * stride < len.toNat ∧
        a ∈ body (i.toNat + k * stride) := by
  induction fuel generalizing i with
  | zero => omega
  | succ fuel ih =>
    rw [forLoop]
    split_ifs with hlt
    · have hlt' := BitVec.lt_def.mp hlt
      have hi : (i + BitVec.ofNat 32 stride).toNat = i.toNat + stride := by
        rw [BitVec.toNat_add, BitVec.toNat_ofNat, Nat.add_mod_mod, Nat.mod_eq_of_lt (by omega)]
      obtain ⟨rest, hrest, hbody⟩ := ih (i := i + BitVec.ofNat 32 stride) (by omega)
      rw [hi] at hbody
      refine ⟨body i.toNat ++ rest, by rw [hrest, Option.map_some], fun a ha => ?_⟩
      rcases List.mem_append.mp ha with ha | ha
      · exact ⟨0, by omega, by rwa [Nat.zero_mul]⟩
      · obtain ⟨k, hk, ha⟩ := hbody a ha
        refine ⟨k + 1, ?_, ?_⟩
        · rw [Nat.succ_mul]
          omega
        · rwa [Nat.succ_mul, Nat.add_comm (k * stride), ← Nat.add_assoc]
    · exact ⟨[], rfl, by simp⟩

/-- `nvram_crc` reads up to the end of the block. -/
lemma exists_nvramCrcAccesses {len : BitVec 32} (hle : len.toNat ≤ nvramSpace) {fuel : ℕ}
    (hfuel : len.toNat < fuel) :
    ∃ accesses, nvramCrcAccesses len fuel = some accesses ∧
      ∀ a ∈ accesses, ∀ size, a.Inside size := by
  have hspace : nvramSpace = 0x8000 := rfl
  obtain ⟨accesses, hrun, hbody⟩ := exists_forLoop (i := 9) (fun offset => [.flash offset 1])
    Nat.one_pos (by omega : len.toNat + 1 ≤ 2 ^ 32) (Nat.lt_of_le_of_lt (Nat.sub_le _ _) hfuel)
  refine ⟨accesses, hrun, fun a ha size => ?_⟩
  obtain ⟨k, hk, ha⟩ := hbody a ha
  obtain rfl := List.mem_singleton.mp ha
  exact (Nat.succ_le_of_lt hk).trans hle

lemma headerSize_le_toNat : headerSize ≤ (BitVec.ofNat 32 headerSize).toNat := by decide

/-- A block of whole words is copied as such. -/
lemma exists_copyLoop {len : BitVec 32} (hle : len.toNat ≤ nvramSpace) (hwords : 4 ∣ len.toNat)
    {fuel : ℕ} (hfuel : len.toNat < fuel) :
    ∃ accesses, forLoop len 4 copyWord fuel (BitVec.ofNat 32 headerSize) = some accesses ∧
      ∀ a ∈ accesses, a.Inside len.toNat := by
  have hspace : nvramSpace = 0x8000 := rfl
  have hcounter : (BitVec.ofNat 32 headerSize).toNat = 4 * 5 := rfl
  obtain ⟨q, hq⟩ := hwords
  obtain ⟨accesses, hrun, hbody⟩ := exists_forLoop (i := BitVec.ofNat 32 headerSize) copyWord
    (by decide : 0 < 4) (by omega : len.toNat + 4 ≤ 2 ^ 32)
    (Nat.lt_of_le_of_lt (Nat.sub_le _ _) hfuel)
  refine ⟨accesses, hrun, fun a ha => ?_⟩
  obtain ⟨k, hk, ha⟩ := hbody a ha
  rw [hcounter] at hk ha
  have hend : 4 * 5 + k * 4 + 4 ≤ len.toNat := by omega
  simp only [copyWord, List.mem_cons, List.not_mem_nil, or_false] at ha
  obtain rfl | rfl := ha
  · exact hend.trans hle
  · exact hend

/-! ### The strings -/

lemma workingCopy_of_lt {window : ℕ → Byte} (buffer : ℕ → Byte) {i : ℕ}
    (hi : i < (loadWord window 4).toNat) : workingCopy window buffer i = window i := by
  have hself := load_store_self buffer 0
    (load window 0 (max headerSize (wordAlign (loadWord window 4).toNat)))
  rw [length_load] at hself
  refine eq_of_load_eq hself (Nat.zero_le i) ?_
  rw [wordAlign]
  omega

/-- Where the next string begins. -/
lemma toNat_next {len offset : BitVec 32} {n : ℕ} (h : offset.toNat + (n + 1) ≤ len.toNat) :
    (offset + BitVec.ofNat 32 (n + 1)).toNat = offset.toNat + (n + 1) := by
  have hlen := len.isLt
  rw [BitVec.toNat_add, BitVec.toNat_ofNat, Nat.add_mod_mod, Nat.mod_eq_of_lt (by omega)]

lemma startsAt_next {window : ℕ → Byte} {offset n : ℕ} (hoffset : headerSize ≤ offset)
    (h : window (offset + n) = 0) : StartsAt window (offset + (n + 1)) :=
  .inr ⟨by omega, h⟩

lemma StartsAt.headerSize_le {window : ℕ → Byte} {i : ℕ} (h : StartsAt window i) :
    headerSize ≤ i := by
  obtain rfl | ⟨h, -⟩ := h
  · exact le_rfl
  · exact h.le

/-- A loop whose scans are inside the working copy comes to an end in one of the ways. -/
lemma closed_of_stringLoop {window m : ℕ → Byte} {len : BitVec 32} {kmalloc : Kmalloc}
    (hm : ∀ i < len.toNat, m i = window i) {fuel : ℕ} {offset : BitVec 32}
    {accesses : List Access} (h : stringLoop m len kmalloc fuel offset = some accesses)
    (hin : ∀ a ∈ accesses, a.Inside len.toNat) (hstart : StartsAt window offset.toNat)
    (hle : offset.toNat ≤ len.toNat) : Closed window len.toNat kmalloc := by
  induction fuel generalizing offset accesses with
  | zero => cases h
  | succ fuel ih =>
    rw [stringLoop] at h
    by_cases hlt : offset < len
    · have hlt' := BitVec.lt_def.mp hlt
      rw [if_pos hlt] at h
      by_cases hzero : m offset.toNat = 0
      · exact .inr (.inr ⟨_, hstart, hlt', .inl (hm _ hlt' ▸ hzero)⟩)
      · rw [if_neg hzero] at h
        generalize hn : strlen m (2 ^ 32) offset.toNat = n at h
        have hscan : .scan offset.toNat (n + 1) ∈ accesses := by
          split_ifs at h
          · obtain ⟨rest, -, rfl⟩ := Option.map_eq_some_iff.mp h
            exact .tail _ (.head _)
          · obtain rfl := Option.some.inj h
            exact .tail _ (.head _)
        have hnext : offset.toNat + (n + 1) ≤ len.toNat := hin _ hscan
        have hlen := len.isLt
        have hnul : window (offset.toNat + n) = 0 := by
          rw [← hm _ (by omega), ← hn]
          exact apply_strlen (by omega)
        split_ifs at h with htuple
        · obtain ⟨rest, hrest, rfl⟩ := Option.map_eq_some_iff.mp h
          refine ih hrest (fun a ha => hin a ?_) ?_ ?_
          · exact .tail _ (.tail _ (List.mem_append_right _ ha))
          · rw [toNat_next hnext]
            exact startsAt_next hstart.headerSize_le hnul
          · rwa [toNat_next hnext]
        · exact .inr (.inr ⟨_, hstart, hlt', .inr ⟨by simpa using htuple, _,
            Nat.le_add_right _ n, by omega, hnul⟩⟩)
    · have heq : offset.toNat = len.toNat :=
        le_antisymm hle (Nat.not_lt.mp (mt BitVec.lt_def.mpr hlt))
      rw [heq] at hstart
      exact hstart.elim .inl fun h => .inr (.inl h.2)

/-- The loop has not stopped before. -/
def Passed (window : ℕ → Byte) (kmalloc : Kmalloc) (offset : ℕ) : Prop :=
  ∀ i, StartsAt window i → i < offset → window i ≠ 0 ∧ kmalloc.tuple i = true

/-- A string that is reached is terminated. -/
lemma exists_nul {window : ℕ → Byte} {len offset : ℕ} {kmalloc : Kmalloc}
    (hclosed : Closed window len kmalloc) (hheader : headerSize ≤ offset) (hlt : offset < len)
    (hzero : window offset ≠ 0) (hpassed : Passed window kmalloc offset) :
    ∃ j, offset ≤ j ∧ j < len ∧ window j = 0 := by
  obtain rfl | hlast | ⟨i, hstart, hi, hstop⟩ := hclosed
  · omega
  · exact ⟨len - 1, by omega, by omega, hlast⟩
  · obtain hbefore | rfl | hbehind := Nat.lt_trichotomy i offset
    · obtain ⟨hne, htuple⟩ := hpassed i hstart hbefore
      obtain hempty | ⟨hnone, -⟩ := hstop
      · exact absurd hempty hne
      · rw [hnone] at htuple
        cases htuple
    · exact hstop.elim (fun h => absurd h hzero) And.right
    · obtain rfl | ⟨-, hprev⟩ := hstart
      · omega
      · exact ⟨i - 1, by omega, by omega, hprev⟩

/-- Between two strings none begins. -/
lemma passed_next {window : ℕ → Byte} {kmalloc : Kmalloc} {offset n : ℕ}
    (hheader : headerSize ≤ offset) (hpassed : Passed window kmalloc offset)
    (hzero : window offset ≠ 0) (htuple : kmalloc.tuple offset = true)
    (hchars : ∀ j < n, window (offset + j) ≠ 0) : Passed window kmalloc (offset + (n + 1)) := by
  intro i hstart hi
  obtain hbefore | rfl | hbehind := Nat.lt_trichotomy i offset
  · exact hpassed i hstart hbefore
  · exact ⟨hzero, htuple⟩
  · obtain rfl | ⟨-, hprev⟩ := hstart
    · omega
    · have hchar := hchars (i - 1 - offset) (by omega)
      rw [show offset + (i - 1 - offset) = i - 1 by omega] at hchar
      exact absurd hprev hchar

lemma inside_tupleScans {m : ℕ → Byte} {offset n size : ℕ} (h : offset + (n + 1) ≤ size) :
    ∀ a ∈ tupleScans m offset n, a.Inside size := by
  have hname : ((load m offset n).takeWhile (· ≠ equalsSign)).length ≤ n :=
    (List.takeWhile_prefix _).length_le.trans (length_load m offset n).le
  intro a ha
  simp only [tupleScans, List.mem_cons, List.not_mem_nil, or_false] at ha
  obtain rfl | rfl := ha
  · exact h
  · exact (Nat.add_le_add_left (Nat.succ_le_succ hname) _).trans h

/-- The loop over strings that are closed ends, with its scans inside the working copy. -/
lemma exists_stringLoop {window m : ℕ → Byte} {len : BitVec 32} {kmalloc : Kmalloc}
    (hm : ∀ i < len.toNat, m i = window i) (hclosed : Closed window len.toNat kmalloc)
    {fuel : ℕ} {offset : BitVec 32} (hheader : headerSize ≤ offset.toNat)
    (hpassed : Passed window kmalloc offset.toNat) (hfuel : len.toNat - offset.toNat < fuel) :
    ∃ accesses, stringLoop m len kmalloc fuel offset = some accesses ∧
      ∀ a ∈ accesses, a.Inside len.toNat := by
  induction fuel generalizing offset with
  | zero => omega
  | succ fuel ih =>
    rw [stringLoop]
    by_cases hlt : offset < len
    · have hlt' := BitVec.lt_def.mp hlt
      rw [if_pos hlt]
      by_cases hzero : m offset.toNat = 0
      · rw [if_pos hzero]
        exact ⟨_, rfl, by simpa [Access.Inside] using hlt'⟩
      · rw [if_neg hzero]
        rw [hm _ hlt'] at hzero
        obtain ⟨j, hj, hjlen, hnul⟩ := exists_nul hclosed hheader hlt' hzero hpassed
        have hle : strlen m (2 ^ 32) offset.toNat ≤ j - offset.toNat := by
          apply strlen_le
          rw [show offset.toNat + (j - offset.toNat) = j by omega, hm j hjlen, hnul]
        have hchars : ∀ k < strlen m (2 ^ 32) offset.toNat, window (offset.toNat + k) ≠ 0 := by
          intro k hk
          rw [← hm _ (by omega)]
          exact ne_zero_of_lt_strlen hk
        generalize strlen m (2 ^ 32) offset.toNat = n at hle hchars
        have hnext : offset.toNat + (n + 1) ≤ len.toNat := by omega
        have hfirst : Access.Inside len.toNat (.scan offset.toNat 1) := hlt'
        have hstring : Access.Inside len.toNat (.scan offset.toNat (n + 1)) := hnext
        by_cases htuple : kmalloc.tuple offset.toNat = true
        · have hoffset := toNat_next hnext
          have hpassed' := passed_next hheader hpassed hzero htuple hchars
          rw [← hoffset] at hpassed'
          obtain ⟨rest, hrest, hinside⟩ := ih (by omega) hpassed' (by omega)
          refine ⟨_, by rw [if_pos htuple, hrest, Option.map_some], ?_⟩
          simp only [List.forall_mem_cons, List.forall_mem_append]
          exact ⟨hfirst, hstring, inside_tupleScans hnext, hinside⟩
        · refine ⟨_, by rw [if_neg htuple], ?_⟩
          simp only [List.forall_mem_cons]
          exact ⟨hfirst, hstring, by simp⟩
    · rw [if_neg hlt]
      exact ⟨[], rfl, by simp⟩

/-! ### Main result -/

/-- Without the magic number nothing else is looked at. -/
lemma inBounds_of_magic_ne {window : ℕ → Byte} (buffer : ℕ → Byte) (kmalloc : Kmalloc)
    (hmagic : loadWord window 0 ≠ nvramMagic) : InBounds window buffer kmalloc := by
  refine ⟨0, [.flash 0 4], ?_, ?_⟩
  · rw [nvramInitAccesses, nvramFindAccesses, if_pos hmagic, Option.bind_some, nvramFind,
      if_neg hmagic]
    rfl
  · simp [Access.Inside, nvramSpace]

/-- The parts of the accesses to a block with the magic number. -/
lemma nvramInitAccesses_eq_some {window buffer : ℕ → Byte} {kmalloc : Kmalloc} {fuel : ℕ}
    {accesses : List Access} (hmagic : loadWord window 0 = nvramMagic) :
    nvramInitAccesses window buffer kmalloc fuel = some accesses ↔
      ∃ crc tuples scans, nvramCrcAccesses (loadWord window 4) fuel = some crc ∧
        forLoop (loadWord window 4) 4 copyWord fuel (BitVec.ofNat 32 headerSize) = some tuples ∧
        stringLoop (workingCopy window buffer) (loadWord window 4) kmalloc fuel
          (BitVec.ofNat 32 headerSize) = some scans ∧
        accesses = .flash 0 4 :: .flash 8 4 :: .flash 4 4 :: crc ++ .flash 0 headerSize ::
          .flash 4 4 :: ([0, 4, 8, 12, 16].flatMap copyWord ++ tuples ++ scans) := by
  rw [nvramInitAccesses, nvramFindAccesses, if_neg (not_not.mpr hmagic), nvramFind,
    if_pos hmagic, Option.isSome_some]
  simp only [if_true, nvramInternalizeAccesses, Option.bind_eq_some_iff, Option.map_eq_some_iff]
  constructor
  · rintro ⟨_, ⟨crc, hcrc, rfl⟩, _, ⟨tuples, htuples, scans, hscans, rfl⟩, rfl⟩
    exact ⟨crc, tuples, scans, hcrc, htuples, hscans, rfl⟩
  · rintro ⟨crc, tuples, scans, hcrc, htuples, hscans, rfl⟩
    exact ⟨_, ⟨crc, hcrc, rfl⟩, _, ⟨tuples, htuples, scans, hscans, rfl⟩, rfl⟩

lemma wellSized_of_inBounds {window buffer : ℕ → Byte} {kmalloc : Kmalloc}
    (h : InBounds window buffer kmalloc) (hmagic : loadWord window 0 = nvramMagic) :
    WellSized window kmalloc := by
  obtain ⟨fuel, accesses, hrun, hinside⟩ := h
  obtain ⟨crc, tuples, scans, hcrc, htuples, hscans, rfl⟩ :=
    (nvramInitAccesses_eq_some hmagic).mp hrun
  simp only [List.cons_append, List.forall_mem_cons, List.forall_mem_append] at hinside
  obtain ⟨-, -, -, hcrc', -, -, ⟨hheader, htuples'⟩, hscans'⟩ := hinside
  have hlast : headerSize ≤ allocated window kmalloc := hheader (.write 16 4) (by decide)
  have hbuffer : kmalloc.buffer = true := by
    by_contra hfail
    rw [allocated, if_neg hfail] at hlast
    cases hlast
  rw [allocated, if_pos hbuffer] at hlast htuples' hscans'
  have hsize : headerSize = 20 := rfl
  have hcounter : (BitVec.ofNat 32 headerSize).toNat = headerSize := rfl
  refine ⟨hbuffer, hlast, ?_, ?_, ?_⟩
  · -- the last turn of `nvram_crc`
    by_contra hspace
    have hstart : (9 : BitVec 32).toNat = 9 := rfl
    have hmem := fun h => mem_forLoop (k := (loadWord window 4).toNat - 10) hcrc h
      (List.mem_singleton_self _)
    rw [hstart] at hmem
    have hoff : _ + 1 ≤ nvramSpace := hcrc' _ (hmem (by omega))
    omega
  · -- the last word of the copy
    have hmem := fun h => mem_forLoop (k := ((loadWord window 4).toNat - 20) / 4)
      (a := .write _ 4) htuples h (.tail _ (.head _))
    rw [hcounter] at hmem
    by_contra hwords
    have hoff : _ ≤ _ := htuples' _ (hmem (by omega))
    omega
  · exact closed_of_stringLoop (fun i hi => workingCopy_of_lt buffer hi) hscans hscans' (.inl rfl)
      hlast

lemma inBounds_of_wellSized {window : ℕ → Byte} (buffer : ℕ → Byte) {kmalloc : Kmalloc}
    (hmagic : loadWord window 0 = nvramMagic) (h : WellSized window kmalloc) :
    InBounds window buffer kmalloc := by
  have hfuel := Nat.lt_succ_self (loadWord window 4).toNat
  obtain ⟨crc, hcrc, hcrc'⟩ := exists_nvramCrcAccesses h.space hfuel
  obtain ⟨tuples, htuples, htuples'⟩ := exists_copyLoop h.space h.words hfuel
  obtain ⟨scans, hscans, hscans'⟩ := exists_stringLoop
    (fun i hi => workingCopy_of_lt buffer hi) h.closed headerSize_le_toNat
    (fun i hstart hi => absurd hstart.headerSize_le (Nat.not_le.mpr hi))
    (Nat.lt_of_le_of_lt (Nat.sub_le _ _) hfuel)
  refine ⟨_, _, (nvramInitAccesses_eq_some hmagic).mpr
    ⟨crc, tuples, scans, hcrc, htuples, hscans, rfl⟩, ?_⟩
  rw [allocated, if_pos h.buffer]
  have hheader : ∀ a ∈ [0, 4, 8, 12, 16].flatMap copyWord,
      a.Inside (loadWord window 4).toNat := by
    have hlen : 20 ≤ (loadWord window 4).toNat := h.header
    simp [copyWord, Access.Inside, nvramSpace]
    omega
  have hfields : ∀ off n, off + n ≤ nvramSpace →
      (Access.flash off n).Inside (loadWord window 4).toNat := fun _ _ h => h
  simp only [List.cons_append, List.forall_mem_cons, List.forall_mem_append]
  exact ⟨hfields 0 4 (by decide), hfields 8 4 (by decide), hfields 4 4 (by decide),
    fun a ha => hcrc' a ha _, hfields 0 headerSize (by decide), hfields 4 4 (by decide),
    ⟨hheader, htuples'⟩, hscans'⟩

/-- All accesses are inside the window and the working copy, and the loops end, exactly if the flash
has no magic number, or a length of whole words within the window and its strings closed, and there
is memory for the working copy. -/
theorem inBounds_iff (window buffer : ℕ → Byte) (kmalloc : Kmalloc) :
    InBounds window buffer kmalloc ↔
      (loadWord window 0 = nvramMagic → WellSized window kmalloc) := by
  constructor
  · exact wellSized_of_inBounds
  · intro h
    by_cases hmagic : loadWord window 0 = nvramMagic
    · exact inBounds_of_wellSized buffer hmagic (h hmagic)
    · exact inBounds_of_magic_ne buffer kmalloc hmagic

/-- Flash that starts with a magic number and this length. -/
def flashOf (len : BitVec 32) (tuples : List Byte) : ℕ → Byte :=
  fun i => (leBytes nvramMagic ++ leBytes len ++ List.replicate 12 0 ++ tuples).getD i 0

/-- A length of 0, one beyond the window, one that is not of whole words, and a string that is not
terminated, with memory for everything. -/
theorem length_unchecked :
    ¬ InBounds (flashOf 0 []) (fun _ => 0) ⟨true, fun _ => true⟩ ∧
      ¬ InBounds (flashOf 0x8004 []) (fun _ => 0) ⟨true, fun _ => true⟩ ∧
      ¬ InBounds (flashOf 21 [0]) (fun _ => 0) ⟨true, fun _ => true⟩ ∧
      ¬ InBounds (flashOf 24 [0x61, 0x3d, 0x61, 0x61]) (fun _ => 0) ⟨true, fun _ => true⟩ := by
  refine ⟨fun h => ?_, fun h => ?_, fun h => ?_, fun h => ?_⟩
  · exact absurd (wellSized_of_inBounds h (by decide)).header (by decide)
  · exact absurd (wellSized_of_inBounds h (by decide)).space (by decide)
  · exact absurd (wellSized_of_inBounds h (by decide)).words (by decide)
  · obtain hnone | hlast | ⟨i, hstart, hi, hstop⟩ := (wellSized_of_inBounds h (by decide)).closed
    · exact absurd hnone (by decide)
    · exact absurd hlast (by decide)
    · have hchars : ∀ i < 24, headerSize ≤ i →
          flashOf 24 [0x61, 0x3d, 0x61, 0x61] i ≠ 0 := by decide
      have hi' : i < 24 := hi
      obtain hempty | ⟨hnone, -⟩ := hstop
      · exact hchars i hi' hstart.headerSize_le hempty
      · cases hnone

/-! ### What is loaded -/

/-- The first string of a block, and what is behind it. -/
lemma takeWhile_of_prefix {m : ℕ → Byte} {off k n : ℕ} {mem : List Byte}
    (hmem : load m off k <+: mem) (hn : n < k) (hchars : ∀ j < n, m (off + j) ≠ 0)
    (hnul : m (off + n) = 0) :
    mem.takeWhile (· ≠ 0) = load m off n ∧
      load m (off + (n + 1)) (k - (n + 1)) <+: mem.drop (n + 1) := by
  obtain ⟨rest, rfl⟩ := hmem
  obtain ⟨j, rfl⟩ := Nat.exists_eq_add_of_lt hn
  have hblock : load m off (n + j + 1) = load m off n ++ 0 :: load m (off + (n + 1)) j := by
    rw [Nat.add_assoc, load_add, load_succ, hnul]
    rfl
  rw [hblock, List.append_assoc, List.cons_append]
  constructor
  · apply takeWhile_append_nul
    intro hzero
    obtain ⟨j, hj, hchar⟩ := mem_load hzero
    exact hchars j hj hchar
  · refine ⟨rest, ?_⟩
    rw [show n + j + 1 - (n + 1) = j by omega, ← List.drop_drop,
      List.drop_left' (length_load m off n)]
    rfl

/-- Where no scan leaves the block, what is behind it makes no difference. -/
lemma strings_congr {m : ℕ → Byte} {len : BitVec 32} {kmalloc : Kmalloc}
    (htuple : ∀ i, kmalloc.tuple i = true) {fuel : ℕ} {offset : BitVec 32}
    {accesses : List Access} (h : stringLoop m len kmalloc fuel offset = some accesses)
    (hin : ∀ a ∈ accesses, a.Inside len.toNat) {mem mem' : List Byte}
    (hmem : load m offset.toNat (len.toNat - offset.toNat) <+: mem)
    (hmem' : load m offset.toNat (len.toNat - offset.toNat) <+: mem') :
    strings len.toNat fuel offset.toNat mem = strings len.toNat fuel offset.toNat mem' := by
  induction fuel generalizing offset accesses mem mem' with
  | zero => cases h
  | succ fuel ih =>
    rw [strings, strings]
    rw [stringLoop] at h
    by_cases hlt : offset < len
    · have hlt' := BitVec.lt_def.mp hlt
      obtain ⟨k, hk⟩ := Nat.exists_eq_add_of_lt hlt'
      have hhead : ∀ {mem : List Byte},
          load m offset.toNat (len.toNat - offset.toNat) <+: mem →
            mem.headD 0 = m offset.toNat := by
        rintro _ ⟨rest, rfl⟩
        rw [hk, show offset.toNat + k + 1 - offset.toNat = k + 1 by omega]
        rfl
      rw [hhead hmem, hhead hmem']
      rw [if_pos hlt] at h
      by_cases hzero : m offset.toNat = 0
      · rw [if_neg (fun h => h.2 hzero), if_neg (fun h => h.2 hzero)]
      · rw [if_neg hzero, if_pos (htuple _)] at h
        obtain ⟨rest, hrest, rfl⟩ := Option.map_eq_some_iff.mp h
        have hchars := fun j => @ne_zero_of_lt_strlen m (2 ^ 32) offset.toNat j
        have hnext : offset.toNat + (strlen m (2 ^ 32) offset.toNat + 1) ≤ len.toNat :=
          hin _ (.tail _ (.head _))
        have hnul := @apply_strlen m (2 ^ 32) offset.toNat (by have := len.isLt; omega)
        generalize strlen m (2 ^ 32) offset.toNat = n at hrest hin hchars hnext hnul
        obtain ⟨htake, hdrop⟩ := takeWhile_of_prefix hmem (by omega) hchars hnul
        obtain ⟨htake', hdrop'⟩ := takeWhile_of_prefix hmem' (by omega) hchars hnul
        rw [if_pos ⟨hlt', hzero⟩, if_pos ⟨hlt', hzero⟩]
        rw [← Nat.sub_add_eq, ← toNat_next hnext] at hdrop hdrop'
        simp only [htake, htake', length_load]
        have hin' : ∀ a ∈ rest, a.Inside len.toNat := fun a ha =>
          hin a (.tail _ (.tail _ (List.mem_append_right _ ha)))
        rw [← toNat_next hnext, ih hrest hin' hdrop hdrop']
    · have hge : ¬ offset.toNat < len.toNat := mt BitVec.lt_def.mpr hlt
      rw [if_neg (fun h => hge h.1), if_neg (fun h => hge h.1)]

/-- If no access is outside, what is loaded does not depend on what is behind the working copy. -/
theorem nvramInit_congr {window buffer : ℕ → Byte} {kmalloc : Kmalloc}
    (h : InBounds window buffer kmalloc) (htuple : ∀ i, kmalloc.tuple i = true)
    (behind behind' : List Byte) : nvramInit window behind = nvramInit window behind' := by
  by_cases hmagic : loadWord window 0 = nvramMagic
  · have hsized := wellSized_of_inBounds h hmagic
    have hheader := hsized.header
    have hself : ∀ i < (loadWord window 4).toNat, window i = window i := fun _ _ => rfl
    have hfuel : (loadWord window 4).toNat - (BitVec.ofNat 32 headerSize).toNat <
        (loadWord window 4).toNat :=
      Nat.sub_lt ((by decide : 0 < headerSize).trans_le hheader) (by decide)
    obtain ⟨accesses, hscans, hin⟩ := exists_stringLoop hself hsized.closed headerSize_le_toNat
      (fun i hstart hi => absurd hstart.headerSize_le (Nat.not_le.mpr hi)) hfuel
    have hmem : ∀ behind, load window headerSize ((loadWord window 4).toNat - headerSize) <+:
        (load window 0 (max headerSize (wordAlign (loadWord window 4).toNat)) ++ behind).drop
          headerSize := by
      intro behind
      have halign := le_wordAlign (loadWord window 4).toNat
      obtain ⟨k, hk⟩ := Nat.exists_eq_add_of_le (halign.trans (le_max_right headerSize _))
      obtain ⟨j, hj⟩ := Nat.exists_eq_add_of_le hheader
      refine ⟨load window (headerSize + j) k ++ behind, ?_⟩
      rw [hk, hj, Nat.add_sub_cancel_left, load_add, load_add, List.append_assoc, List.append_assoc,
        List.drop_left' (length_load _ _ _), Nat.zero_add, Nat.zero_add]
    have hstrings := strings_congr htuple hscans hin (hmem behind) (hmem behind')
    simp only [nvramInit, nvramFind, if_pos hmagic, nvramInternalize]
    exact congrArg _ hstrings
  · simp only [nvramInit, nvramFind, if_neg hmagic]

lemma terminated_eq (bindings : List (List Byte)) :
    terminated bindings = [] ∨ ∃ chars, terminated bindings = chars ++ [0] := by
  obtain rfl | ⟨bindings, binding, rfl⟩ := List.eq_nil_or_concat' bindings
  · exact .inl rfl
  · refine .inr ⟨terminated bindings ++ binding, ?_⟩
    simp [terminated]

/-- The empty string at the end is one that closes the block, if there is room for it. -/
lemma WellFormed.closed {window : ℕ → Byte} {bindings : List (List Byte)}
    (h : WellFormed window bindings) (kmalloc : Kmalloc) :
    Closed window (loadWord window 4).toNat kmalloc := by
  have hstrings := h.strings
  rw [load_add] at hstrings
  obtain ⟨hload, hnul⟩ := List.append_inj' hstrings rfl
  have hempty : window (headerSize + (terminated bindings).length) = 0 := by
    simpa [load_succ] using hnul
  obtain hnone | ⟨chars, hchars⟩ := terminated_eq bindings
  · rw [hnone] at hempty
    obtain hlen | hlt := ((Nat.le_add_right _ _).trans h.fits).eq_or_lt
    · exact .inl hlen.symm
    · exact .inr (.inr ⟨headerSize, .inl rfl, hlt, .inl hempty⟩)
  · have hlast : window (headerSize + chars.length) = 0 := by
      rw [hchars] at hload
      rw [eq_getD_of_load hload (by simp) 0]
      simp
    have hfits := h.fits
    rw [hchars, List.length_append, List.length_singleton] at hfits hempty
    obtain hlen | hlt := hfits.eq_or_lt
    · refine .inr (.inl ?_)
      rwa [← hlen]
    · exact .inr (.inr ⟨_, startsAt_next le_rfl hlast, hlt, .inl hempty⟩)

/-- Well-formed flash of whole words is loaded without an access outside. -/
theorem WellFormed.inBounds {window : ℕ → Byte} {bindings : List (List Byte)}
    (h : WellFormed window bindings) (hwords : 4 ∣ (loadWord window 4).toNat) (buffer : ℕ → Byte)
    {kmalloc : Kmalloc} (hbuffer : kmalloc.buffer = true) : InBounds window buffer kmalloc :=
  inBounds_of_wellSized buffer h.magic
    ⟨hbuffer, (Nat.le_add_right _ _).trans h.fits, h.len_le, hwords, h.closed kmalloc⟩

end BcmMruby.Nvram
