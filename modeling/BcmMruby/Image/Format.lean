import BcmMruby.Core.Crc
import BcmMruby.Image.Loader

/-!
# The format of an image

What the image writer makes of any options and files: `asustrx_format` reads the files back by the
offsets in the header, and says when the footer goes past the end of the buffer.
`image_burst_detected` is about the checksum in the header.
-/

namespace BcmMruby.Image

open Core

/-- `sizeof(asus)`. -/
def footerSize : ℕ := 64

/-- Options for which no number wraps around: a limit as `-m` makes it, and offsets that are within
it and word aligned. -/
structure Sound (opts : Options) : Prop where
  pos : 0 < opts.maxlen
  round : 0x1000 ∣ opts.maxlen
  lt : opts.maxlen + 0x2000 ≤ 2 ^ 32
  aligned : ∀ x ∈ opts.offsets, 4 ∣ x.toNat
  offset_le : ∀ x ∈ opts.offsets, x.toNat ≤ opts.maxlen
  length_offsets : opts.offsets.length ≤ 3
  length_version : opts.version.length = 4
  length_prodId : opts.prodId.length = 12

/-- The room that the footer takes. -/
def reserved (opts : Options) : ℕ := if hasFooter opts then footerSize else 0

/-- The offset of file `i` in the header. -/
def offsetOf (m : ℕ → Byte) (i : ℕ) : ℕ := (loadWord m (offsetField i)).toNat

/-- From file `i` on, the files begin at their offsets, one behind the other between `start` and
`last`, and where an offset was given there. -/
def Laid (opts : Options) (m : ℕ → Byte) : ℕ → ℕ → List (List Byte) → ℕ → Prop
  | _, start, [], last => start ≤ last
  | i, start, f :: fs, last => start ≤ offsetOf m i ∧ load m (offsetOf m i) f.length = f ∧
      (opts.offsets.getD i 0 ≠ 0 → loadWord m (offsetField i) = opts.offsets.getD i 0) ∧
      Laid opts m (i + 1) (offsetOf m i + f.length) fs last

/-- An image of these files, the last of which ends at `last`. -/
structure Trx (opts : Options) (fs : List (List Byte)) (last : ℕ) (m : ℕ → Byte) (len : ℕ) :
    Prop where
  magic : loadWord m 0 = trxMagic
  length : (loadWord m 4).toNat = len
  crc : loadWord m 8 = crc32buf (load m 12 (len - 12))
  flags : loadWord m 12 = trxVersion <<< 16
  laid : Laid opts m 0 headerSize fs last
  unused : ∀ i < 3, fs.length ≤ i → loadWord m (offsetField i) = opts.offsets.getD i 0
  round : 0x1000 ∣ len
  last_le : last + reserved opts ≤ len
  footer : hasFooter opts = true → load m (len - footerSize) footerSize = asusFooter opts

variable {opts : Options}

lemma Laid.start_le {m : ℕ → Byte} {i start last : ℕ} {fs : List (List Byte)}
    (h : Laid opts m i start fs last) : start ≤ last := by
  induction fs generalizing i start with
  | nil => exact h
  | cons f fs ih =>
    obtain ⟨hstart, -, -, hrest⟩ := h
    have := ih hrest
    omega

/-- Only the offsets and what lies between `start` and `last` matters. -/
lemma Laid.congr {m m' : ℕ → Byte} {i start last : ℕ} {fs : List (List Byte)}
    (h : Laid opts m i start fs last) (hstart : headerSize ≤ start) (hi : i + fs.length ≤ 3)
    (hm : ∀ j, 16 ≤ j → j < last → m' j = m j) : Laid opts m' i start fs last := by
  induction fs generalizing i start with
  | nil => exact h
  | cons f fs ih =>
    have hhead : headerSize = 28 := rfl
    have hle := Laid.start_le h
    obtain ⟨hfirst, hfile, hgiven, hrest⟩ := h
    rw [List.length_cons] at hi
    have hend := hrest.start_le
    have hoff : loadWord m' (offsetField i) = loadWord m (offsetField i) := by
      refine loadWord_congr fun j hj => hm _ ?_ ?_ <;>
      · simp only [offsetField]
        omega
    have hoff' : offsetOf m' i = offsetOf m i := by rw [offsetOf, offsetOf, hoff]
    refine ⟨by rw [hoff']; exact hfirst, ?_, fun hne => hoff.trans (hgiven hne), ?_⟩
    · rw [hoff', load_congr fun j h₁ h₂ => hm j (by omega) (by omega)]
      exact hfile
    · rw [hoff']
      exact ih hrest (by omega) (by omega)

/-! ### Adding files -/

/-- The buffer before file `i` is added. -/
structure Ready (opts : Options) (i : ℕ) (o : Out) (cur : ℕ) : Prop where
  fields : ∀ j, i ≤ j → j < 3 → loadWord o.buf (offsetField j) = opts.offsets.getD j 0
  aligned : 4 ∣ cur
  header_le : headerSize ≤ cur
  le_maxlen : cur ≤ opts.maxlen
  high : o.high ≤ cur

/-- What adding a file does. -/
structure Placed (opts : Options) (i : ℕ) (more : Bool) (f : List Byte) (o : Out) (cur : ℕ)
    (o' : Out) (cur' : ℕ) : Prop where
  start_le : cur ≤ offsetOf o'.buf i
  fits : offsetOf o'.buf i + f.length < opts.maxlen
  next : cur' = offsetOf o'.buf i + (f.length + if more then padding 4 f.length else 0)
  aligned : 4 ∣ offsetOf o'.buf i
  file : load o'.buf (offsetOf o'.buf i) f.length = f
  given : opts.offsets.getD i 0 ≠ 0 → loadWord o'.buf (offsetField i) = opts.offsets.getD i 0
  keep : ∀ j < cur, j < offsetField i ∨ offsetField i + 4 ≤ j → o'.buf j = o.buf j
  high : o'.high ≤ max o.high cur'

/-- The offset of a file is where the one before ends, or the one that was given. -/
structure Started (opts : Options) (i : ℕ) (o : Out) (cur : ℕ) (o' : Out) (start : ℕ) : Prop where
  start_le : cur ≤ start
  le_maxlen : start ≤ opts.maxlen
  aligned : 4 ∣ start
  offset : offsetOf o'.buf i = start
  given : opts.offsets.getD i 0 ≠ 0 → loadWord o'.buf (offsetField i) = opts.offsets.getD i 0
  keep : ∀ j, j < offsetField i ∨ offsetField i + 4 ≤ j → o'.buf j = o.buf j
  high : o'.high ≤ cur

/-- The part of `addFile` before the file is opened. -/
def startFile (i : ℕ) (o : Out) (cur : ℕ) : Except Error (Out × ℕ) :=
  let given := loadWord o.buf (offsetField i)
  if given = 0 then
    pure (o.write (offsetField i) (leBytes (BitVec.ofNat 32 cur)), cur)
  else if cur > given.toNat then throw .offsetTooLarge
  else pure (o, given.toNat)

lemma Started.of_startFile (hopts : Sound opts) {i : ℕ} {o o' : Out} {cur start : ℕ}
    (h : Ready opts i o cur) (hi : i < 3) (hstart : startFile i o cur = .ok (o', start)) :
    Started opts i o cur o' start := by
  have hhead : headerSize = 28 := rfl
  have hheader := h.header_le
  have hle := h.le_maxlen
  have hlt := hopts.lt
  rw [startFile, h.fields i le_rfl hi] at hstart
  by_cases hgiven : opts.offsets.getD i 0 = 0
  · rw [if_pos hgiven] at hstart
    cases hstart
    have hword : loadWord (o.write (offsetField i) (leBytes (BitVec.ofNat 32 cur))).buf
        (offsetField i) = BitVec.ofNat 32 cur := loadWord_eq (load_store_self _ _ _)
    refine ⟨le_rfl, hle, h.aligned, ?_, fun hne => absurd hgiven hne, ?_, ?_⟩
    · rw [offsetOf, hword, BitVec.toNat_ofNat, Nat.mod_eq_of_lt (by omega)]
    · intro j hj
      exact store_of_disjoint _ (by rwa [length_leBytes])
    · have := h.high
      simp only [Out.write, length_leBytes, offsetField]
      omega
  · have hmem : opts.offsets.getD i 0 ∈ opts.offsets := by
      by_cases hlen : i < opts.offsets.length
      · rw [List.getD_eq_getElem?_getD, List.getElem?_eq_getElem hlen]
        exact List.getElem_mem hlen
      · rw [List.getD_eq_getElem?_getD, List.getElem?_eq_none (by omega)] at hgiven
        exact absurd rfl hgiven
    rw [if_neg hgiven] at hstart
    split_ifs at hstart with hcur
    cases hstart
    refine ⟨Nat.not_lt.mp hcur, hopts.offset_le _ hmem, hopts.aligned _ hmem, ?_,
      fun _ => h.fields i le_rfl hi, fun _ _ => rfl, h.high⟩
    rw [offsetOf, h.fields i le_rfl hi]

/-- The rest of `addFile`, for a file that can be opened. -/
def placeFile (maxlen : ℕ) (more : Bool) (f : List Byte) (p : Out × ℕ) : Except Error (Out × ℕ) :=
  if f.length < room maxlen p.2 then
    let pad := if more then padding 4 f.length else 0
    .ok ((p.1.write p.2 f).pad (p.2 + f.length) pad, p.2 + (f.length + pad))
  else .error .fileTooLarge

lemma addFile_some (maxlen i : ℕ) (more : Bool) (f : List Byte) (o : Out) (cur : ℕ) :
    addFile maxlen i more (some f) o cur = (startFile i o cur).bind (placeFile maxlen more f) := by
  rw [addFile, startFile]
  by_cases hgiven : loadWord o.buf (offsetField i) = 0
  · rw [if_pos hgiven, if_pos hgiven]
    rfl
  · rw [if_neg hgiven, if_neg hgiven]
    by_cases hcur : cur > (loadWord o.buf (offsetField i)).toNat
    · rw [if_pos hcur, if_pos hcur]
      rfl
    · rw [if_neg hcur, if_neg hcur]
      rfl

lemma addFile_none (maxlen i : ℕ) (more : Bool) (o : Out) (cur : ℕ) :
    ∃ e, addFile maxlen i more none o cur = .error e := by
  rw [addFile]
  split_ifs <;> exact ⟨_, rfl⟩

lemma bind_eq_ok {ε α β : Type*} {x : Except ε α} {k : α → Except ε β} {b : β}
    (h : x.bind k = .ok b) : ∃ a, x = .ok a ∧ k a = .ok b := by
  cases x with
  | error e => cases h
  | ok a => exact ⟨a, rfl, h⟩

lemma Placed.of_addFile (hopts : Sound opts) {i : ℕ} {more : Bool} {file : Option (List Byte)}
    {o o' : Out} {cur cur' : ℕ} (h : Ready opts i o cur) (hi : i < 3)
    (hadd : addFile opts.maxlen i more file o cur = .ok (o', cur')) :
    ∃ f, file = some f ∧ Placed opts i more f o cur o' cur' := by
  have hhead : headerSize = 28 := rfl
  have hheader := h.header_le
  cases file with
  | none =>
    obtain ⟨e, he⟩ := addFile_none opts.maxlen i more o cur
    rw [he] at hadd
    cases hadd
  | some f =>
    rw [addFile_some] at hadd
    obtain ⟨⟨o₁, start⟩, hfirst, hplace⟩ := bind_eq_ok hadd
    have hs := Started.of_startFile hopts h hi hfirst
    rw [placeFile] at hplace
    by_cases hroom : f.length < room opts.maxlen start
    swap
    · rw [if_neg hroom] at hplace
      cases hplace
    rw [if_pos hroom] at hplace
    simp only [Except.ok.injEq, Prod.mk.injEq] at hplace
    obtain ⟨rfl, rfl⟩ := hplace
    have hlt := hopts.lt
    rw [room_eq hs.le_maxlen (by omega)] at hroom
    have hstart_le := hs.start_le
    have hle := hs.le_maxlen
    set pad := if more then padding 4 f.length else 0
    -- the file leaves the header alone
    have hkeep : ∀ j < start, ((o₁.write start f).pad (start + f.length) pad).buf j = o₁.buf j :=
      fun j hj => (buf_pad (by omega)).trans (store_of_disjoint _ (.inl hj))
    have hword : loadWord ((o₁.write start f).pad (start + f.length) pad).buf (offsetField i) =
        loadWord o₁.buf (offsetField i) := by
      refine loadWord_congr fun j hj => hkeep _ ?_
      simp only [offsetField]
      omega
    have hoff : offsetOf ((o₁.write start f).pad (start + f.length) pad).buf i = start := by
      rw [offsetOf, hword]
      exact hs.offset
    refine ⟨f, rfl, ?_, ?_, ?_, ?_, ?_, ?_, ?_, ?_⟩
    · rw [hoff]
      exact hstart_le
    · rw [hoff]
      omega
    · rw [hoff]
    · rw [hoff]
      exact hs.aligned
    · rw [hoff, load_congr fun j _ hj => buf_pad hj]
      exact load_store_self _ _ _
    · rw [hword]
      exact hs.given
    · intro j hj hout
      rw [hkeep j (by omega), hs.keep j hout]
    · have hpad := high_pad_le (o₁.write start f) (start + f.length) pad
      have hhigh := hs.high
      simp only [Out.write] at hpad ⊢
      omega

/-- What adding the files from file `i` on does. -/
structure PlacedAll (opts : Options) (i : ℕ) (fs : List (List Byte)) (o : Out) (cur : ℕ)
    (o' : Out) (last : ℕ) : Prop where
  laid : Laid opts o'.buf i cur fs last
  lt_maxlen : fs ≠ [] → last < opts.maxlen
  keep : ∀ j < cur, j < offsetField i ∨ offsetField (i + fs.length) ≤ j → o'.buf j = o.buf j
  high : o'.high ≤ max o.high last

lemma dvd_add_padding {round : ℕ} (hround : 0 < round) (n : ℕ) : round ∣ n + padding round n := by
  rw [padding]
  split_ifs with hmod
  · rw [Nat.add_zero]
    exact Nat.dvd_of_mod_eq_zero hmod
  · have hlt := Nat.mod_lt n hround
    have hdiv := Nat.div_add_mod n round
    refine ⟨n / round + 1, ?_⟩
    rw [Nat.mul_add, Nat.mul_one]
    omega

/-- The next file may begin where the padding ends. -/
lemma Placed.ready (hopts : Sound opts) {i : ℕ} {f : List Byte} {o o' : Out} {cur cur' : ℕ}
    (h : Ready opts i o cur) (hp : Placed opts i true f o cur o' cur') :
    Ready opts (i + 1) o' cur' := by
  have hhead : headerSize = 28 := rfl
  have hheader := h.header_le
  have hstart := hp.start_le
  have hnext : cur' = offsetOf o'.buf i + (f.length + padding 4 f.length) := hp.next
  have hround : 4 ∣ opts.maxlen := Nat.dvd_trans (by decide) hopts.round
  have hfits := hp.fits
  have hlen : f.length + padding 4 f.length ≤ opts.maxlen - offsetOf o'.buf i :=
    add_padding_le (Nat.dvd_sub hround hp.aligned) (by omega)
  refine ⟨?_, ?_, by omega, by omega, ?_⟩
  · intro j hij hj
    rw [← h.fields j (by omega) hj]
    refine loadWord_congr fun k hk => hp.keep _ ?_ (.inr ?_) <;>
    · simp only [offsetField]
      omega
  · rw [hnext]
    exact Nat.dvd_add hp.aligned (dvd_add_padding (by decide) _)
  · have hhigh := hp.high
    have := h.high
    omega

lemma Laid.mono {m : ℕ → Byte} {i start start' last : ℕ} {fs : List (List Byte)}
    (h : Laid opts m i start fs last) (hle : start' ≤ start) : Laid opts m i start' fs last := by
  cases fs with
  | nil => exact hle.trans h
  | cons f fs => exact ⟨hle.trans h.1, h.2⟩

/-- By induction on the files; the header and what is in front of a file stay as they are. -/
lemma PlacedAll.of_addFiles (hopts : Sound opts) {i : ℕ} {files : List (Option (List Byte))}
    {o o' : Out} {cur last : ℕ} (h : Ready opts i o cur) (hi : i + files.length ≤ 3)
    (hadd : addFiles opts.maxlen i files o cur = .ok (o', last)) :
    ∃ fs, files = fs.map some ∧ PlacedAll opts i fs o cur o' last := by
  induction files generalizing i o cur with
  | nil =>
    simp only [addFiles, pure, Except.pure, Except.ok.injEq, Prod.mk.injEq] at hadd
    obtain ⟨rfl, rfl⟩ := hadd
    exact ⟨[], rfl, le_rfl, fun hne => absurd rfl hne, fun _ _ _ => rfl, le_max_left _ _⟩
  | cons file files ih =>
    rw [List.length_cons] at hi
    have hhead : headerSize = 28 := rfl
    have hheader := h.header_le
    obtain ⟨o₁, cur₁, hfile, hrest⟩ := addFiles_cons_eq_ok hadd
    obtain ⟨f, rfl, hp⟩ := Placed.of_addFile hopts h (by omega) hfile
    have hstart := hp.start_le
    have hnext := hp.next
    have hfits := hp.fits
    cases files with
    | nil =>
      simp only [addFiles, pure, Except.pure, Except.ok.injEq, Prod.mk.injEq] at hrest
      obtain ⟨rfl, rfl⟩ := hrest
      have hlast : cur₁ = offsetOf o₁.buf i + f.length := hnext
      refine ⟨[f], rfl, ⟨hstart, hp.file, hp.given, hlast.ge⟩, fun _ => by omega, ?_, hp.high⟩
      intro j hj hout
      simp only [offsetField, List.length_singleton] at hout
      exact hp.keep j hj (by simp only [offsetField]; omega)
    | cons file files =>
      have hready := Placed.ready hopts h hp
      obtain ⟨fs, hfs, hall⟩ := ih hready (by omega) hrest
      have hlen : fs.length = files.length + 1 := by
        rw [← List.length_map (f := some), ← hfs, List.length_cons]
      have hne : fs ≠ [] := List.ne_nil_of_length_eq_add_one hlen
      rw [List.length_cons] at hi
      have hnext' : cur₁ = offsetOf o₁.buf i + (f.length + padding 4 f.length) := hnext
      have hoff : loadWord o'.buf (offsetField i) = loadWord o₁.buf (offsetField i) := by
        refine loadWord_congr fun k hk => hall.keep _ ?_ (.inl ?_) <;>
        · simp only [offsetField]
          omega
      have hoff' : offsetOf o'.buf i = offsetOf o₁.buf i := by rw [offsetOf, offsetOf, hoff]
      refine ⟨f :: fs, by rw [hfs, List.map_cons], ⟨?_, ?_, ?_, ?_⟩,
        fun _ => hall.lt_maxlen hne, ?_, ?_⟩
      · rw [hoff']
        exact hstart
      · rw [hoff', load_congr fun j h₁ h₂ => hall.keep j (by omega) (.inr ?_)]
        · exact hp.file
        · simp only [offsetField]
          omega
      · rw [hoff]
        exact hp.given
      · rw [hoff']
        exact hall.laid.mono (by omega)
      · intro j hj hout
        simp only [offsetField, List.length_cons] at hout
        rw [hall.keep j (by omega) (by simp only [offsetField]; omega),
          hp.keep j hj (by simp only [offsetField]; omega)]
      · have := hp.high
        have := hall.high
        have := hall.laid.start_le
        omega

/-! ### The whole image -/

lemma length_asusFooter (hopts : Sound opts) : (asusFooter opts).length = footerSize := by
  simp only [asusFooter, List.length_append, List.length_replicate, hopts.length_version,
    hopts.length_prodId]
  rfl

/-- The buffer as it is when the checksum is computed. -/
def padded (opts : Options) (o : Out) (cur : ℕ) : Out :=
  let end_ := cur + reserved opts
  let o := o.pad end_ (padding 0x1000 end_)
  if hasFooter opts then o.write (end_ + padding 0x1000 end_ - footerSize) (asusFooter opts) else o

lemma finish_eq (hopts : Sound opts) (o : Out) (cur : ℕ) :
    let len := cur + reserved opts + padding 0x1000 (cur + reserved opts)
    finish opts o cur = (((padded opts o cur).write 8
      (leBytes (crc32buf (load (padded opts o cur).buf 12 (len - 12))))).write 4
        (leBytes (BitVec.ofNat 32 len)), len) := by
  intro len
  have hlength := length_asusFooter hopts
  cases hfooter : hasFooter opts with
  | false => simp [finish, padded, reserved, hfooter, len]
  | true => simp [finish, padded, reserved, hfooter, len, hlength]

/-- The end of the program, once the files are in the buffer. -/
structure Ended (opts : Options) (o : Out) (cur : ℕ) (o' : Out) (len : ℕ) : Prop where
  len_eq : len = cur + reserved opts + padding 0x1000 (cur + reserved opts)
  keep : ∀ j < cur, j < 4 ∨ 12 ≤ j → o'.buf j = o.buf j
  length : loadWord o'.buf 4 = BitVec.ofNat 32 len
  crc : loadWord o'.buf 8 = crc32buf (load o'.buf 12 (len - 12))
  footer : hasFooter opts = true → load o'.buf (len - footerSize) footerSize = asusFooter opts
  high_le : o'.high ≤ len
  high_eq : hasFooter opts = true → o'.high = len

lemma ended_finish (hopts : Sound opts) {o : Out} {cur : ℕ} (hcur : headerSize ≤ cur)
    (hhigh : o.high ≤ cur) :
    Ended opts o cur (finish opts o cur).1 (finish opts o cur).2 := by
  have hhead : headerSize = 28 := rfl
  have hlength := length_asusFooter hopts
  rw [finish_eq hopts]
  set len := cur + reserved opts + padding 0x1000 (cur + reserved opts) with hlen
  have hge : 12 ≤ len := by omega
  have hpadded : ∀ j < cur, (padded opts o cur).buf j = o.buf j := by
    intro j hj
    rw [padded]
    split_ifs with hfooter
    · have hres : reserved opts = footerSize := if_pos hfooter
      exact (store_of_disjoint _ (.inl (by omega))).trans (buf_pad (by omega))
    · exact buf_pad (by omega)
  have hpaddedHigh : (padded opts o cur).high ≤ len ∧
      (hasFooter opts = true → (padded opts o cur).high = len) := by
    have hpad := high_pad_le o (cur + reserved opts) (padding 0x1000 (cur + reserved opts))
    rw [padded]
    split_ifs with hfooter
    · have hres : reserved opts = footerSize := if_pos hfooter
      simp only [Out.write, hlength]
      omega
    · exact ⟨by omega, fun h => absurd h hfooter⟩
  generalize hsum : crc32buf (load (padded opts o cur).buf 12 (len - 12)) = sum
  have hout : ∀ j, j < 4 ∨ 12 ≤ j → (((padded opts o cur).write 8 (leBytes sum)).write 4
      (leBytes (BitVec.ofNat 32 len))).buf j = (padded opts o cur).buf j := by
    intro j hj
    refine (store_of_disjoint _ ?_).trans (store_of_disjoint _ ?_) <;>
    · rw [length_leBytes]
      omega
  refine ⟨rfl, ?_, ?_, ?_, ?_, ?_, ?_⟩
  · intro j hj h
    rw [hout j h, hpadded j hj]
  · exact loadWord_eq (load_store_self _ _ _)
  · have hsame : load (((padded opts o cur).write 8 (leBytes sum)).write 4
        (leBytes (BitVec.ofNat 32 len))).buf 12 (len - 12) =
        load (padded opts o cur).buf 12 (len - 12) := load_congr fun j hj _ => hout j (.inr hj)
    rw [hsame, hsum]
    refine loadWord_eq ((load_store_of_disjoint (.inr ?_)).trans (load_store_self _ _ _))
    exact le_rfl
  · intro hfooter
    have hres : reserved opts = footerSize := if_pos hfooter
    have hsize : footerSize = 64 := rfl
    rw [load_congr fun j hj _ => hout j (.inr (by omega)), padded, if_pos hfooter, ← hlen,
      ← hlength]
    exact load_store_self _ _ _
  · simp only [Out.write, length_leBytes]
    omega
  · intro hfooter
    have := hpaddedHigh.2 hfooter
    simp only [Out.write, length_leBytes]
    omega

lemma headerSize_le_maxlen (hopts : Sound opts) : headerSize ≤ opts.maxlen :=
  le_trans (by decide) (Nat.le_of_dvd hopts.pos hopts.round)

lemma load_initial (opts : Options) :
    load (initial opts).buf 0 28 = leBytes trxMagic ++ leBytes 0 ++ leBytes 0 ++
      leBytes (trxVersion <<< 16) ++ leBytes (opts.offsets.getD 0 0) ++
      leBytes (opts.offsets.getD 1 0) ++ leBytes (opts.offsets.getD 2 0) :=
  load_store_self (fun _ => (0 : Byte)) 0 (leBytes trxMagic ++ leBytes 0 ++ leBytes 0 ++
    leBytes (trxVersion <<< 16) ++ leBytes (opts.offsets.getD 0 0) ++
    leBytes (opts.offsets.getD 1 0) ++ leBytes (opts.offsets.getD 2 0))

lemma ready_initial (hopts : Sound opts) : Ready opts 0 (initial opts) headerSize := by
  obtain ⟨hload, h₂⟩ := load_of_eq_append (load_initial opts)
  obtain ⟨hload, h₁⟩ := load_of_eq_append hload
  obtain ⟨-, h₀⟩ := load_of_eq_append hload
  refine ⟨?_, by decide, le_rfl, headerSize_le_maxlen hopts, le_rfl⟩
  intro j _ hj
  interval_cases j
  · exact loadWord_eq h₀
  · exact loadWord_eq h₁
  · exact loadWord_eq h₂

lemma header_initial (opts : Options) :
    loadWord (initial opts).buf 0 = trxMagic ∧
      loadWord (initial opts).buf 12 = trxVersion <<< 16 := by
  obtain ⟨hload, -⟩ := load_of_eq_append (load_initial opts)
  obtain ⟨hload, -⟩ := load_of_eq_append hload
  obtain ⟨hload, -⟩ := load_of_eq_append hload
  obtain ⟨hload, hflags⟩ := load_of_eq_append hload
  obtain ⟨hload, -⟩ := load_of_eq_append hload
  obtain ⟨hmagic, -⟩ := load_of_eq_append hload
  exact ⟨loadWord_eq hmagic, loadWord_eq hflags⟩

lemma asustrx_ok {files : List (Option (List Byte))} {r : Result}
    (h : asustrx opts files true = .ok r) :
    files ≠ [] ∧ files.length ≤ 3 ∧ ∃ o last,
      addFiles opts.maxlen 0 files (initial opts) headerSize = .ok (o, last) ∧
        r = ⟨load (finish opts o last).1.buf 0 (finish opts o last).2,
          (finish opts o last).1.high⟩ := by
  simp only [asustrx, if_true] at h
  by_cases hnil : files = []
  · rw [if_pos hnil] at h
    cases h
  rw [if_neg hnil] at h
  by_cases hmany : files.length > 3
  · rw [if_pos hmany] at h
    cases h
  rw [if_neg hmany] at h
  refine ⟨hnil, Nat.not_lt.mp hmany, ?_⟩
  cases hfiles : addFiles opts.maxlen 0 files (initial opts) headerSize with
  | error e =>
    rw [hfiles] at h
    cases h
  | ok p =>
    rw [hfiles] at h
    cases h
    exact ⟨p.1, p.2, rfl, rfl⟩

lemma trx_of_asustrx (hopts : Sound opts) {files : List (Option (List Byte))} {r : Result}
    (h : asustrx opts files true = .ok r) :
    ∃ fs last m, files = fs.map some ∧ r.image = load m 0 r.image.length ∧
      Trx opts fs last m r.image.length ∧ last < opts.maxlen ∧
      r.image.length = last + reserved opts + padding 0x1000 (last + reserved opts) ∧
      r.high ≤ r.image.length ∧ (hasFooter opts = true → r.high = r.image.length) := by
  have hhead : headerSize = 28 := rfl
  obtain ⟨hnil, hmany, o, last, hadd, rfl⟩ := asustrx_ok h
  obtain ⟨fs, hfs, hall⟩ := PlacedAll.of_addFiles hopts (ready_initial hopts) (by omega) hadd
  have hne : fs ≠ [] := by
    rintro rfl
    exact hnil hfs
  have hlen : fs.length ≤ 3 := by
    rw [hfs, List.length_map] at hmany
    omega
  have hlast := hall.lt_maxlen hne
  have hstart := hall.laid.start_le
  have hhigh : o.high ≤ last := by
    have hinitial : (initial opts).high = 28 := rfl
    have := hall.high
    omega
  have hend := ended_finish hopts (by omega : headerSize ≤ last) hhigh
  generalize (finish opts o last).1 = o', (finish opts o last).2 = len at hend ⊢
  have hlt := hopts.lt
  have hsize : reserved opts ≤ 64 := by
    rw [reserved]
    split_ifs <;> decide
  have hlen_le : len ≤ opts.maxlen + 0x1000 := by
    rw [hend.len_eq]
    exact add_padding_le (Nat.dvd_add hopts.round (dvd_refl _)) (by omega)
  have hlen_ge : last + reserved opts ≤ len := by
    have := hend.len_eq
    omega
  have hheader : ∀ i, i + 4 ≤ 28 → (i + 4 ≤ 4 ∨ 12 ≤ i) →
      (i + 4 ≤ 16 ∨ offsetField fs.length ≤ i) →
      loadWord o'.buf i = loadWord (initial opts).buf i := by
    intro i hi hkeep hout
    refine loadWord_congr fun j hj => ?_
    rw [hend.keep _ (by omega) (by omega), hall.keep _ (by omega)
      (by simp only [offsetField, Nat.zero_add] at hout ⊢; omega)]
  obtain ⟨hmagic, hflags⟩ := header_initial opts
  rw [length_load]
  refine ⟨fs, last, o'.buf, hfs, rfl, ?_, hlast, hend.len_eq, hend.high_le, hend.high_eq⟩
  refine ⟨(hheader 0 (by decide) (.inl (by decide)) (.inl (by decide))).trans hmagic, ?_, hend.crc,
    (hheader 12 (by decide) (.inr (by decide)) (.inl (by decide))).trans hflags, ?_, ?_, ?_,
    hlen_ge, hend.footer⟩
  · rw [hend.length, BitVec.toNat_ofNat, Nat.mod_eq_of_lt (by omega)]
  · exact hall.laid.congr le_rfl (by omega) fun j h₁ h₂ => hend.keep j h₂ (.inr (by omega))
  · intro i hi hle
    rw [hheader _ (by simp only [offsetField]; omega) (.inr (by simp only [offsetField]; omega))
      (.inr (by simp only [offsetField]; omega))]
    exact (ready_initial hopts).fields i (Nat.zero_le i) hi
  · rw [hend.len_eq]
    exact dvd_add_padding (by decide) _

lemma sound_defaults : Sound defaults :=
  ⟨by decide, by decide, by decide, by simp [defaults], by simp [defaults], by decide, rfl, rfl⟩

open Core.Crc

/-- "CRC polynomial 0xedb88320". -/
def crc32Poly : BitVec 32 := 0xedb88320

lemma crc32Tab_table : Table crc32Poly crc32Tab := by
  rw [Table]
  decide +kernel

lemma crc32buf_eq_check (buf : List Byte) :
    crc32buf buf = check crc32Poly 0xffffffff (messageBits buf) := by
  have hstep : tableStep crc32Tab = updc32 := by
    funext crc octet
    -- the sign of the octet is masked out
    have hmask : (crc ^^^ octet.signExtend 32) &&& 0xff =
        ((crc ^^^ octet.setWidth 32).setWidth 8).setWidth 32 := by
      apply BitVec.eq_of_getLsbD_eq
      intro i hi
      have hff : (0xff : BitVec 32).getLsbD i = decide (i < 8) := by
        have hall : ∀ i < 32, (0xff : BitVec 32).getLsbD i = decide (i < 8) := by decide
        exact hall i hi
      rw [BitVec.getLsbD_and, hff]
      by_cases h8 : i < 8
      · simp only [h8, hi, BitVec.getLsbD_xor, BitVec.getLsbD_signExtend, BitVec.getLsbD_setWidth,
          decide_true, Bool.true_and, Bool.and_true, if_true]
      · simp only [h8, BitVec.getLsbD_setWidth, decide_false, Bool.false_and, Bool.and_false]
    rw [tableStep, updc32, hmask]
    generalize (crc ^^^ octet.setWidth 32).setWidth 8 = low
    have hlow := low.isLt
    rw [BitVec.toNat_setWidth, Nat.mod_eq_of_lt (by omega)]
  rw [check_messageBits (by decide) crc32Tab_table, hstep, crc32buf]

/-- The checksum in the header is that of everything behind it. -/
def crcMatches (image : List Byte) : Bool :=
  loadWord (fun i => image.getD i 0) 8 = crc32buf (image.drop 12)

/-- An image that was written matches its checksum; one that was damaged in up to 32 bits in a row
behind the checksum does not. -/
theorem image_burst_detected (opts : Options) (hopts : Sound opts)
    (files : List (Option (List Byte))) (r : Result) (h : asustrx opts files true = .ok r) :
    crcMatches r.image = true ∧
      ∀ (damaged : List Byte) (start : ℕ), damaged.take 12 = r.image.take 12 →
        Burst start 32 (messageBits (r.image.drop 12)) (messageBits (damaged.drop 12)) →
        crcMatches damaged = false := by
  obtain ⟨fs, last, m, -, himage, htrx, -⟩ := trx_of_asustrx hopts h
  have hhead : headerSize = 28 := rfl
  have hlaid := htrx.laid.start_le
  have hlast := htrx.last_le
  have hcell : ∀ i < r.image.length, m i = r.image.getD i 0 := by
    intro i hi
    have hm := eq_getD_of_load (m := m) himage.symm hi 0
    rwa [Nat.zero_add] at hm
  have hdrop : load m 12 (r.image.length - 12) = r.image.drop 12 := by
    have hsplit : load m 0 (12 + (r.image.length - 12)) = r.image := by
      rw [Nat.add_sub_cancel' (by omega)]
      exact himage.symm
    rw [load_add] at hsplit
    rw [← hsplit, List.drop_left' (length_load _ _ _)]
    simp
  have hword : loadWord (fun i => r.image.getD i 0) 8 = crc32buf (r.image.drop 12) := by
    rw [← hdrop, ← htrx.crc]
    exact loadWord_congr fun i hi => (hcell _ (by omega)).symm
  refine ⟨by rw [crcMatches, hword]; simp, ?_⟩
  intro damaged start hsame hburst
  have hstored : loadWord (fun i => damaged.getD i 0) 8 =
      loadWord (fun i => r.image.getD i 0) 8 := by
    refine loadWord_congr fun i hi => ?_
    have hget := congrArg (fun xs => xs[8 + i]?) hsame
    simp only [List.getElem?_take_of_lt (show 8 + i < 12 by omega)] at hget
    rw [List.getD_eq_getElem?_getD, List.getD_eq_getElem?_getD, hget]
  have hne := check_ne_of_burst (show crc32Poly.msb = true by decide) hburst 0xffffffff
  rw [← crc32buf_eq_check, ← crc32buf_eq_check] at hne
  rw [crcMatches, hstored, hword]
  simpa using hne

/-- The last byte of an image, changed. -/
theorem image_burst_detected_last :
    ∃ r, asustrx defaults [some [1, 2, 3]] true = .ok r ∧ crcMatches r.image = true ∧
      ∃ damaged : List Byte, crcMatches damaged = false := by
  obtain ⟨r, hr⟩ : ∃ r, asustrx defaults [some [1, 2, 3]] true = .ok r := ⟨_, rfl⟩
  obtain ⟨hintact, hdamaged⟩ := image_burst_detected defaults sound_defaults _ r hr
  refine ⟨r, hr, hintact, ?_⟩
  have hlong : 12 < r.image.length := by
    obtain ⟨fs, last, m, -, -, htrx, -⟩ := trx_of_asustrx sound_defaults hr
    have hhead : headerSize = 28 := rfl
    have := htrx.laid.start_le
    have := htrx.last_le
    omega
  have hne : r.image.drop 12 ≠ [] := by simpa using hlong
  obtain ⟨pre, a, hlast⟩ := (List.eq_nil_or_concat (r.image.drop 12)).resolve_left hne
  have htake : (r.image.take 12).length = 12 := by
    rw [List.length_take]
    omega
  refine ⟨r.image.take 12 ++ (pre ++ [a ^^^ 1]), hdamaged _ (8 * pre.length) ?_ ?_⟩
  · rw [List.take_left' htake]
  · rw [List.drop_left' htake, hlast, List.concat_eq_append]
    refine burst_of_byte (show 8 ≤ 32 by decide) (fun heq => ?_) pre []
    have hone : (1 : Byte) = 0 := by
      have hxor := congrArg (a ^^^ ·) heq
      simpa [← BitVec.xor_assoc] using hxor.symm
    exact absurd hone (by decide)

end BcmMruby.Image
