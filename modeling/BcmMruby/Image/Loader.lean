import BcmMruby.Image.Writer

/-!
# The boot loader and the image

`main` of `main.c` finds the script in the flash by the second offset of the image that was stored
there. `boot_image`: it finds the second file, whatever the lengths of the two, and takes an image
of a single file for one without a script.
-/

namespace BcmMruby.Image

open Core

/-! ### Finding the script -/

/-- Where the flash is mapped. -/
def flashBase : BitVec 32 := 0xa0000000 + 0x1C000000

def bootsize (isbcm5354 : Bool) : BitVec 32 := if isbcm5354 then 0x20000 else 0x40000

/-- The memory from an address on. -/
def memFrom (mem : BitVec 32 → Byte) (addr : BitVec 32) : ℕ → Byte :=
  fun i => mem (addr + BitVec.ofNat 32 i)

def vmsize (mem : BitVec 32 → Byte) (isbcm5354 : Bool) : BitVec 32 :=
  let sizep := flashBase + bootsize isbcm5354 + 0x14
  word (mem (sizep + 3)) (mem (sizep + 2)) (mem (sizep + 1)) (mem sizep)

def mrbp (mem : BitVec 32 → Byte) (isbcm5354 : Bool) : BitVec 32 :=
  flashBase + bootsize isbcm5354 + vmsize mem isbcm5354

/-- `strncmp(s, t, n) == 0`. -/
def strncmpEq : ℕ → (ℕ → Byte) → (ℕ → Byte) → Bool
  | 0, _, _ => true
  | n + 1, s, t => s 0 = t 0 && (s 0 = 0 || strncmpEq n (fun i => s (i + 1)) fun i => t (i + 1))

inductive Boot where
  | noScript
  | versionMismatch
  | script (mrbbuf : List Byte)
  deriving DecidableEq

/-- `main` up to the copy of the script, for which `malloc` finds room; `riteVmVer` is the constant
of mruby. -/
def boot (mem : BitVec 32 → Byte) (isbcm5354 : Bool) (riteVmVer : CString) : Boot :=
  let p := memFrom mem (mrbp mem isbcm5354)
  if p 0 = 0x52 ∧ p 1 = 0x49 ∧ p 2 = 0x54 ∧ p 3 = 0x45 then
    if strncmpEq 4 (fun i => p (4 + i)) (fun i => riteVmVer.chars.getD i 0) then
      .script (load p 0 (word (p 8) (p 9) (p 10) (p 11)).toNat)
    else .versionMismatch
  else .noScript

/-! ### Adding a file -/

lemma room_eq {maxlen curLen : ℕ} (h : curLen ≤ maxlen) (hmax : maxlen < 2 ^ 64) :
    room maxlen curLen = maxlen - curLen := by
  have hsub : maxlen + 2 ^ 64 - curLen = (maxlen - curLen) + 2 ^ 64 := by omega
  rw [room, hsub, Nat.add_mod_right, Nat.mod_eq_of_lt (by omega)]

/-- Rounding up stays below a bound that is round itself. -/
lemma add_padding_le {round n bound : ℕ} (hbound : round ∣ bound) (h : n ≤ bound) :
    n + padding round n ≤ bound := by
  rw [padding]
  split_ifs with hmod
  · simpa using h
  · obtain ⟨k, rfl⟩ := hbound
    have hpos : 0 < round := by
      rcases Nat.eq_zero_or_pos round with rfl | hpos
      · simp at h
        simp [h] at hmod
      · exact hpos
    have hdiv := Nat.div_add_mod n round
    have hlt : n / round < k := by
      rw [Nat.div_lt_iff_lt_mul hpos]
      rcases Nat.lt_or_eq_of_le h with h | h
      · rwa [Nat.mul_comm]
      · rw [h, Nat.mul_mod_right] at hmod
        exact absurd rfl hmod
    have hmul : round * (n / round + 1) ≤ round * k := Nat.mul_le_mul_left round hlt
    have hmodlt := Nat.mod_lt n hpos
    rw [Nat.mul_add, Nat.mul_one] at hmul
    omega

/-- What a turn of the loop leaves, if no offset was given for the file. -/
structure Added (maxlen i : ℕ) (more : Bool) (contents : List Byte) (o : Out) (curLen : ℕ)
    (o' : Out) (curLen' : ℕ) : Prop where
  fits : curLen + contents.length < maxlen
  next : curLen' = curLen + (contents.length + if more then padding 4 contents.length else 0)
  file : load o'.buf curLen contents.length = contents
  offset : loadWord o'.buf (offsetField i) = BitVec.ofNat 32 curLen
  keep : ∀ j < curLen, j < offsetField i ∨ offsetField i + 4 ≤ j → o'.buf j = o.buf j
  high : o'.high ≤ max o.high curLen'

lemma buf_pad {o : Out} {off len j : ℕ} (h : j < off) : (o.pad off len).buf j = o.buf j := by
  rw [Out.pad]
  split_ifs
  · rfl
  · exact store_of_disjoint _ (Or.inl h)

lemma high_pad_le (o : Out) (off len : ℕ) : (o.pad off len).high ≤ max o.high (off + len) := by
  rw [Out.pad]
  split_ifs
  · exact le_max_left _ _
  · simp [Out.write]

lemma Added.of_addFile {maxlen i : ℕ} {more : Bool} {contents : List Byte} {o o' : Out}
    {curLen curLen' : ℕ} (hgiven : loadWord o.buf (offsetField i) = 0)
    (hi : offsetField i + 4 ≤ curLen) (hcur : curLen ≤ maxlen) (hmax : maxlen < 2 ^ 64)
    (h : addFile maxlen i more (some contents) o curLen = .ok (o', curLen')) :
    Added maxlen i more contents o curLen o' curLen' := by
  simp only [addFile, hgiven, if_true, pure_bind] at h
  by_cases hroom : contents.length < room maxlen curLen
  swap
  · rw [if_neg hroom] at h
    cases h
  rw [if_pos hroom] at h
  simp only [pure, Except.pure, Except.ok.injEq, Prod.mk.injEq] at h
  obtain ⟨rfl, rfl⟩ := h
  rw [room_eq hcur hmax] at hroom
  have hword : load (store o.buf (offsetField i) (leBytes (BitVec.ofNat 32 curLen)))
      (offsetField i) 4 = leBytes (BitVec.ofNat 32 curLen) := load_store_self _ _ _
  refine ⟨by omega, rfl, ?_, ?_, ?_, ?_⟩
  · rw [load_congr fun j _ hj => buf_pad hj]
    exact load_store_self _ _ _
  · refine (loadWord_congr ?_).trans (loadWord_eq hword)
    intro j hj
    rw [buf_pad (by omega)]
    exact store_of_disjoint _ (Or.inl (by omega))
  · intro j hj hout
    rw [buf_pad (by omega)]
    refine (store_of_disjoint _ (Or.inl hj)).trans (store_of_disjoint _ ?_)
    rw [length_leBytes]
    exact hout
  · refine (high_pad_le _ _ _).trans ?_
    simp only [Out.write, length_leBytes]
    omega

/-! ### The end of the program -/

/-- Without a footer the header changes in its second and third word only, and the files stay. -/
structure Finished (o : Out) (curLen : ℕ) (o' : Out) (curLen' : ℕ) : Prop where
  next : curLen' = curLen + padding 0x1000 curLen
  keep : ∀ j < curLen, j < 4 ∨ 12 ≤ j → o'.buf j = o.buf j
  high : o'.high ≤ max o.high (max curLen' 12)

lemma finished_finish {opts : Options} (hfooter : hasFooter opts = false) (o : Out) (curLen : ℕ) :
    Finished o curLen (finish opts o curLen).1 (finish opts o curLen).2 := by
  simp only [finish, hfooter, Bool.false_eq_true, if_false]
  refine ⟨rfl, ?_, ?_⟩
  · intro j hj hout
    refine (store_of_disjoint _ ?_).trans ((store_of_disjoint _ ?_).trans (buf_pad hj))
    all_goals
      rw [length_leBytes]
      omega
  · have hpad := high_pad_le o curLen (padding 0x1000 curLen)
    simp only [Out.write, length_leBytes]
    omega

/-! ### Images of one and of two files -/

lemma hasFooter_defaults : hasFooter defaults = false := by decide

lemma loadWord_initial {i : ℕ} (hi : i < 3) :
    loadWord (initial defaults).buf (offsetField i) = 0 := by
  interval_cases i <;> decide

/-- A result is the buffer after the files and the end of the program. -/
lemma asustrx_eq_ok {files : List (Option (List Byte))} {r : Result}
    (h : asustrx defaults files true = .ok r) :
    ∃ o curLen, addFiles trxMaxLen 0 files (initial defaults) headerSize = .ok (o, curLen) ∧
      r = ⟨load (finish defaults o curLen).1.buf 0 (finish defaults o curLen).2,
        (finish defaults o curLen).1.high⟩ := by
  simp only [asustrx, if_true] at h
  split_ifs at h
  cases hfiles : addFiles defaults.maxlen 0 files (initial defaults) headerSize with
  | error e =>
    rw [hfiles] at h
    cases h
  | ok p =>
    rw [hfiles] at h
    cases h
    exact ⟨p.1, p.2, hfiles, rfl⟩

lemma addFiles_cons_eq_ok {maxlen i : ℕ} {file : Option (List Byte)}
    {files : List (Option (List Byte))} {o : Out} {curLen : ℕ} {p : Out × ℕ}
    (h : addFiles maxlen i (file :: files) o curLen = .ok p) :
    ∃ o' curLen', addFile maxlen i (!files.isEmpty) file o curLen = .ok (o', curLen') ∧
      addFiles maxlen (i + 1) files o' curLen' = .ok p := by
  rw [addFiles] at h
  cases hfile : addFile maxlen i (!files.isEmpty) file o curLen with
  | error e =>
    rw [hfile] at h
    cases h
  | ok q =>
    rw [hfile] at h
    exact ⟨q.1, q.2, rfl, h⟩

/-- What two files leave in the image. -/
structure TwoFiles (f₁ f₂ : List Byte) (m : ℕ → Byte) (len : ℕ) : Prop where
  offset : loadWord m 0x14 = BitVec.ofNat 32 (headerSize + (f₁.length + padding 4 f₁.length))
  file : load m (headerSize + (f₁.length + padding 4 f₁.length)) f₂.length = f₂
  len_le : len ≤ trxMaxLen
  lt_len : headerSize + (f₁.length + padding 4 f₁.length) + f₂.length ≤ len

lemma twoFiles_of_asustrx {f₁ f₂ : List Byte} {r : Result}
    (h : asustrx defaults [some f₁, some f₂] true = .ok r) :
    ∃ m len, r.image = load m 0 len ∧ r.high ≤ trxMaxLen ∧ TwoFiles f₁ f₂ m len := by
  obtain ⟨o, cur, hfiles, rfl⟩ := asustrx_eq_ok h
  obtain ⟨o₁, cur₁, hadd₁, hfiles⟩ := addFiles_cons_eq_ok hfiles
  obtain ⟨o₂, cur₂, hadd₂, hfiles⟩ := addFiles_cons_eq_ok hfiles
  simp only [addFiles, pure, Except.pure, Except.ok.injEq, Prod.mk.injEq] at hfiles
  obtain ⟨rfl, rfl⟩ := hfiles
  have hhead : headerSize = 28 := rfl
  have hmax : trxMaxLen = 0x9A0000 := rfl
  have h₁ := Added.of_addFile (loadWord_initial (by decide)) (by decide) (by decide) (by decide)
    hadd₁
  have hnext₁ : cur₁ = headerSize + (f₁.length + padding 4 f₁.length) := h₁.next
  have hround₁ : f₁.length + padding 4 f₁.length ≤ trxMaxLen - headerSize :=
    add_padding_le (by decide) (by have := h₁.fits; omega)
  have hgiven₂ : loadWord o₁.buf (offsetField 1) = 0 := by
    rw [← loadWord_initial (i := 1) (by decide)]
    refine loadWord_congr fun j hj => h₁.keep _ ?_ (Or.inr ?_)
    all_goals
      simp only [offsetField]
      omega
  have h₂ := Added.of_addFile hgiven₂ (by simp only [offsetField]; omega) (by omega) (by decide)
    hadd₂
  have hnext₂ : cur₂ = cur₁ + f₂.length := h₂.next
  have hfin := finished_finish hasFooter_defaults o₂ cur₂
  generalize finish defaults o₂ cur₂ = out at hfin ⊢
  have hround₂ : cur₂ + padding 0x1000 cur₂ ≤ trxMaxLen :=
    add_padding_le (by decide) (by have := h₂.fits; omega)
  have hnext := hfin.next
  refine ⟨out.1.buf, out.2, rfl, ?_, ?_, ?_, by omega, by omega⟩
  · have hhigh₀ : (initial defaults).high = headerSize := rfl
    have hhigh₁ := h₁.high
    have hhigh₂ := h₂.high
    have hhigh := hfin.high
    show out.1.high ≤ trxMaxLen
    omega
  · rw [← hnext₁, ← h₂.offset]
    refine loadWord_congr fun j hj => hfin.keep _ ?_ (Or.inr ?_) <;> omega
  · rw [← hnext₁]
    refine (load_congr fun j hj hj' => hfin.keep j ?_ (Or.inr ?_)).trans h₂.file <;> omega

/-- What a single file leaves: the magic number, and no second offset. -/
structure OneFile (m : ℕ → Byte) (len : ℕ) : Prop where
  offset : loadWord m 0x14 = 0
  magic : m 0 = byte trxMagic 0
  lt_len : headerSize ≤ len

lemma oneFile_of_asustrx {f : List Byte} {r : Result}
    (h : asustrx defaults [some f] true = .ok r) :
    ∃ m len, r.image = load m 0 len ∧ OneFile m len := by
  obtain ⟨o, cur, hfiles, rfl⟩ := asustrx_eq_ok h
  obtain ⟨o₁, cur₁, hadd, hfiles⟩ := addFiles_cons_eq_ok hfiles
  simp only [addFiles, pure, Except.pure, Except.ok.injEq, Prod.mk.injEq] at hfiles
  obtain ⟨rfl, rfl⟩ := hfiles
  have hhead : headerSize = 28 := rfl
  have h₁ := Added.of_addFile (loadWord_initial (by decide)) (by decide) (by decide) (by decide)
    hadd
  have hnext₁ : cur₁ = headerSize + f.length := h₁.next
  have hfin := finished_finish hasFooter_defaults o₁ cur₁
  generalize finish defaults o₁ cur₁ = out at hfin ⊢
  have hnext := hfin.next
  refine ⟨out.1.buf, out.2, rfl, ?_, ?_, by omega⟩
  · rw [← loadWord_initial (i := 1) (by decide)]
    refine loadWord_congr fun j hj =>
      (hfin.keep _ (by omega) (Or.inr (by omega))).trans (h₁.keep _ (by omega) (Or.inr ?_))
    simp only [offsetField]
    omega
  · rw [hfin.keep 0 (by omega) (Or.inl (by omega)),
      h₁.keep 0 (by omega) (Or.inl (by simp only [offsetField]; omega))]
    decide

/-! ### Main result -/

/-- Where the image lies in memory. -/
def stored (mem : BitVec 32 → Byte) (isbcm5354 : Bool) : ℕ → Byte :=
  memFrom mem (flashBase + bootsize isbcm5354)

lemma vmsize_eq (mem : BitVec 32 → Byte) (isbcm5354 : Bool) :
    vmsize mem isbcm5354 = loadWord (stored mem isbcm5354) 0x14 := by
  have hadd : ∀ i : ℕ, flashBase + bootsize isbcm5354 + BitVec.ofNat 32 (0x14 + i) =
      flashBase + bootsize isbcm5354 + 0x14 + BitVec.ofNat 32 i := by
    intro i
    rw [BitVec.ofNat_add, BitVec.add_assoc _ (0x14 : BitVec 32)]
    rfl
  simp only [vmsize, loadWord, stored, memFrom, hadd]
  rfl

lemma memFrom_add (mem : BitVec 32 → Byte) (addr : BitVec 32) (off : ℕ) :
    memFrom mem (addr + BitVec.ofNat 32 off) = fun i => memFrom mem addr (off + i) := by
  funext i
  simp only [memFrom, BitVec.ofNat_add, BitVec.add_assoc]

lemma load_shift (m : ℕ → Byte) (off k len : ℕ) :
    load (fun i => m (off + i)) k len = load m (off + k) len := by
  induction len generalizing k with
  | zero => rfl
  | succ len ih => rw [load_succ, load_succ, ih, Nat.add_assoc]

lemma strncmpEq_of_load {n : ℕ} {s t : ℕ → Byte} (h : ∀ i < n, s i = t i) :
    strncmpEq n s t = true := by
  induction n generalizing s t with
  | zero => rfl
  | succ n ih =>
    have htail := ih fun i hi => h (i + 1) (by omega)
    simp [strncmpEq, h 0 (by omega), htail]

/-- The size field of a script. -/
lemma word_eq_of_load {m : ℕ → Byte} {off : ℕ} {w : BitVec 32} (h : load m off 4 = beBytes w) :
    word (m off) (m (off + 1)) (m (off + 2)) (m (off + 3)) = w := by
  simp only [load, beBytes, List.cons.injEq, and_true] at h
  obtain ⟨h₃, h₂, h₁, h₀⟩ := h
  rw [h₃, h₂, h₁, h₀, word_byte]

/-- `main` copies a script that begins as it expects, with its length in the size field. -/
lemma boot_eq_script {mem : BitVec 32 → Byte} {isbcm5354 : Bool} {riteVmVer : CString}
    {f : List Byte} (hload : load (memFrom mem (mrbp mem isbcm5354)) 0 f.length = f)
    (hlen : f.length < 2 ^ 32) (hrite : f.take 4 = [0x52, 0x49, 0x54, 0x45])
    (hver : (f.drop 4).take 4 = riteVmVer.chars.take 4)
    (hsize : (f.drop 8).take 4 = beBytes (BitVec.ofNat 32 f.length)) :
    boot mem isbcm5354 riteVmVer = .script f := by
  generalize hp : memFrom mem (mrbp mem isbcm5354) = p at hload
  have hlong : 12 ≤ f.length := by
    have := congrArg List.length hsize
    simp only [List.length_take, List.length_drop, beBytes, List.length_cons,
      List.length_nil] at this
    omega
  have hsplit : f = f.take 4 ++ ((f.drop 4).take 4 ++ ((f.drop 8).take 4 ++ f.drop 12)) := by
    rw [← List.drop_drop (i := 4) (j := 8), List.take_append_drop,
      ← List.drop_drop (i := 4) (j := 4), List.take_append_drop, List.take_append_drop]
  have hparts := hload
  nth_rewrite 2 [hsplit] at hparts
  obtain ⟨h₀, hparts⟩ := load_of_eq_append hparts
  obtain ⟨h₄, hparts⟩ := load_of_eq_append hparts
  obtain ⟨h₈, -⟩ := load_of_eq_append hparts
  rw [hrite] at h₀ h₄ h₈
  rw [hver] at h₄ h₈
  have hverlen : (riteVmVer.chars.take 4).length = 4 := by
    rw [← hver, List.length_take, List.length_drop]
    omega
  rw [hsize] at h₈
  simp only [hverlen, List.length_cons, List.length_nil] at h₄ h₈
  simp only [load, List.length_cons, List.length_nil, List.cons.injEq, and_true] at h₀
  have hcmp : strncmpEq 4 (fun i => p (4 + i)) (fun i => riteVmVer.chars.getD i 0) = true := by
    apply strncmpEq_of_load
    intro i hi
    rw [eq_getD_of_load h₄ hi 0]
    simp [List.getD_eq_getElem?_getD, hi]
  have hword : word (p 8) (p 9) (p 10) (p 11) = BitVec.ofNat 32 f.length := word_eq_of_load h₈
  obtain ⟨hr, hi, ht, he⟩ := h₀
  simp only [boot, hp]
  rw [if_pos ⟨hr, hi, ht, he⟩, if_pos hcmp, hword, BitVec.toNat_ofNat, Nat.mod_eq_of_lt hlen, hload]

/-- An image that is stored in the flash: the pointer that `main` computes names a copy of the
second file, so that a script there is the one that runs, and all writes of the writer are within
its buffer. An image of a single file is one without a script. -/
theorem boot_image (mem : BitVec 32 → Byte) (isbcm5354 : Bool) (riteVmVer : CString) (r : Result)
    (hstored : load (stored mem isbcm5354) 0 r.image.length = r.image) :
    (∀ f₁ f₂, asustrx defaults [some f₁, some f₂] true = .ok r →
      load (memFrom mem (mrbp mem isbcm5354)) 0 f₂.length = f₂ ∧
      (f₂.take 4 = [0x52, 0x49, 0x54, 0x45] → (f₂.drop 4).take 4 = riteVmVer.chars.take 4 →
        (f₂.drop 8).take 4 = beBytes (BitVec.ofNat 32 f₂.length) →
        boot mem isbcm5354 riteVmVer = .script f₂) ∧
      r.high ≤ trxMaxLen) ∧
    ∀ f, asustrx defaults [some f] true = .ok r → boot mem isbcm5354 riteVmVer = .noScript := by
  have hcopy : ∀ m len, r.image = load m 0 len → ∀ i < len, stored mem isbcm5354 i = m i := by
    intro m len himage i hi
    rw [himage, length_load] at hstored
    exact eq_of_load_eq hstored (Nat.zero_le i) (by omega)
  constructor
  · intro f₁ f₂ h
    obtain ⟨m, len, himage, hhigh, h⟩ := twoFiles_of_asustrx h
    have hmem := hcopy m len himage
    have hfits := h.lt_len
    have hmax : trxMaxLen = 0x9A0000 := rfl
    have hlen := h.len_le
    have hhead : headerSize = 28 := rfl
    have hvmsize : vmsize mem isbcm5354 =
        BitVec.ofNat 32 (headerSize + (f₁.length + padding 4 f₁.length)) := by
      rw [vmsize_eq, ← h.offset]
      exact loadWord_congr fun i hi => hmem _ (by omega)
    have hload : load (memFrom mem (mrbp mem isbcm5354)) 0 f₂.length = f₂ := by
      rw [mrbp, hvmsize, memFrom_add, load_shift]
      exact (load_congr fun i _ hi => hmem i (by omega)).trans h.file
    exact ⟨hload, boot_eq_script hload (by omega), hhigh⟩
  · intro f h
    obtain ⟨m, len, himage, h⟩ := oneFile_of_asustrx h
    have hmem := hcopy m len himage
    have hfits := h.lt_len
    have hhead : headerSize = 28 := rfl
    have hvmsize : vmsize mem isbcm5354 = 0 := by
      rw [vmsize_eq, ← h.offset]
      exact loadWord_congr fun i hi => hmem _ (by omega)
    have hmrbp : mrbp mem isbcm5354 = flashBase + bootsize isbcm5354 := by
      rw [mrbp, hvmsize]
      exact BitVec.add_zero _
    have hfirst : memFrom mem (mrbp mem isbcm5354) 0 = 0x48 := by
      have hzero := hmem 0 (by omega)
      rw [h.magic] at hzero
      rw [hmrbp]
      exact hzero.trans (by decide)
    rw [boot, if_neg]
    rintro ⟨hr, -⟩
    rw [hfirst] at hr
    exact absurd hr (by decide)

/-- Flash with an image in it. -/
def flashWith (image : List Byte) (isbcm5354 : Bool) : BitVec 32 → Byte :=
  fun addr => image.getD (addr - (flashBase + bootsize isbcm5354)).toNat 0

lemma load_flashWith {image : List Byte} (h : image.length ≤ 2 ^ 32) (isbcm5354 : Bool) :
    load (stored (flashWith image isbcm5354) isbcm5354) 0 image.length = image := by
  have hcell : ∀ i < image.length,
      stored (flashWith image isbcm5354) isbcm5354 i = image.getD i 0 := by
    intro i hi
    rw [stored, memFrom, flashWith, BitVec.add_comm, BitVec.add_sub_cancel, BitVec.toNat_ofNat,
      Nat.mod_eq_of_lt (by omega)]
  rw [load_congr fun i _ hi => hcell i (by omega), load_getD (by omega), List.drop_zero,
    List.take_length]

/-- The smallest script, behind a file of one byte. -/
theorem boot_smallest_script :
    ∃ r mem, asustrx defaults
        [some [0], some ([0x52, 0x49, 0x54, 0x45] ++ [0x30, 0x33, 0x30, 0x30] ++ beBytes 12)]
        true = .ok r ∧
      boot mem true ⟨[0x30, 0x33, 0x30, 0x30], by decide⟩ =
        .script ([0x52, 0x49, 0x54, 0x45] ++ [0x30, 0x33, 0x30, 0x30] ++ beBytes 12) := by
  obtain ⟨r, hr⟩ : ∃ r, asustrx defaults
      [some [0], some ([0x52, 0x49, 0x54, 0x45] ++ [0x30, 0x33, 0x30, 0x30] ++ beBytes 12)]
      true = .ok r := ⟨_, rfl⟩
  have hlen : r.image.length ≤ 2 ^ 32 := by
    obtain ⟨m, len, himage, -, h⟩ := twoFiles_of_asustrx hr
    rw [himage, length_load]
    exact h.len_le.trans (by decide)
  have hboot := boot_image (flashWith r.image true) true ⟨[0x30, 0x33, 0x30, 0x30], by decide⟩ r
    (load_flashWith hlen true)
  exact ⟨r, flashWith r.image true, hr,
    (hboot.1 _ _ hr).2.1 (by decide) (by decide) (by decide)⟩

end BcmMruby.Image
