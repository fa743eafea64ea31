import BcmMruby.Nvram.Bounds

/-!
# Writing the store back

`nvram_commit` writes the header and all strings as one block, with a checksum over all but its
first nine bytes. `commit_reload`: whatever holds that block in front is flash from which
`nvram_init` makes a store with the same values. `inBounds_commit`: no access leaves it then.
-/

namespace BcmMruby.Nvram

open Core

/-! ### Stores without duplicates -/

/-- Every string is in the chain of its name, can be stored, and is the only one for its name. -/
structure Tidy (s : Store) : Prop where
  hash : ∀ i, ∀ b ∈ s.hashtab i, nvramHash b = i
  bound : ∀ i, ∀ b ∈ s.hashtab i, 0 ∉ b ∧ equalsSign ∈ b
  once : ∀ name, equalsSign ∉ name → (s.tuples name).length ≤ 1

/-- What a call leaves in the chains was there before, or is the string that it sets. -/
lemma mem_hashtab_step {s s' : State} {e : Call} (hs : step s e = some s') {i : Fin hashSize}
    {b : List Byte} (hb : b ∈ s'.store.hashtab i) :
    b ∈ s.store.hashtab i ∨
      i = nvramHash e.name.chars ∧
        ∃ value : CString, b = e.name.chars ++ equalsSign :: value.chars := by
  have hunbind : ∀ name : List Byte, b ∈ unbind s.store name i → b ∈ s.store.hashtab i := by
    intro name hmem
    by_cases hi : i = nvramHash name
    · rw [unbind, hi, Function.update_self] at hmem
      exact hi ▸ List.mem_of_mem_eraseP hmem
    · rwa [unbind, Function.update_of_ne hi] at hmem
  cases e with
  | set name value =>
    cases hs
    rw [hashtab_nvramSet] at hb
    by_cases hi : i = nvramHash name.chars
    · subst hi
      rw [Function.update_self] at hb
      rcases List.mem_cons.mp hb with rfl | hb
      · exact Or.inr ⟨rfl, value, rfl⟩
      · exact Or.inl (hunbind _ hb)
    · rw [Function.update_of_ne hi] at hb
      exact Or.inl (hunbind _ hb)
  | unset name =>
    cases hs
    rw [hashtab_nvramUnset] at hb
    exact Or.inl (hunbind _ hb)

lemma Tidy.step {s s' : State} {e : Call} (h : Tidy s.store) (he : equalsSign ∉ e.name.chars)
    (hs : step s e = some s') : Tidy s'.store := by
  refine ⟨?_, ?_, ?_⟩
  · intro i b hb
    rcases mem_hashtab_step hs hb with hb | ⟨rfl, value, rfl⟩
    · exact h.hash i b hb
    · exact nvramHash_of_binds (binds_iff.mpr ⟨value.chars, rfl⟩)
  · intro i b hb
    rcases mem_hashtab_step hs hb with hb | ⟨rfl, value, rfl⟩
    · exact h.bound i b hb
    · refine ⟨?_, by simp⟩
      intro hmem
      rcases List.mem_append.mp hmem with hmem | hmem
      · exact e.name.nul_notMem hmem
      · rcases List.mem_cons.mp hmem with hequals | hmem
        · exact absurd hequals (by decide)
        · exact value.nul_notMem hmem
  · intro name hname
    have honce := h.once name hname
    by_cases hne : e.name.chars = name
    · subst hne
      cases e with
      | set n value =>
        cases hs
        simp only [Call.name] at honce ⊢
        rw [tuples_nvramSet_self, List.length_cons, List.length_tail]
        omega
      | unset n =>
        cases hs
        simp only [Call.name] at honce ⊢
        rw [tuples_nvramUnset_self, List.length_tail]
        omega
    · rwa [tuples_step_of_ne he hname (fun h => hne h.symm) hs]

lemma nvHeader_step {s s' : State} {e : Call} (hs : step s e = some s') :
    s'.store.nvHeader = s.store.nvHeader := by
  cases e with
  | set name value =>
    cases hs
    simp only [nvramSet, if_true]
    split <;> rfl
  | unset name =>
    cases hs
    simp only [nvramUnset]
    split <;> rfl

/-- Flash without the magic number makes an empty store. -/
lemma tidy_nvramInit {window : ℕ → Byte} (h : loadWord window 0 ≠ nvramMagic)
    (behind : List Byte) : Tidy (nvramInit window behind) := by
  rw [nvramInit, nvramFind, if_neg h]
  refine ⟨?_, ?_, ?_⟩ <;> simp [Store.tuples]

/-! ### All strings of a store -/

lemma flatMap_eq_single {α β : Type*} {l : List α} {f : α → List β} {a : α} (hl : l.Nodup)
    (ha : a ∈ l) (hf : ∀ b ∈ l, b ≠ a → f b = []) : l.flatMap f = f a := by
  induction l with
  | nil => cases ha
  | cons x l ih =>
    obtain ⟨hx, hl⟩ := List.nodup_cons.mp hl
    obtain ⟨hhead, htail⟩ := List.forall_mem_cons.mp hf
    rw [List.flatMap_cons]
    rcases List.mem_cons.mp ha with rfl | ha
    · have hnil : l.flatMap f = [] := by
        rw [List.flatMap_eq_nil_iff]
        intro b hb
        exact htail b hb fun h => hx (h ▸ hb)
      rw [hnil, List.append_nil]
    · rw [hhead fun h => hx (h ▸ ha), List.nil_append, ih hl ha htail]

/-- Among all strings a name sees those of its chain. -/
lemma Tidy.filter_bindings {s : Store} (h : Tidy s) (name : List Byte) :
    s.bindings.filter (Binds name ·) = s.tuples name := by
  rw [Store.bindings, List.filter_flatMap, flatMap_eq_single (a := nvramHash name)]
  · rfl
  · exact List.nodup_finRange _
  · exact List.mem_finRange _
  · intro i _ hi
    rw [List.filter_eq_nil_iff]
    intro b hb hbinds
    simp only [decide_eq_true_eq] at hbinds
    exact hi ((h.hash i b hb).symm.trans (nvramHash_of_binds hbinds))

/-- No name has two tuples, not even one with a `=` in it. -/
lemma Tidy.length_tuples_le {s : Store} (h : Tidy s) (name : List Byte) :
    (s.tuples name).length ≤ 1 := by
  have hplain : equalsSign ∉ nameOf name := by
    intro hmem
    have := List.mem_takeWhile_imp hmem
    simp at this
  have hhash : nvramHash (nameOf name) = nvramHash name :=
    nvramHash_of_nameOf (nameOf_eq_self hplain)
  refine le_trans (List.Sublist.length_le ?_) (h.once (nameOf name) hplain)
  rw [Store.tuples, Store.tuples, hhash]
  apply List.monotone_filter_right
  intro b hbinds
  simp only [decide_eq_true_eq] at hbinds ⊢
  obtain ⟨value, rfl⟩ := binds_iff.mp hbinds
  have hmem : equalsSign ∈ name ++ equalsSign :: value := by simp
  rw [← nameOf_append value]
  exact binds_nameOf hmem

/-! ### The block -/

@[simp] lemma length_headerBytes (hdr : Header) : (headerBytes hdr).length = headerSize := rfl

/-- The strings of the block with the empty one that closes them. -/
lemma block_eq {s : Store} {hdr : Header}
    (h : headerSize + (terminated s.bindings).length < hdr.len.toNat) :
    ∃ k, block s hdr = headerBytes hdr ++ (terminated s.bindings ++ [0]) ++ List.replicate k 0 ∧
      hdr.len.toNat = headerSize + (terminated s.bindings).length + 1 + k := by
  refine ⟨hdr.len.toNat - (headerSize + (terminated s.bindings).length + 1), ?_, by omega⟩
  have hk : hdr.len.toNat - (headerBytes hdr ++ terminated s.bindings).length =
      (hdr.len.toNat - (headerSize + (terminated s.bindings).length + 1)) + 1 := by
    simp only [List.length_append, length_headerBytes]
    omega
  simp only [block, hk, List.replicate_succ, List.append_assoc, List.singleton_append]

lemma length_block {s : Store} {hdr : Header}
    (h : headerSize + (terminated s.bindings).length < hdr.len.toNat) :
    (block s hdr).length = hdr.len.toNat := by
  obtain ⟨k, hblock, hlen⟩ := block_eq h
  rw [hblock, hlen]
  simp only [List.length_append, length_headerBytes, List.length_replicate, List.length_singleton]
  omega

/-- Behind the checksum the block does not depend on it. -/
lemma drop_block (s : Store) (hdr : Header) (crc : Byte) :
    (block s { hdr with crcVerInit := hdr.crcVerInit ||| crc.setWidth 32 }).drop 9 =
      (block s hdr).drop 9 := by
  simp only [block, headerBytes, leBytes, List.length_cons, List.cons_append, List.nil_append,
    List.drop_succ_cons, List.drop_zero, byte_or_setWidth _ _ (by decide : 0 < 1),
    byte_or_setWidth _ _ (by decide : 0 < 2), byte_or_setWidth _ _ (by decide : 0 < 3)]

lemma loadHeader_eq {m : ℕ → Byte} {hdr : Header} (h : load m 0 headerSize = headerBytes hdr) :
    loadHeader m = hdr := by
  obtain ⟨h, hncdl⟩ := load_of_eq_append h
  obtain ⟨h, hrefresh⟩ := load_of_eq_append h
  obtain ⟨h, hcrc⟩ := load_of_eq_append h
  obtain ⟨hmagic, hlen⟩ := load_of_eq_append h
  have h₀ : loadWord m 0 = hdr.magic := loadWord_eq hmagic
  have h₄ : loadWord m 4 = hdr.len := loadWord_eq hlen
  have h₈ : loadWord m 8 = hdr.crcVerInit := loadWord_eq hcrc
  have h₁₂ : loadWord m 12 = hdr.configRefresh := loadWord_eq hrefresh
  have h₁₆ : loadWord m 16 = hdr.configNcdl := loadWord_eq hncdl
  rw [loadHeader, h₀, h₄, h₈, h₁₂, h₁₆]

/-! ### The checksum -/

lemma toNat_len_commitHeader {s : Store} (h : commitSize s ≤ nvramSpace) :
    (commitHeader s).len.toNat = commitSize s := by
  have hsize : nvramSpace < 2 ^ 32 := by decide
  have hmod : commitSize s % 2 ^ 32 = commitSize s := Nat.mod_eq_of_lt (by omega)
  simpa [commitHeader] using hmod

lemma lt_commitSize (s : Store) :
    headerSize + (terminated s.bindings).length + 2 ≤ commitSize s := le_wordAlign _

/-- The checksum of the block that is written is the one stored in it. -/
lemma nvramCrc_block {s : Store} (h : commitSize s ≤ nvramSpace) {m : ℕ → Byte}
    (hm : load m 0 (commitSize s) = block s (commitHeader s)) :
    nvramCrc m (commitSize s) = (commitHeader s).crc := by
  have hlen := toNat_len_commitHeader h
  have hsize := lt_commitSize s
  let hdr : Header := { s.nvHeader with
    len := BitVec.ofNat 32 (commitSize s)
    crcVerInit := s.nvHeader.crcVerInit &&& ~~~(0xff : BitVec 32) }
  let crc := nvramCrc (fun i => (block s hdr).getD i 0) hdr.len.toNat
  have hheader : commitHeader s = { hdr with crcVerInit := hdr.crcVerInit ||| crc.setWidth 32 } :=
    rfl
  have hlen' : hdr.len.toNat = commitSize s := hlen
  have hblock : (block s hdr).length = commitSize s := by
    rw [length_block (by omega), hlen']
  have hsplit : commitSize s = 9 + (commitSize s - 9) := by
    have : headerSize = 20 := rfl
    omega
  have htail : load m 9 (commitSize s - 9) = (block s hdr).drop 9 := by
    rw [hsplit, load_add, hheader] at hm
    rw [← drop_block s hdr crc, ← hm, List.drop_left' (length_load _ _ _), Nat.zero_add]
  have hstored : (commitHeader s).crc = crc := by
    rw [hheader]
    exact setWidth_or_setWidth _ _
  rw [hstored]
  show nvramCrc m (commitSize s) = nvramCrc (fun i => (block s hdr).getD i 0) hdr.len.toNat
  rw [nvramCrc, nvramCrc, hlen', htail, load_getD (by omega), List.take_of_length_le]
  simp only [List.length_drop]
  omega

/-! ### Main result -/

/-- A block that was written is well-formed flash with the strings of the store. -/
lemma wellFormed_block {s : Store} (h : Tidy s) (hmagic : s.nvHeader.magic = nvramMagic)
    (hsize : commitSize s ≤ nvramSpace) {m : ℕ → Byte}
    (hm : load m 0 (commitSize s) = block s (commitHeader s)) :
    loadHeader m = commitHeader s ∧ WellFormed m s.bindings := by
  have hlen := toNat_len_commitHeader hsize
  have hlt := lt_commitSize s
  have hfits : headerSize + (terminated s.bindings).length < (commitHeader s).len.toNat := by
    omega
  obtain ⟨k, hblock, -⟩ := block_eq hfits
  rw [hblock] at hm
  obtain ⟨hm, -⟩ := load_of_eq_append hm
  obtain ⟨hheader, hstrings⟩ := load_of_eq_append hm
  have hload := loadHeader_eq hheader
  have hlenWord : loadWord m 4 = (commitHeader s).len := congrArg Header.len hload
  refine ⟨hload, ?_, ?_, ?_, ?_, ?_⟩
  · rw [← hmagic]
    exact congrArg Header.magic hload
  · rw [hlenWord, hlen]
    exact hsize
  · rw [hlenWord, hlen]
    omega
  · simpa using hstrings
  · intro b hb
    obtain ⟨i, -, hi⟩ := List.mem_flatMap.mp hb
    exact h.bound i b hi

/-- A store that was reached from flash without the magic number. -/
lemma tidy_run {window : ℕ → Byte} (hmagic : loadWord window 0 ≠ nvramMagic)
    {behind : List Byte} {es : List Call} (hes : ∀ e ∈ es, equalsSign ∉ e.name.chars) {t : State}
    (hrun : run step (start window behind []) es = some t) :
    Tidy t.store ∧ t.store.nvHeader.magic = nvramMagic := by
  have hstart : Tidy (start window behind []).store ∧
      (start window behind []).store.nvHeader.magic = nvramMagic := by
    refine ⟨tidy_nvramInit hmagic behind, ?_⟩
    rw [start, nvramInit, nvramFind, if_neg hmagic]
  refine run_invariant (P := fun s => Tidy s.store ∧ s.store.nvHeader.magic = nvramMagic) ?_
    hstart ((throughout_iff_forall_mem hrun).mpr hes) hrun
  rintro s e s' ⟨htidy, hheader⟩ he hs
  exact ⟨htidy.step he hs, by rw [nvHeader_step hs, hheader]⟩

/-- From flash without the magic number on, whatever is set and unset: `nvram_commit` fails and
writes nothing if and only if the block would be longer than the window; and any flash that starts
with the block it writes has a good checksum and makes a store with the same values. -/
theorem commit_reload {window : ℕ → Byte} (hmagic : loadWord window 0 ≠ nvramMagic)
    {behind : List Byte} {es : List Call} (hes : ∀ e ∈ es, equalsSign ∉ e.name.chars) {t : State}
    (hrun : run step (start window behind []) es = some t) :
    ((nvramCommit t.store true).1 = -1 ∧ (nvramCommit t.store true).2.1 = none ↔
      nvramSpace < commitSize t.store) ∧
    ((nvramCommit t.store true).1 = 0 → ∃ written,
      (nvramCommit t.store true).2.1 = some written ∧ written.length = commitSize t.store ∧
      ∀ (flash : ℕ → Byte) (behind' : List Byte), load flash 0 written.length = written →
        (∃ hdr, nvramFind flash = some hdr ∧ nvramCrc flash hdr.len.toNat = hdr.crc) ∧
        ∀ name, nvramGet (nvramInit flash behind') name = nvramGet t.store name) := by
  obtain ⟨htidy, hheader⟩ := tidy_run hmagic hes hrun
  by_cases hsize : nvramSpace < commitSize t.store
  · simp [nvramCommit, hsize]
  · have hle := not_lt.mp hsize
    have hlen := toNat_len_commitHeader hle
    have hlt := lt_commitSize t.store
    have hlength : (block t.store (commitHeader t.store)).length = commitSize t.store := by
      rw [length_block (by omega), hlen]
    refine ⟨by simp [nvramCommit, hsize], fun _ => ⟨block t.store (commitHeader t.store), ?_⟩⟩
    refine ⟨by simp [nvramCommit, hsize], hlength, ?_⟩
    intro flash behind' hload
    rw [hlength] at hload
    obtain ⟨hhdr, hwell⟩ := wellFormed_block htidy hheader hle hload
    refine ⟨⟨commitHeader t.store, ?_, ?_⟩, ?_⟩
    · rw [nvramFind, if_pos hwell.magic, hhdr]
    · rw [hlen]
      exact nvramCrc_block hle hload
    · intro name
      have hone := htidy.length_tuples_le name.chars
      rw [nvramGet_eq, nvramGet_eq, tuples_nvramInit (Or.inl hwell), htidy.filter_bindings]
      cases htuples : t.store.tuples name.chars with
      | nil => rfl
      | cons b bs =>
        rw [htuples] at hone
        have hnil : bs = [] := by simpa using hone
        rw [hnil]
        rfl

/-- What `nvram_commit` writes is loaded without an access outside. -/
theorem inBounds_commit {window : ℕ → Byte} (hmagic : loadWord window 0 ≠ nvramMagic)
    {behind : List Byte} {es : List Call} (hes : ∀ e ∈ es, equalsSign ∉ e.name.chars) {t : State}
    (hrun : run step (start window behind []) es = some t) {written : List Byte}
    (hcommit : (nvramCommit t.store true).2.1 = some written) {flash : ℕ → Byte}
    (hflash : load flash 0 written.length = written) (buffer : ℕ → Byte) {kmalloc : Kmalloc}
    (hbuffer : kmalloc.buffer = true) : InBounds flash buffer kmalloc := by
  obtain ⟨htidy, hheader⟩ := tidy_run hmagic hes hrun
  rw [nvramCommit] at hcommit
  split_ifs at hcommit with hsize
  obtain rfl := Option.some.inj hcommit
  have hle := not_lt.mp hsize
  have hlen := toNat_len_commitHeader hle
  have hlt := lt_commitSize t.store
  rw [length_block (by omega), hlen] at hflash
  obtain ⟨hhdr, hwell⟩ := wellFormed_block htidy hheader hle hflash
  have hword : loadWord flash 4 = (commitHeader t.store).len := congrArg Header.len hhdr
  have hwords : 4 ∣ (loadWord flash 4).toNat := by
    rw [hword, hlen]
    exact Nat.dvd_mul_left 4 _
  exact hwell.inBounds hwords buffer hbuffer

/-- One string, committed and loaded again. -/
theorem reload_nameA :
    ∃ written : List Byte, ∀ behind,
      nvramGet (nvramInit (fun i => written.getD i 0) behind) nameA = some [0x61] := by
  have hplain : ∀ e ∈ [Call.set nameA nameA], equalsSign ∉ e.name.chars := by
    simp [Call.name, nameA, equalsSign]
  have hmagic : loadWord (fun _ => 0) 0 ≠ nvramMagic := by decide
  have hrun : run step (start (fun _ => 0) [] []) [.set nameA nameA] = some _ := rfl
  obtain ⟨-, hreload⟩ := commit_reload hmagic hplain hrun
  obtain ⟨written, -, -, hget⟩ := hreload (by decide +kernel)
  refine ⟨written, fun behind => ?_⟩
  have hload : load (fun i => written.getD i 0) 0 written.length = written := by
    rw [load_getD (by simp), List.drop_zero, List.take_length]
  rw [(hget _ behind hload).2 nameA]
  decide

end BcmMruby.Nvram
