import BcmMruby.Core.Run
import BcmMruby.Nvram.Chain

/-!
# The store as a finite map

`nvram_internalize` inserts every string of the flash, so that a name which the flash binds more
than once has more than one tuple; `nvram_unset` removes one and reports success. `State.value` is
what the calls made so far say about a name. `faithful_iff` compares it with `nvram_get`.
-/

namespace BcmMruby.Nvram

open Core

/-! ### Loading well-formed flash -/

/-- Strings that can be stored: not empty, and without the terminating 0. -/
def Storable (binding : List Byte) : Prop := binding ≠ [] ∧ 0 ∉ binding

lemma terminated_cons (binding : List Byte) (bindings : List (List Byte)) :
    terminated (binding :: bindings) = binding ++ 0 :: terminated bindings := by
  simp [terminated]

lemma length_le_terminated (bindings : List (List Byte)) :
    bindings.length ≤ (terminated bindings).length := by
  induction bindings with
  | nil => simp
  | cons binding bindings ih =>
    rw [terminated_cons]
    simp only [List.length_cons, List.length_append]
    omega

lemma takeWhile_append_nul {binding : List Byte} (h : 0 ∉ binding) (rest : List Byte) :
    (binding ++ 0 :: rest).takeWhile (· ≠ 0) = binding := by
  rw [List.takeWhile_append_of_pos]
  · simp
  · intro c hc
    simp only [ne_eq, decide_eq_true_eq]
    rintro rfl
    exact h hc

/-- The loop of `nvram_internalize` finds the strings that are there, up to an empty one or up to
the end. -/
lemma strings_eq {len fuel offset : ℕ} {bindings : List (List Byte)} {rest : List Byte}
    (hstorable : ∀ b ∈ bindings, Storable b) (hfuel : bindings.length ≤ fuel)
    (hlen : offset + (terminated bindings).length ≤ len)
    (hend : offset + (terminated bindings).length < len → rest.headD 0 = 0) :
    strings len fuel offset (terminated bindings ++ rest) = bindings := by
  induction bindings generalizing fuel offset with
  | nil =>
    cases fuel with
    | zero => rfl
    | succ fuel =>
      rw [strings, if_neg]
      rintro ⟨hlt, hne⟩
      exact hne (hend (by simpa [terminated] using hlt))
  | cons binding bindings ih =>
    obtain ⟨⟨hne, hnul⟩, htail⟩ := List.forall_mem_cons.mp hstorable
    cases fuel with
    | zero => simp at hfuel
    | succ fuel =>
      rw [terminated_cons] at hlen hend ⊢
      simp only [List.length_append, List.length_cons] at hlen hend hfuel
      have hmem : binding ++ 0 :: terminated bindings ++ rest =
          binding ++ 0 :: (terminated bindings ++ rest) := by simp
      have hhead : (binding ++ 0 :: (terminated bindings ++ rest)).headD 0 ≠ 0 := by
        obtain ⟨c, binding, rfl⟩ := List.exists_cons_of_ne_nil hne
        rintro rfl
        exact hnul (.head _)
      have hdrop : (binding ++ 0 :: (terminated bindings ++ rest)).drop (binding.length + 1) =
          terminated bindings ++ rest := by simp
      rw [hmem, strings, if_pos ⟨by omega, hhead⟩, takeWhile_append_nul hnul]
      simp only [hdrop]
      congr 1
      apply ih htail
      · omega
      · omega
      · intro hlt
        exact hend (by omega)

/-- The flash from the start of the window on has the magic number, a length within the window,
and these strings, closed by an empty one. -/
structure WellFormed (window : ℕ → Byte) (bindings : List (List Byte)) : Prop where
  magic : loadWord window 0 = nvramMagic
  len_le : (loadWord window 4).toNat ≤ nvramSpace
  fits : headerSize + (terminated bindings).length ≤ (loadWord window 4).toNat
  strings : load window headerSize ((terminated bindings).length + 1) = terminated bindings ++ [0]
  bound : ∀ b ∈ bindings, 0 ∉ b ∧ equalsSign ∈ b

/-- Well-formed flash, or flash without the magic number. -/
def Region (window : ℕ → Byte) (bindings : List (List Byte)) : Prop :=
  WellFormed window bindings ∨ loadWord window 0 ≠ nvramMagic ∧ bindings = []

lemma le_wordAlign (n : ℕ) : n ≤ wordAlign n := by
  rw [wordAlign]
  omega

/-- `nvram_internalize` finds the strings of well-formed flash. -/
lemma WellFormed.strings_eq {window : ℕ → Byte} {bindings : List (List Byte)}
    (h : WellFormed window bindings) (behind : List Byte) :
    Nvram.strings (loadWord window 4).toNat (loadWord window 4).toNat headerSize
      ((load window 0 (max headerSize (wordAlign (loadWord window 4).toNat)) ++ behind).drop
        headerSize) = bindings := by
  have hfits := h.fits
  generalize (loadWord window 4).toNat = len at hfits ⊢
  have halign := le_wordAlign len
  obtain ⟨k, hk⟩ : ∃ k, max headerSize (wordAlign len) =
      headerSize + ((terminated bindings).length + k) :=
    ⟨max headerSize (wordAlign len) - headerSize - (terminated bindings).length, by omega⟩
  have hstrings := h.strings
  rw [load_add] at hstrings
  obtain ⟨hload, hnul⟩ := List.append_inj' hstrings rfl
  have hbuffer : (load window 0 (max headerSize (wordAlign len)) ++ behind).drop headerSize =
      terminated bindings ++
        (load window (headerSize + (terminated bindings).length) k ++ behind) := by
    rw [hk, load_add, List.append_assoc, List.drop_left' (by simp), Nat.zero_add, load_add, hload,
      List.append_assoc]
  rw [hbuffer]
  apply Nvram.strings_eq
  · intro b hb
    obtain ⟨hb₀, hb⟩ := h.bound b hb
    exact ⟨List.ne_nil_of_mem hb, hb₀⟩
  · have := length_le_terminated bindings
    omega
  · exact hfits
  · intro hlt
    obtain ⟨k, rfl⟩ : ∃ k', k = k' + 1 := ⟨k - 1, by omega⟩
    simpa [load_succ] using hnul

lemma tuples_nvramInsert (s : Store) (name binding : List Byte) :
    (nvramInsert s (nvramHash binding) binding).tuples name =
      [binding].filter (Binds name ·) ++ s.tuples name := by
  by_cases hbinds : Binds name binding
  · have hhash := nvramHash_of_binds hbinds
    simp [Store.tuples, nvramInsert, hhash, hbinds]
  · by_cases hhash : nvramHash name = nvramHash binding
    · simp [Store.tuples, nvramInsert, hhash, hbinds]
    · simp [Store.tuples, nvramInsert, Function.update_of_ne hhash, hbinds]

lemma tuples_foldl_nvramInsert (s : Store) (name : List Byte) (bindings : List (List Byte)) :
    (bindings.foldl (fun s binding => nvramInsert s (nvramHash binding) binding) s).tuples name =
      (bindings.filter (Binds name ·)).reverse ++ s.tuples name := by
  induction bindings generalizing s with
  | nil => rfl
  | cons binding bindings ih =>
    rw [List.foldl_cons, ih, tuples_nvramInsert]
    by_cases hbinds : Binds name binding <;> simp [hbinds]

/-- After `nvram_init` a name has the tuples the flash has for it, the last one first. -/
lemma tuples_nvramInit {window : ℕ → Byte} {bindings : List (List Byte)}
    (h : Region window bindings) (behind : List Byte) (name : List Byte) :
    (nvramInit window behind).tuples name = (bindings.filter (Binds name ·)).reverse := by
  rcases h with h | ⟨hmagic, rfl⟩
  · rw [nvramInit, nvramFind, if_pos h.magic]
    simp only [nvramInternalize, h.strings_eq, tuples_foldl_nvramInsert]
    simp [Store.tuples]
  · rw [nvramInit, nvramFind, if_neg hmagic]
    simp [Store.tuples]

/-! ### What the calls say -/

inductive Call where
  | set (name value : CString)
  | unset (name : CString)
  deriving DecidableEq

def Call.name : Call → CString
  | .set name _ => name
  | .unset name => name

/-- A name that a caller may use. -/
def Call.Plain (e : Call) : Prop := e.name.chars ≠ [] ∧ equalsSign ∉ e.name.chars

structure State where
  store : Store
  /-- The last value set, `none` after an unset that has returned 0, at first that of the flash. -/
  value : CString → Option (List Byte)

/-- Every allocation succeeds. -/
def step (s : State) : Call → Option State
  | .set name value =>
    some ⟨(nvramSet s.store name value true).2, Function.update s.value name (some value.chars)⟩
  | .unset name =>
    some
      ⟨(nvramUnset s.store name).2,
        if (nvramUnset s.store name).1 = 0 then Function.update s.value name none else s.value⟩

/-- The flash binds a name to the value of the last string for it. -/
def regionValue (bindings : List (List Byte)) (name : CString) : Option (List Byte) :=
  ((bindings.filter (Binds name.chars ·)).getLast?).map (·.drop (name.chars.length + 1))

def start (window : ℕ → Byte) (behind : List Byte) (bindings : List (List Byte)) : State :=
  ⟨nvramInit window behind, regionValue bindings⟩

/-- Names are bound as the calls say, and a call for another name would not change that. -/
def Faithful (s : State) : Prop :=
  ∀ name : CString, name.chars ≠ [] → equalsSign ∉ name.chars →
    nvramGet s.store name = s.value name ∧
    ∀ e s', e.Plain → e.name ≠ name → step s e = some s' →
      nvramGet s'.store name = nvramGet s.store name

/-! ### The invariant -/

lemma CString.ext_chars {a b : CString} (h : a.chars = b.chars) : a = b := by
  cases a
  cases b
  simp only at h
  subst h
  rfl

/-- How often the flash binds a name. -/
def occurrences (bindings : List (List Byte)) (name : CString) : ℕ :=
  (bindings.filter (Binds name.chars ·)).length

/-- A name bound once at most has at most one tuple; the others keep theirs. -/
structure Inv (bindings : List (List Byte)) (s : State) : Prop where
  value : ∀ name : CString, equalsSign ∉ name.chars → nvramGet s.store name = s.value name
  once : ∀ name : CString, equalsSign ∉ name.chars → occurrences bindings name ≤ 1 →
    (s.store.tuples name.chars).length ≤ 1
  more : ∀ name : CString, equalsSign ∉ name.chars → 1 < occurrences bindings name →
    1 < (s.store.tuples name.chars).length

lemma inv_start {window : ℕ → Byte} {bindings : List (List Byte)} (h : Region window bindings)
    (behind : List Byte) : Inv bindings (start window behind bindings) := by
  refine ⟨?_, ?_, ?_⟩
  · intro name _
    rw [nvramGet_eq, start, tuples_nvramInit h, List.head?_reverse]
    rfl
  · intro name _ hone
    rw [start, tuples_nvramInit h, List.length_reverse]
    exact hone
  · intro name _ hmore
    rw [start, tuples_nvramInit h, List.length_reverse]
    exact hmore

/-- A call changes the tuples of its own name only. -/
lemma tuples_step_of_ne {s s' : State} {e : Call} {name : List Byte}
    (he : equalsSign ∉ e.name.chars) (hname : equalsSign ∉ name) (hne : name ≠ e.name.chars)
    (hs : step s e = some s') : s'.store.tuples name = s.store.tuples name := by
  cases e with
  | set n value =>
    cases hs
    exact tuples_nvramSet_of_ne he hname hne
  | unset n =>
    cases hs
    exact tuples_nvramUnset_of_ne he hname hne

lemma chars_ne {a b : CString} (h : a ≠ b) : b.chars ≠ a.chars :=
  fun hchars => h (CString.ext_chars hchars.symm)

lemma nvramGet_step_of_ne {s s' : State} {e : Call} {name : CString}
    (he : equalsSign ∉ e.name.chars) (hname : equalsSign ∉ name.chars) (hne : e.name ≠ name)
    (hs : step s e = some s') : nvramGet s'.store name = nvramGet s.store name := by
  rw [nvramGet_eq, nvramGet_eq, tuples_step_of_ne he hname (chars_ne hne) hs]

lemma value_step_of_ne {s s' : State} {e : Call} {name : CString} (hne : e.name ≠ name)
    (hs : step s e = some s') : s'.value name = s.value name := by
  have hne' : name ≠ e.name := fun h => hne h.symm
  cases e with
  | set n value =>
    cases hs
    exact Function.update_of_ne hne' _ _
  | unset n =>
    cases hs
    simp only
    split_ifs
    · exact Function.update_of_ne hne' _ _
    · rfl

lemma Inv.faithful {bindings : List (List Byte)} (s : State) (h : Inv bindings s) :
    Faithful s := by
  intro name _ hname
  refine ⟨h.value name hname, ?_⟩
  intro e s' he hne hs
  exact nvramGet_step_of_ne he.2 hname hne hs

/-- A name that the flash binds more than once is not unset. -/
def Safe (bindings : List (List Byte)) : Call → Prop
  | .set _ _ => True
  | .unset name => occurrences bindings name ≤ 1

/-- The invariant for the other names. -/
lemma Inv.of_self {bindings : List (List Byte)} {s s' : State} {e : Call} (h : Inv bindings s)
    (he : equalsSign ∉ e.name.chars) (hs : step s e = some s')
    (hvalue : nvramGet s'.store e.name = s'.value e.name)
    (honce : occurrences bindings e.name ≤ 1 → (s'.store.tuples e.name.chars).length ≤ 1)
    (hmore : 1 < occurrences bindings e.name → 1 < (s'.store.tuples e.name.chars).length) :
    Inv bindings s' := by
  refine ⟨?_, ?_, ?_⟩
  · intro name hname
    by_cases hne : e.name = name
    · exact hne ▸ hvalue
    · rw [nvramGet_step_of_ne he hname hne hs, value_step_of_ne hne hs]
      exact h.value name hname
  · intro name hname hone
    by_cases hne : e.name = name
    · subst hne
      exact honce hone
    · rw [tuples_step_of_ne he hname (chars_ne hne) hs]
      exact h.once name hname hone
  · intro name hname hmany
    by_cases hne : e.name = name
    · subst hne
      exact hmore hmany
    · rw [tuples_step_of_ne he hname (chars_ne hne) hs]
      exact h.more name hname hmany

lemma Inv.step {bindings : List (List Byte)} (s : State) (e : Call) (s' : State)
    (h : Inv bindings s) (he : equalsSign ∉ e.name.chars) (hsafe : Safe bindings e)
    (hs : step s e = some s') : Inv bindings s' := by
  cases e with
  | set name value =>
    have htuples := tuples_nvramSet_self s.store name value
    have honce := h.once name he
    have hmore := h.more name he
    refine h.of_self he hs ?_ ?_ ?_
    · cases hs
      simp [Call.name, nvramGet_eq, htuples]
    · intro hone
      cases hs
      simp only [Call.name, htuples, List.length_cons, List.length_tail]
      have := honce hone
      omega
    · intro hmany
      cases hs
      simp only [Call.name, htuples, List.length_cons, List.length_tail]
      have := hmore hmany
      omega
  | unset name =>
    have htuples := tuples_nvramUnset_self s.store name
    have honce := h.once name he hsafe
    have hnil : (s.store.tuples name.chars).tail = [] := by
      rw [← List.length_eq_zero_iff, List.length_tail]
      omega
    refine h.of_self he hs ?_ ?_ ?_
    · cases hs
      simp only [Call.name, nvramGet_eq, htuples, hnil]
      split_ifs with hzero
      · simp
      · rw [nvramUnset_eq_zero_iff, not_not] at hzero
        rw [← h.value name he, nvramGet_eq, hzero]
    · intro _
      cases hs
      simp [Call.name, htuples, hnil]
    · intro hmany
      exact absurd hmany (not_lt.mpr hsafe)

/-- Another tuple of the name remains after an unset that reports success. -/
lemma Inv.safe {bindings : List (List Byte)} (s : State) (e : Call) (s' : State)
    (h : Inv bindings s) (he : e.Plain) (hs : Nvram.step s e = some s') (hfaithful : Faithful s') :
    Safe bindings e := by
  cases e with
  | set name value => trivial
  | unset name =>
    by_contra hmany
    have hlen := h.more name he.2 (not_le.mp hmany)
    have hzero : (nvramUnset s.store name).1 = 0 := by
      rw [nvramUnset_eq_zero_iff]
      rintro hnil
      simp [hnil] at hlen
    have hget := (hfaithful name he.1 he.2).1
    cases hs
    simp only [nvramGet_eq, tuples_nvramUnset_self, hzero, if_true, Function.update_self,
      Option.map_eq_none_iff, List.head?_eq_none_iff] at hget
    have htail := congrArg List.length hget
    simp only [List.length_tail, List.length_nil] at htail
    omega

/-! ### Main result -/

/-- From `nvram_init` on well-formed flash on, whatever is set and unset, every name is bound as
the calls say if and only if no name is unset that the flash binds more than once. -/
theorem faithful_iff {window : ℕ → Byte} {behind : List Byte} {bindings : List (List Byte)}
    (hregion : Region window bindings) {es : List Call} (hes : ∀ e ∈ es, e.Plain) {t : State}
    (hrun : run step (start window behind bindings) es = some t) :
    Always step Faithful (start window behind bindings) es ↔
      ∀ name, .unset name ∈ es → occurrences bindings name ≤ 1 := by
  have hthrough := always_iff_throughout (G := fun _ e => Safe bindings e) Inv.faithful
    (fun s e s' h he hsafe => Inv.step s e s' h he.2 hsafe) Inv.safe (inv_start hregion behind) hes
    hrun
  rw [hthrough, throughout_iff_forall_mem hrun]
  constructor
  · intro hsafe name hmem
    exact hsafe _ hmem
  · intro hone e he
    cases e with
    | set name value => trivial
    | unset name => exact hone name he

/-- The string `a`. -/
def nameA : CString := ⟨[0x61], by decide⟩

/-- The string `b`. -/
def nameB : CString := ⟨[0x62], by decide⟩

/-- Flash with the strings `a=1`, `a=2` and `b=3`. -/
def twiceBound : List (List Byte) :=
  [[0x61, 0x3d, 0x31], [0x61, 0x3d, 0x32], [0x62, 0x3d, 0x33]]

def twiceBoundFlash : ℕ → Byte := fun i =>
  (leBytes nvramMagic ++ leBytes 33 ++ List.replicate 12 0 ++ terminated twiceBound).getD i 0

lemma wellFormed_twiceBoundFlash : WellFormed twiceBoundFlash twiceBound where
  magic := by decide
  len_le := by decide
  fits := by decide
  strings := by decide
  bound := by decide

/-- A name that the flash binds twice may be set, and one that it binds once may be unset. -/
theorem faithful_set_twiceBound :
    ∃ t, run step (start twiceBoundFlash [] twiceBound) [.set nameA nameA, .unset nameB] = some t ∧
      Always step Faithful (start twiceBoundFlash [] twiceBound)
        [.set nameA nameA, .unset nameB] := by
  refine ⟨_, rfl, (faithful_iff (Or.inl wellFormed_twiceBoundFlash) ?_ rfl).mpr ?_⟩
  · simp [Call.Plain, Call.name, nameA, nameB, equalsSign]
  · intro name hmem
    have hname : name = nameB := by simpa using hmem
    subst hname
    decide

/-- Once it has been unset with success it is still bound. -/
theorem unset_twiceBound :
    Region twiceBoundFlash twiceBound ∧
      ∃ t, run step (start twiceBoundFlash [] twiceBound) [.unset nameA] = some t ∧
        (nvramUnset (start twiceBoundFlash [] twiceBound).store nameA).1 = 0 ∧
        nvramGet t.store nameA = some [0x31] ∧ t.value nameA = none :=
  ⟨Or.inl wellFormed_twiceBoundFlash, _, rfl, by decide, by decide, by decide⟩

end BcmMruby.Nvram
