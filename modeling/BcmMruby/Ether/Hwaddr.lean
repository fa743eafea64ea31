import BcmMruby.Core.Bytes

/-!
# Reading a hardware address

`enet_parse_hwaddr` reads groups of hexadecimal digits from a string and writes a byte for each.
The driver and `ethernetif_init` pass it what `nvram` has, and do not look at its result.
-/

namespace BcmMruby.Ether.Hwaddr

open Core

def enetAddrLen : ℕ := 6

/-- `none` is -1. -/
def enetParseXdigit (c : Byte) : Option ℕ :=
  if chr '0' ≤ c ∧ c ≤ chr '9' then some (c - chr '0').toNat
  else if chr 'a' ≤ c ∧ c ≤ chr 'f' then some ((c - chr 'a').toNat + 10)
  else if chr 'A' ≤ c ∧ c ≤ chr 'F' then some ((c - chr 'A').toNat + 10)
  else none

abbrev Separator (c : Byte) : Prop := c = chr ':' ∨ c = chr '-'

/-- `if ((*str == ':') || (*str == '-')) str++`. -/
def skip : List Byte → List Byte
  | [] => []
  | c :: str => if Separator c then str else c :: str

/-- The digits of one turn and what is behind them; `none` where the function returns -1. -/
def digits (c : Byte) (str : List Byte) : Option (ℕ × ℕ × List Byte) :=
  (enetParseXdigit c).bind fun digit1 =>
    match str with
    | [] => none
    | d :: str' =>
      if Separator d then some (0, digit1, str)
      else (enetParseXdigit d).map fun digit2 => (digit1, digit2, str')

/-- The loop, with so many bytes to go. -/
def parseLoop (m : ℕ → Byte) (hwaddr : ℕ) : ℕ → List Byte → ℤ × (ℕ → Byte)
  | 0, _ | _, [] => (0, m)
  | idx + 1, c :: str =>
    match digits c str with
    | none => (-1, m)
    | some (digit1, digit2, str) =>
      parseLoop (Function.update m hwaddr (BitVec.ofNat 8 (digit1 <<< 4 ||| digit2))) (hwaddr + 1)
        idx (skip str)

def enetParseHwaddr (str : CString) (m : ℕ → Byte) (hwaddr : ℕ) : ℤ × (ℕ → Byte) :=
  parseLoop m hwaddr enetAddrLen str.chars

/-! ### Hexadecimal digits -/

/-- The digit of a value below 16. -/
def xdigit (upper : Bool) (v : ℕ) : Byte :=
  if v < 10 then chr '0' + BitVec.ofNat 8 v
  else chr (if upper then 'A' else 'a') + BitVec.ofNat 8 (v - 10)

/-- `c` is a hexadecimal digit, in either letter case. -/
def Xdigit (c : Byte) (v : ℕ) : Prop := v < 16 ∧ ∃ upper, c = xdigit upper v

lemma xdigit_of_le_nine {c : Byte} (hlo : chr '0' ≤ c) (hhi : c ≤ chr '9') :
    Xdigit c (c - chr '0').toNat := by
  have hnine : c.toNat ≤ 57 := hhi
  have hzero : (chr '0').toNat = 48 := rfl
  have hval := BitVec.toNat_sub_of_le hlo
  refine ⟨by omega, false, ?_⟩
  rw [xdigit, if_pos (by omega), BitVec.ofNat_toNat, BitVec.setWidth_eq, BitVec.add_comm,
    BitVec.sub_add_cancel]

lemma xdigit_of_letter (upper : Bool) {c : Byte}
    (h : (c - chr (if upper then 'A' else 'a')).toNat < 6) :
    Xdigit c ((c - chr (if upper then 'A' else 'a')).toNat + 10) := by
  refine ⟨by omega, upper, ?_⟩
  rw [xdigit, if_neg (by omega), Nat.add_sub_cancel, BitVec.ofNat_toNat, BitVec.setWidth_eq,
    BitVec.add_comm, BitVec.sub_add_cancel]

lemma enetParseXdigit_eq_some_iff {c : Byte} {v : ℕ} :
    enetParseXdigit c = some v ↔ Xdigit c v := by
  constructor
  · intro h
    rw [enetParseXdigit] at h
    split_ifs at h with hdigit hlower hupper <;> cases h
    · exact xdigit_of_le_nine hdigit.1 hdigit.2
    · have hf : c.toNat ≤ 102 := hlower.2
      have ha : (chr 'a').toNat = 97 := rfl
      have hval := BitVec.toNat_sub_of_le hlower.1
      exact xdigit_of_letter false (by simp only [Bool.false_eq_true, if_false]; omega)
    · have hf : c.toNat ≤ 70 := hupper.2
      have ha : (chr 'A').toNat = 65 := rfl
      have hval := BitVec.toNat_sub_of_le hupper.1
      exact xdigit_of_letter true (by simp only [if_true]; omega)
  · rintro ⟨hv, upper, rfl⟩
    revert upper v
    decide

/-- A separator is no digit. -/
lemma enetParseXdigit_separator {c : Byte} (h : Separator c) : enetParseXdigit c = none := by
  obtain rfl | rfl := h <;> rfl

lemma Xdigit.not_separator {c : Byte} {v : ℕ} (h : Xdigit c v) : ¬ Separator c := by
  intro hc
  rw [← enetParseXdigit_eq_some_iff, enetParseXdigit_separator hc] at h
  cases h

/-- The byte of two digits. -/
lemma shiftLeft_or {v w : ℕ} (hw : w < 16) : v <<< 4 ||| w = 16 * v + w := by
  have h := Nat.shiftLeft_add_eq_or_of_lt (i := 4) hw v
  rw [← h, Nat.shiftLeft_eq]
  omega

/-! ### Groups of digits -/

/-- The text begins with a group of one digit or two: the value of the group, and what is behind
it. A single digit is a group if no other digit is behind it. -/
inductive Group : List Byte → ℕ → List Byte → Prop
  | one {c : Byte} {v : ℕ} {rest : List Byte} (hc : Xdigit c v)
      (hrest : ∀ d ∈ rest.head?, ∀ w, ¬ Xdigit d w) : Group (c :: rest) v rest
  | two {c d : Byte} {v w : ℕ} {rest : List Byte} (hc : Xdigit c v) (hd : Xdigit d w) :
      Group (c :: d :: rest) (16 * v + w) rest

/-- The text begins with so many groups, each but the last with a separator behind it or right
behind it a group of two digits. -/
inductive Groups : ℕ → List Byte → List ℕ → Prop
  | last {text rest : List Byte} {v : ℕ} (h : Group text v rest) : Groups 1 text [v]
  | sep {n v : ℕ} {text rest : List Byte} {c : Byte} {vs : List ℕ} (h : Group text v (c :: rest))
      (hc : Separator c) (hrest : Groups n rest vs) : Groups (n + 1) text (v :: vs)
  | join {n v v₁ v₂ : ℕ} {text rest : List Byte} {c d : Byte} {vs : List ℕ}
      (h : Group text v (c :: d :: rest)) (hc : Xdigit c v₁) (hd : Xdigit d v₂)
      (hrest : Groups n (c :: d :: rest) vs) : Groups (n + 1) text (v :: vs)

/-- 0 is returned only for six groups, and then their values are in memory. -/
def Correct (str : CString) (m : ℕ → Byte) (hwaddr : ℕ) : Prop :=
  (enetParseHwaddr str m hwaddr).1 = 0 → ∃ vs, Groups enetAddrLen str.chars vs ∧
    load (enetParseHwaddr str m hwaddr).2 hwaddr enetAddrLen = vs.map (BitVec.ofNat 8)

/-! ### What the loop accepts -/

/-- A group as the loop takes it, with the separator behind it. -/
inductive Field where
  | one (c : Byte) (v : ℕ) (sep : Byte) (hc : Xdigit c v) (hsep : Separator sep)
  | two (c d : Byte) (v w : ℕ) (sep : Option Byte) (hc : Xdigit c v) (hd : Xdigit d w)
    (hsep : ∀ e ∈ sep, Separator e)

namespace Field

def text : Field → List Byte
  | one c _ sep _ _ => [c, sep]
  | two c d _ _ sep _ _ _ => c :: d :: sep.toList

/-- What is behind the digits. -/
def sepText : Field → List Byte
  | one _ _ sep _ _ => [sep]
  | two _ _ _ _ sep _ _ _ => sep.toList

def value : Field → ℕ
  | one _ v _ _ _ => v
  | two _ _ v w _ _ _ _ => 16 * v + w

/-- `g` may be right behind `f`: there is a separator, or `g` has two digits. -/
def Before (f g : Field) : Prop :=
  match f, g with
  | two _ _ _ _ none _ _ _, one _ _ _ _ _ => False
  | _, _ => True

lemma group (f : Field) (tail : List Byte) :
    Group (f.text ++ tail) f.value (f.sepText ++ tail) := by
  cases f with
  | one c v sep hc hsep =>
    refine .one hc fun d hd w hw => hw.not_separator ?_
    obtain rfl : sep = d := Option.some.inj hd
    exact hsep
  | two c d v w sep hc hd hsep => exact .two hc hd

/-- No other group begins the same text. -/
lemma group_unique {f : Field} {tail rest : List Byte} {v : ℕ} (h : Group (f.text ++ tail) v rest) :
    rest = f.sepText ++ tail := by
  cases f with
  | one c v sep hc hsep =>
    cases h with
    | one => rfl
    | two _ hd => exact absurd hsep hd.not_separator
  | two c d v w sep hc hd hsep =>
    cases h with
    | one _ hrest => exact absurd hd (hrest d rfl w)
    | two => rfl

lemma sepText_eq (f : Field) : f.sepText = [] ∨ ∃ c, f.sepText = [c] ∧ Separator c := by
  cases f with
  | one c v sep hc hsep => exact .inr ⟨sep, rfl, hsep⟩
  | two c d v w sep hc hd hsep =>
    cases sep with
    | none => exact .inl rfl
    | some e => exact .inr ⟨e, rfl, hsep e rfl⟩

/-- A group begins with a digit. -/
lemma not_separator_head (f : Field) (tail : List Byte) :
    ∀ c ∈ (f.text ++ tail).head?, ¬ Separator c := by
  rintro c hc
  cases f with
  | one d v sep hd hsep =>
    obtain rfl : d = c := Option.some.inj hc
    exact hd.not_separator
  | two d e v w sep hd he hsep =>
    obtain rfl : d = c := Option.some.inj hc
    exact hd.not_separator

end Field

/-- What a turn finds, for the text of a group. -/
lemma digits_one {c sep : Byte} {v : ℕ} (hc : Xdigit c v) (hsep : Separator sep)
    (tail : List Byte) : digits c (sep :: tail) = some (0, v, sep :: tail) := by
  rw [digits, enetParseXdigit_eq_some_iff.mpr hc]
  exact if_pos hsep

lemma digits_two {c d : Byte} {v w : ℕ} (hc : Xdigit c v) (hd : Xdigit d w) (tail : List Byte) :
    digits c (d :: tail) = some (v, w, tail) := by
  rw [digits, enetParseXdigit_eq_some_iff.mpr hc, Option.bind_some]
  simp only [if_neg hd.not_separator, enetParseXdigit_eq_some_iff.mpr hd, Option.map_some]

lemma parseLoop_zero (m : ℕ → Byte) (hwaddr : ℕ) (str : List Byte) :
    parseLoop m hwaddr 0 str = (0, m) := by
  rw [parseLoop]

lemma skip_of_not_separator {str : List Byte} (h : ∀ c ∈ str.head?, ¬ Separator c) :
    skip str = str := by
  cases str with
  | nil => rfl
  | cons c str => exact if_neg (h c rfl)

/-- One turn of the loop takes one group. -/
lemma parseLoop_field (f : Field) {tail : List Byte} {n : ℕ}
    (htail : n = 0 ∨ ∀ c ∈ tail.head?, ¬ Separator c) (m : ℕ → Byte) (hwaddr : ℕ) :
    parseLoop m hwaddr (n + 1) (f.text ++ tail) =
      parseLoop (Function.update m hwaddr (BitVec.ofNat 8 f.value)) (hwaddr + 1) n tail := by
  cases f with
  | one c v sep hc hsep =>
    simp only [Field.text, Field.value, List.cons_append, List.nil_append, parseLoop,
      digits_one hc hsep, skip, if_pos hsep, Nat.zero_shiftLeft, Nat.zero_or]
  | two c d v w sep hc hd hsep =>
    cases sep with
    | none =>
      simp only [Field.text, Field.value, Option.toList_none, List.cons_append, List.nil_append,
        parseLoop, digits_two hc hd, shiftLeft_or hd.1]
      obtain rfl | htail := htail
      · rw [parseLoop_zero, parseLoop_zero]
      · rw [skip_of_not_separator htail]
    | some e =>
      simp only [Field.text, Field.value, Option.toList_some, List.cons_append, List.nil_append,
        parseLoop, digits_two hc hd, skip, if_pos (hsep e rfl), shiftLeft_or hd.1]

/-- The groups at the beginning of a text are taken and written, if there are as many as the loop
wants or nothing is behind them. -/
lemma parseLoop_fields (fs : List Field) {rest : List Byte} {n : ℕ}
    (h : fs.length = n ∨ fs.length < n ∧ rest = []) (m : ℕ → Byte) (hwaddr : ℕ) :
    parseLoop m hwaddr n (fs.flatMap Field.text ++ rest) =
      (0, store m hwaddr (fs.map fun f => BitVec.ofNat 8 f.value)) := by
  induction fs generalizing n m hwaddr with
  | nil =>
    rw [List.map_nil, store_nil]
    obtain rfl | ⟨-, rfl⟩ := h
    · exact parseLoop_zero _ _ _
    · cases n <;> rfl
  | cons f fs ih =>
    obtain ⟨n, rfl⟩ := Nat.exists_eq_succ_of_ne_zero (show n ≠ 0 by
      simp only [List.length_cons] at h
      omega)
    have hn : fs.length = n ∨ fs.length < n ∧ rest = [] :=
      h.imp Nat.succ.inj (And.imp_left Nat.lt_of_succ_lt_succ)
    have htail : n = 0 ∨ ∀ c ∈ (fs.flatMap Field.text ++ rest).head?, ¬ Separator c := by
      cases fs with
      | nil =>
        obtain rfl | ⟨-, rfl⟩ := hn
        · exact .inl rfl
        · exact .inr (by simp)
      | cons g fs =>
        right
        rw [List.flatMap_cons, List.append_assoc]
        exact Field.not_separator_head g _
    rw [List.flatMap_cons, List.append_assoc, parseLoop_field f htail, ih hn, List.map_cons,
      store_cons, store_singleton]

/-- What a turn accepts is the text of a group. -/
lemma exists_field {c : Byte} {str rest : List Byte} {digit1 digit2 : ℕ}
    (h : digits c str = some (digit1, digit2, rest)) :
    ∃ f : Field, c :: str = f.text ++ skip rest := by
  obtain ⟨v, hc, h⟩ := Option.bind_eq_some_iff.mp h
  rw [enetParseXdigit_eq_some_iff] at hc
  cases str with
  | nil => cases h
  | cons d str =>
    simp only at h
    split_ifs at h with hd
    · cases h
      refine ⟨.one c digit2 d hc hd, ?_⟩
      rw [skip, if_pos hd]
      rfl
    · obtain ⟨w, hw, heq⟩ := Option.map_eq_some_iff.mp h
      cases heq
      rw [enetParseXdigit_eq_some_iff] at hw
      cases rest with
      | nil => exact ⟨.two c d _ _ none hc hw nofun, rfl⟩
      | cons e rest =>
        rw [skip]
        split_ifs with he
        · exact ⟨.two c d _ _ (some e) hc hw (by rintro _ ⟨rfl⟩; exact he), rfl⟩
        · exact ⟨.two c d _ _ none hc hw nofun, rfl⟩

lemma fields_of_parseLoop {m : ℕ → Byte} {hwaddr n : ℕ} {str : List Byte}
    (h : (parseLoop m hwaddr n str).1 = 0) :
    ∃ (fs : List Field) (rest : List Byte), str = fs.flatMap Field.text ++ rest ∧
      (fs.length = n ∨ fs.length < n ∧ rest = []) := by
  induction n generalizing m hwaddr str with
  | zero => exact ⟨[], str, rfl, .inl rfl⟩
  | succ n ih =>
    cases str with
    | nil => exact ⟨[], [], rfl, .inr ⟨Nat.succ_pos n, rfl⟩⟩
    | cons c str =>
      rw [parseLoop] at h
      cases hdigits : digits c str with
      | none =>
        rw [hdigits] at h
        cases h
      | some found =>
        obtain ⟨digit1, digit2, rest⟩ := found
        rw [hdigits] at h
        obtain ⟨f, hf⟩ := exists_field hdigits
        obtain ⟨fs, rest', htext, hlen⟩ := ih h
        refine ⟨f :: fs, rest', ?_, ?_⟩
        · rw [hf, htext, List.flatMap_cons, List.append_assoc]
        · exact hlen.imp (congrArg Nat.succ) (And.imp_left Nat.succ_lt_succ)

/-- The text does not end with one of the first five groups, and a group of a single digit among
the first six is not right behind the digits of another. -/
def WellSeparated (text : List Byte) : Prop := ∀ fs : List Field,
  (fs.length < enetAddrLen → fs.flatMap Field.text ≠ text) ∧
    (fs.length = enetAddrLen → fs.flatMap Field.text <+: text → fs.IsChain Field.Before)

lemma groups_of_isChain {fs : List Field} (hne : fs ≠ []) (h : fs.IsChain Field.Before)
    (rest : List Byte) :
    Groups fs.length (fs.flatMap Field.text ++ rest) (fs.map Field.value) := by
  induction fs with
  | nil => exact absurd rfl hne
  | cons f fs ih =>
    rw [List.flatMap_cons, List.append_assoc]
    have hgroup := f.group (fs.flatMap Field.text ++ rest)
    cases fs with
    | nil => exact .last hgroup
    | cons g fs =>
      obtain ⟨hbefore, hchain⟩ := List.isChain_cons_cons.mp h
      have hrest := ih (List.cons_ne_nil _ _) hchain
      obtain hsep | ⟨e, hsep, he⟩ := f.sepText_eq
      · rw [hsep, List.nil_append] at hgroup
        cases g with
        | one c v sep hc hcsep =>
          -- nothing is between the two
          cases f with
          | one => cases hsep
          | two _ _ _ _ sep =>
            cases sep with
            | none => exact hbefore.elim
            | some e => cases hsep
        | two c d v w sep hc hd hdsep => exact .join hgroup hc hd hrest
      · rw [hsep] at hgroup
        exact .sep hgroup he hrest

/-- Groups behind a first one are the groups of the text behind it. -/
lemma groups_field {f : Field} {tail : List Byte} {n : ℕ} {vs : List ℕ}
    (htail : ∀ c ∈ tail.head?, ¬ Separator c) (h : Groups (n + 1) (f.text ++ tail) vs) :
    n = 0 ∨ ∃ vs', Groups n tail vs' ∧ (f.sepText = [] → ∃ c d rest v w,
      tail = c :: d :: rest ∧ Xdigit c v ∧ Xdigit d w) := by
  cases h with
  | last => exact .inl rfl
  | sep hgroup hc hrest =>
    have htext := Field.group_unique hgroup
    obtain hsep | ⟨e, hsep, he⟩ := f.sepText_eq
    · rw [hsep, List.nil_append] at htext
      exact absurd hc (htail _ (by rw [← htext]; rfl))
    · rw [hsep] at htext
      obtain ⟨-, rfl⟩ := List.cons.inj htext
      exact .inr ⟨_, hrest, by simp [hsep]⟩
  | join hgroup hc hd hrest =>
    have htext := Field.group_unique hgroup
    obtain hsep | ⟨e, hsep, he⟩ := f.sepText_eq
    · rw [hsep, List.nil_append] at htext
      rw [htext] at hrest
      exact .inr ⟨_, hrest, fun _ => ⟨_, _, _, _, _, htext.symm, hc, hd⟩⟩
    · rw [hsep] at htext
      obtain ⟨rfl, -⟩ := List.cons.inj htext
      exact absurd he hc.not_separator

lemma not_separator_flatMap {fs : List Field} (hne : fs ≠ []) (rest : List Byte) :
    ∀ c ∈ (fs.flatMap Field.text ++ rest).head?, ¬ Separator c := by
  cases fs with
  | nil => exact absurd rfl hne
  | cons f fs =>
    rw [List.flatMap_cons, List.append_assoc]
    exact f.not_separator_head _

/-- A text that ends with a group has no more groups. -/
lemma le_length_of_groups {fs : List Field} {n : ℕ} {vs : List ℕ}
    (h : Groups n (fs.flatMap Field.text) vs) : n ≤ fs.length := by
  induction fs generalizing n vs with
  | nil =>
    cases h with
    | last h | sep h | join h => cases h
  | cons f fs ih =>
    cases n with
    | zero => exact Nat.zero_le _
    | succ n =>
      rw [List.flatMap_cons] at h
      have htail : ∀ c ∈ (fs.flatMap Field.text).head?, ¬ Separator c := by
        by_cases hne : fs = []
        · simp [hne]
        · simpa using not_separator_flatMap hne []
      obtain rfl | ⟨vs', hrest, -⟩ := groups_field htail h
      · exact Nat.succ_le_succ (Nat.zero_le _)
      · exact Nat.succ_le_succ (ih hrest)

lemma isChain_of_groups {fs : List Field} {rest : List Byte} {vs : List ℕ}
    (h : Groups fs.length (fs.flatMap Field.text ++ rest) vs) : fs.IsChain Field.Before := by
  induction fs generalizing vs with
  | nil => exact .nil
  | cons f fs ih =>
    cases fs with
    | nil => exact .singleton f
    | cons g fs =>
      rw [List.flatMap_cons, List.append_assoc] at h
      obtain hzero | ⟨vs', hrest, hjoin⟩ :=
        groups_field (not_separator_flatMap (List.cons_ne_nil g fs) rest) h
      · cases hzero
      · refine List.isChain_cons_cons.mpr ⟨?_, ih hrest⟩
        match f, g with
        | .two _ _ _ _ none _ _ _, .one _ _ sep _ hsep =>
          obtain ⟨c, d, tail, v, w, htail, -, hd⟩ := hjoin rfl
          obtain rfl : sep = d := (List.cons.inj (List.cons.inj htail).2).1
          exact hd.not_separator hsep
        | .two _ _ _ _ (some _) _ _ _, _ | .one .., _ | .two _ _ _ _ none _ _ _, .two .. =>
          trivial

lemma correct_iff (str : CString) (m : ℕ → Byte) (hwaddr : ℕ) :
    Correct str m hwaddr ↔ WellSeparated str.chars := by
  constructor
  · intro hcorrect fs
    constructor
    · rintro hlen htext
      have hrun := parseLoop_fields fs (.inr ⟨hlen, rfl⟩) m hwaddr
      rw [List.append_nil, htext] at hrun
      obtain ⟨vs, hgroups, -⟩ := hcorrect (congrArg Prod.fst hrun)
      rw [← htext] at hgroups
      exact absurd (le_length_of_groups hgroups) (Nat.not_le.mpr hlen)
    · rintro hlen ⟨rest, htext⟩
      have hrun := @parseLoop_fields fs rest _ (.inl hlen) m hwaddr
      rw [htext] at hrun
      obtain ⟨vs, hgroups, -⟩ := hcorrect (congrArg Prod.fst hrun)
      rw [← htext, ← hlen] at hgroups
      exact isChain_of_groups hgroups
  · intro hsep hret
    obtain ⟨fs, rest, htext, hlen⟩ := fields_of_parseLoop hret
    obtain hlen | ⟨hlen, rfl⟩ := hlen
    · have hchain := (hsep fs).2 hlen ⟨rest, htext.symm⟩
      have hne : fs ≠ [] := by
        rintro rfl
        cases hlen
      refine ⟨fs.map Field.value, ?_, ?_⟩
      · rw [htext, ← hlen]
        exact groups_of_isChain hne hchain rest
      · have hrun := @parseLoop_fields fs rest _ (.inl hlen) m hwaddr
        rw [enetParseHwaddr, htext, hrun, List.map_map]
        rw [show enetAddrLen = (fs.map fun f => BitVec.ofNat 8 f.value).length by simp [hlen]]
        exact load_store_self _ _ _
    · exact absurd (by rw [htext, List.append_nil]) ((hsep fs).1 hlen)

/-! ### The usual form -/

/-- An address as it is usually written. -/
def usual (upper : Bool) (addr : List Byte) : List Byte :=
  List.intercalate [chr ':']
    (addr.map fun b => [xdigit upper (b.toNat / 16), xdigit upper (b.toNat % 16)])

/-- Two digits of a byte, as a group. -/
def byteField (upper : Bool) (sep : Bool) (b : Byte) : Field :=
  .two (xdigit upper (b.toNat / 16)) (xdigit upper (b.toNat % 16)) (b.toNat / 16) (b.toNat % 16)
    (if sep then some (chr ':') else none)
    ⟨by have hb := b.isLt; omega, upper, rfl⟩ ⟨by omega, upper, rfl⟩
    (by cases sep <;> simp [Separator])

lemma value_byteField (upper sep : Bool) (b : Byte) :
    BitVec.ofNat 8 (byteField upper sep b).value = b := by
  have hvalue : (byteField upper sep b).value = b.toNat := Nat.div_add_mod b.toNat 16
  rw [hvalue, BitVec.ofNat_toNat, BitVec.setWidth_eq]

lemma parse_usual {str : CString} {upper : Bool} {addr : List Byte} (hlen : addr.length = 6)
    (hstr : str.chars = usual upper addr) (m : ℕ → Byte) (hwaddr : ℕ) :
    enetParseHwaddr str m hwaddr = (0, store m hwaddr addr) := by
  obtain ⟨a, b, c, d, e, f, rfl⟩ : ∃ a b c d e f, addr = [a, b, c, d, e, f] := by
    match addr, hlen with
    | [a, b, c, d, e, f], _ => exact ⟨a, b, c, d, e, f, rfl⟩
  have hrun := @parseLoop_fields
    [byteField upper true a, byteField upper true b, byteField upper true c,
      byteField upper true d, byteField upper true e, byteField upper false f]
    [] 6 (.inl rfl) m hwaddr
  simp only [List.map_cons, List.map_nil, value_byteField, List.append_nil] at hrun
  rw [enetParseHwaddr, hstr]
  exact hrun

/-! ### Main result -/

/-- What is accepted is six groups, with their values written, exactly if the text does not end
earlier and no single digit follows a group directly. The usual form of an address is accepted, and
gives it back. -/
theorem enetParseHwaddr_correct_iff (str : CString) (m : ℕ → Byte) (hwaddr : ℕ) :
    (Correct str m hwaddr ↔ WellSeparated str.chars) ∧
      ∀ upper addr, addr.length = enetAddrLen → str.chars = usual upper addr →
        (enetParseHwaddr str m hwaddr).1 = 0 ∧
          load (enetParseHwaddr str m hwaddr).2 hwaddr enetAddrLen = addr := by
  refine ⟨correct_iff str m hwaddr, fun upper addr hlen hstr => ?_⟩
  rw [parse_usual hlen hstr]
  refine ⟨rfl, ?_⟩
  rw [← hlen]
  exact load_store_self m hwaddr addr

/-- The empty string is accepted, and so is `00:90`; no byte of the address, or two of them, are
then written. -/
theorem short_accepted :
    ¬ Correct ⟨[], by decide⟩ (fun _ => 0) 0 ∧
      ¬ Correct ⟨['0', '0', ':', '9', '0'].map chr, by decide⟩ (fun _ => 0) 0 := by
  constructor
  · intro h
    obtain ⟨vs, hgroups, -⟩ := h rfl
    exact absurd (@le_length_of_groups [] _ _ hgroups) (by decide)
  · intro h
    obtain ⟨vs, hgroups, -⟩ := h (by decide)
    have hfields : (['0', '0', ':', '9', '0'].map chr) =
        [byteField false true 0, byteField false false 0x90].flatMap Field.text := by decide
    simp only [hfields] at hgroups
    exact absurd (le_length_of_groups hgroups) (by decide)

end BcmMruby.Ether.Hwaddr
