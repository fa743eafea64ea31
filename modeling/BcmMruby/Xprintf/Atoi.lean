import Mathlib.Data.List.TakeWhile
import BcmMruby.Xprintf.Format

/-!
# Numbers from text

`xatoi` of `xprintf.c`, and how it reads what `xvprintf` has printed. A number in a text ends at the
first character that is not above a blank. Digits above 9 are letters, or the characters from `:` to
`?`.
-/

namespace BcmMruby.Xprintf

open Core

/-! ### The code -/

/-- What `xatoi` leaves: its own value, `*res` and `*str`. -/
structure Parsed where
  ok : Bool
  res : BitVec 32
  rest : List Byte
  deriving DecidableEq

/-- The character that a pointer into a string points to. -/
def cur (s : List Byte) : Byte := s.headD 0

/-- The digit for a character; the loop of `xatoi` compares it with the radix. -/
def xdigit (c : Byte) : Option Byte :=
  let c := (if chr 'a' ≤ c then c - 0x20 else c) - chr '0'
  if 17 ≤ c then if c - 7 ≤ 9 then none else some (c - 7) else some c

/-- `while (c > ' ')`. -/
def digits (r : ℕ) (val : BitVec 32) : List Byte → Option (BitVec 32) × List Byte
  | [] => (some val, [])
  | c :: s =>
    if c ≤ chr ' ' then (some val, c :: s)
    else
      match xdigit c with
      | none => (none, c :: s)
      | some d =>
        if r ≤ d.toNat then (none, c :: s)
        else digits r (val * BitVec.ofNat 32 r + d.setWidth 32) s

/-- From the digits on. -/
def parseDigits (negative : Bool) (r : ℕ) (s : List Byte) : Parsed :=
  match digits r 0 s with
  | (some val, s) => ⟨true, if negative then 0 - val else val, s⟩
  | (none, s) => ⟨false, 0, s⟩

/-- Behind a `0`. -/
def parseRadix (negative : Bool) (s : List Byte) : Parsed :=
  if cur s = chr 'x' then parseDigits negative 16 s.tail
  else if cur s = chr 'b' then parseDigits negative 2 s.tail
  else if cur s ≤ chr ' ' then ⟨true, 0, s⟩
  else if isDigit (cur s) then parseDigits negative 8 s
  else ⟨false, 0, s⟩

/-- Behind the sign. -/
def parseNumeral (negative : Bool) (s : List Byte) : Parsed :=
  if cur s = chr '0' then parseRadix negative s.tail
  else if isDigit (cur s) then parseDigits negative 10 s
  else ⟨false, 0, s⟩

def parseSign (s : List Byte) : Parsed :=
  if cur s = chr '-' then parseNumeral true s.tail else parseNumeral false s

def xatoi (s : List Byte) : Parsed := parseSign (s.dropWhile (· = chr ' '))

/-! ### What is a number -/

/-- The digits of a radix up to 16. -/
def digitValue (r : ℕ) (c : Byte) : Option ℕ :=
  (if chr '0' ≤ c ∧ c ≤ chr '?' then some (c.toNat - 0x30)
  else if chr 'A' ≤ c ∧ c ≤ chr 'F' then some (c.toNat - 0x41 + 10)
  else if chr 'a' ≤ c ∧ c ≤ chr 'f' then some (c.toNat - 0x61 + 10)
  else none).filter (· < r)

/-- The value of digits that go on from a number. -/
def valueFrom (r : ℕ) : ℕ → List Byte → Option ℕ
  | n, [] => some n
  | n, c :: ds => (digitValue r c).bind fun d => valueFrom r (n * r + d) ds

inductive Numeral : List Byte → ℕ → Prop where
  | zero : Numeral [chr '0'] 0
  | hexadecimal {ds : List Byte} {n : ℕ} (h : valueFrom 16 0 ds = some n) :
      Numeral (chr '0' :: chr 'x' :: ds) n
  | binary {ds : List Byte} {n : ℕ} (h : valueFrom 2 0 ds = some n) :
      Numeral (chr '0' :: chr 'b' :: ds) n
  | octal {ds : List Byte} {n : ℕ} (hne : ds ≠ []) (h : valueFrom 8 0 ds = some n) :
      Numeral (chr '0' :: ds) n
  | decimal {ds : List Byte} {n : ℕ} (hne : ds ≠ []) (hzero : cur ds ≠ chr '0')
      (h : valueFrom 10 0 ds = some n) : Numeral ds n

/-- Where a number ends. -/
def Ends (s : List Byte) : Prop := cur s ≤ chr ' '

instance (s : List Byte) : Decidable (Ends s) := inferInstanceAs (Decidable (cur s ≤ chr ' '))

def signed (negative : Bool) (n : ℕ) : BitVec 32 :=
  if negative then 0 - BitVec.ofNat 32 n else BitVec.ofNat 32 n

def sign (negative : Bool) : List Byte := if negative then [chr '-'] else []

/-! ### Digits -/

lemma xdigit_eq (c : Byte) :
    (xdigit c).bind (fun d => if 16 ≤ d.toNat then none else some d.toNat) = digitValue 16 c := by
  revert c
  decide +kernel

lemma digitValue_le {r : ℕ} (hr : r ≤ 16) (c : Byte) :
    digitValue r c = (digitValue 16 c).filter (· < r) := by
  simp only [digitValue, Option.filter_filter]
  congr 1
  funext d
  by_cases hd : d < r
  · have : d < 16 := by omega
    simp [hd, this]
  · simp [hd]

/-- No digit is where a number ends. -/
lemma digitValue_of_le {r : ℕ} {c : Byte} (hc : c ≤ chr ' ') : digitValue r c = none := by
  have h16 : ∀ c : Byte, c ≤ chr ' ' → ¬ (chr '0' ≤ c ∧ c ≤ chr '?') ∧
      ¬ (chr 'A' ≤ c ∧ c ≤ chr 'F') ∧ ¬ (chr 'a' ≤ c ∧ c ≤ chr 'f') := by decide +kernel
  obtain ⟨h₁, h₂, h₃⟩ := h16 c hc
  simp [digitValue, h₁, h₂, h₃]

lemma digits_cons {r : ℕ} (hr : r ≤ 16) (val : BitVec 32) {c : Byte} (hc : ¬ c ≤ chr ' ')
    (s : List Byte) :
    digits r val (c :: s) =
      match digitValue r c with
      | none => (none, c :: s)
      | some d => digits r (val * BitVec.ofNat 32 r + BitVec.ofNat 32 d) s := by
  rw [digits, if_neg hc, digitValue_le hr, ← xdigit_eq]
  cases xdigit c with
  | none => rfl
  | some d =>
    by_cases hlt : d.toNat < r
    · have h16 : ¬ 16 ≤ d.toNat := by omega
      simp only [Option.bind_some, if_neg h16, if_neg (Nat.not_le.mpr hlt), Option.filter_some, hlt,
        decide_true, if_true, BitVec.ofNat_toNat]
    · simp only [Option.bind_some, if_pos (Nat.not_lt.mp hlt)]
      split_ifs <;> simp [Option.filter_some, hlt]

lemma digits_eq_iff {r : ℕ} (hr : r ≤ 16) {n : ℕ} {s rest : List Byte} {v : BitVec 32} :
    digits r (BitVec.ofNat 32 n) s = (some v, rest) ↔
      ∃ ds m, s = ds ++ rest ∧ Ends rest ∧ valueFrom r n ds = some m ∧ v = BitVec.ofNat 32 m := by
  induction s generalizing n with
  | nil =>
    constructor
    · intro h
      obtain ⟨hv, rfl⟩ := Prod.mk.inj h
      exact ⟨[], n, rfl, by decide, rfl, (Option.some.inj hv).symm⟩
    · rintro ⟨ds, m, hs, -, hm, rfl⟩
      obtain ⟨rfl, rfl⟩ := List.append_eq_nil_iff.mp hs.symm
      obtain rfl := Option.some.inj hm
      rfl
  | cons c s ih =>
    by_cases hc : c ≤ chr ' '
    · rw [digits, if_pos hc]
      constructor
      · intro h
        obtain ⟨hv, rfl⟩ := Prod.mk.inj h
        exact ⟨[], n, rfl, hc, rfl, (Option.some.inj hv).symm⟩
      · rintro ⟨ds | ⟨d, ds⟩, m, hs, -, hm, rfl⟩
        · obtain rfl := Option.some.inj hm
          rw [List.nil_append] at hs
          rw [hs]
        · obtain ⟨rfl, -⟩ := List.cons.inj hs
          rw [valueFrom, digitValue_of_le hc] at hm
          cases hm
    · rw [digits_cons hr _ hc]
      cases hd : digitValue r c with
      | none =>
        refine iff_of_false (by simp) ?_
        rintro ⟨ds | ⟨d, ds⟩, m, hs, hends, hm, -⟩
        · rw [List.nil_append] at hs
          exact hc (by simpa [← hs, Ends, cur] using hends)
        · obtain ⟨rfl, -⟩ := List.cons.inj hs
          rw [valueFrom, hd] at hm
          cases hm
      | some d =>
        have hstep : BitVec.ofNat 32 n * BitVec.ofNat 32 r + BitVec.ofNat 32 d =
            BitVec.ofNat 32 (n * r + d) := by
          rw [BitVec.ofNat_add, BitVec.ofNat_mul]
        simp only [hstep, ih]
        constructor
        · rintro ⟨ds, m, rfl, hends, hm, rfl⟩
          exact ⟨c :: ds, m, rfl, hends, by rw [valueFrom, hd]; exact hm, rfl⟩
        · rintro ⟨ds | ⟨d', ds⟩, m, hs, hends, hm, rfl⟩
          · rw [List.nil_append] at hs
            exact absurd (by simpa [← hs, Ends, cur] using hends) hc
          · obtain ⟨rfl, rfl⟩ := List.cons.inj hs
            rw [valueFrom, hd] at hm
            exact ⟨ds, m, rfl, hends, hm, rfl⟩

/-! ### What is accepted -/

lemma parseDigits_eq_iff {negative : Bool} {r : ℕ} (hr : r ≤ 16) {s rest : List Byte}
    {v : BitVec 32} :
    parseDigits negative r s = ⟨true, v, rest⟩ ↔
      ∃ ds n, s = ds ++ rest ∧ Ends rest ∧ valueFrom r 0 ds = some n ∧ v = signed negative n := by
  have hiff : ∀ v rest, digits r 0 s = (some v, rest) ↔ ∃ ds n, s = ds ++ rest ∧ Ends rest ∧
      valueFrom r 0 ds = some n ∧ v = BitVec.ofNat 32 n := fun _ _ => digits_eq_iff hr
  rw [parseDigits]
  cases hd : digits r 0 s with
  | mk val s' =>
    cases val with
    | none =>
      refine iff_of_false (by simp) ?_
      rintro ⟨ds, n, hs, hends, hn, -⟩
      have h := (hiff (BitVec.ofNat 32 n) rest).mpr ⟨ds, n, hs, hends, hn, rfl⟩
      rw [hd] at h
      cases h
    | some val =>
      simp only [Parsed.mk.injEq, true_and]
      constructor
      · rintro ⟨rfl, rfl⟩
        obtain ⟨ds, n, hs, hends, hn, rfl⟩ := (hiff val s').mp hd
        exact ⟨ds, n, hs, hends, hn, by rw [signed]⟩
      · rintro ⟨ds, n, hs, hends, hn, rfl⟩
        have h := (hiff (BitVec.ofNat 32 n) rest).mpr ⟨ds, n, hs, hends, hn, rfl⟩
        rw [hd] at h
        obtain ⟨hval, rfl⟩ := Prod.mk.inj h
        rw [Option.some.inj hval, signed]
        exact ⟨rfl, rfl⟩

lemma digitValue_mono {r r' : ℕ} (hr : r ≤ r') {c : Byte} {d : ℕ} (h : digitValue r c = some d) :
    digitValue r' c = some d := by
  simp only [digitValue, Option.filter_eq_some_iff, decide_eq_true_eq] at h ⊢
  exact ⟨h.1, h.2.trans_le hr⟩

/-- Digits up to 9 have one character each. -/
lemma isDigit_of_digitValue {r : ℕ} (hr : r ≤ 10) {c : Byte} {d : ℕ}
    (h : digitValue r c = some d) : isDigit c = true := by
  have hall : ∀ c : Byte, isDigit c = false → digitValue 10 c = none := by decide +kernel
  by_contra hc
  have hnone := hall c (by simpa using hc)
  rw [digitValue_mono hr h] at hnone
  cases hnone

lemma isDigit_ne : ∀ c : Byte, isDigit c = true →
    c ≠ chr 'x' ∧ c ≠ chr 'b' ∧ c ≠ chr '-' ∧ c ≠ chr ' ' ∧ ¬ c ≤ chr ' ' := by
  decide +kernel

lemma ends_ne : ∀ c : Byte, c ≤ chr ' ' →
    c ≠ chr 'x' ∧ c ≠ chr 'b' ∧ c ≠ chr '-' ∧ c ≠ chr '0' ∧ isDigit c = false := by
  decide +kernel

/-- A number begins with a digit. -/
lemma Numeral.isDigit_cur {body : List Byte} {n : ℕ} (h : Numeral body n) (rest : List Byte) :
    isDigit (cur (body ++ rest)) = true := by
  cases h with
  | zero | hexadecimal | binary | octal => exact isDigit_zero
  | decimal hne hzero hn =>
    obtain ⟨c, ds, rfl⟩ := List.exists_cons_of_ne_nil hne
    rw [valueFrom, Option.bind_eq_some_iff] at hn
    obtain ⟨d, hd, -⟩ := hn
    exact isDigit_of_digitValue le_rfl hd

lemma cur_eq_iff {s : List Byte} {c : Byte} (hc : c ≠ 0) : cur s = c ↔ ∃ s', s = c :: s' := by
  cases s with
  | nil => exact iff_of_false (Ne.symm hc) nofun
  | cons d s => simp [cur]

lemma parseNumeral_numeral (negative : Bool) {body rest : List Byte} {n : ℕ} (h : Numeral body n)
    (hends : Ends rest) :
    parseNumeral negative (body ++ rest) = ⟨true, signed negative n, rest⟩ := by
  cases h with
  | zero =>
    obtain ⟨hx, hb, -⟩ := ends_ne _ hends
    have hsigned : signed negative 0 = 0 := by cases negative <;> rfl
    have hcur : cur (chr '0' :: rest) = chr '0' := rfl
    rw [List.singleton_append, parseNumeral, if_pos hcur, List.tail_cons, parseRadix, if_neg hx,
      if_neg hb, if_pos (show cur rest ≤ chr ' ' from hends), hsigned]
  | hexadecimal hn =>
    exact (parseDigits_eq_iff le_rfl).mpr ⟨_, _, rfl, hends, hn, rfl⟩
  | binary hn =>
    exact (parseDigits_eq_iff (by decide)).mpr ⟨_, _, rfl, hends, hn, rfl⟩
  | octal hne hn =>
    have hdigits : parseDigits negative 8 _ = _ :=
      (parseDigits_eq_iff (by decide)).mpr ⟨_, _, rfl, hends, hn, rfl⟩
    obtain ⟨c, ds, rfl⟩ := List.exists_cons_of_ne_nil hne
    rw [valueFrom, Option.bind_eq_some_iff] at hn
    obtain ⟨d, hd, -⟩ := hn
    have hc := isDigit_of_digitValue (by decide) hd
    obtain ⟨hx, hb, -, -, hle⟩ := isDigit_ne c hc
    have hcur : cur (chr '0' :: c :: ds ++ rest) = chr '0' := rfl
    have hcur' : cur (chr '0' :: c :: ds ++ rest).tail = c := rfl
    rw [parseNumeral, if_pos hcur, parseRadix, hcur', if_neg hx, if_neg hb, if_neg hle, if_pos hc]
    exact hdigits
  | decimal hne hzero hn =>
    have hc := Numeral.isDigit_cur (.decimal hne hzero hn) rest
    have hzero' : cur (body ++ rest) ≠ chr '0' := by
      obtain ⟨c, ds, rfl⟩ := List.exists_cons_of_ne_nil hne
      exact hzero
    rw [parseNumeral, if_neg hzero', if_pos hc]
    exact (parseDigits_eq_iff (by decide)).mpr ⟨_, _, rfl, hends, hn, rfl⟩

lemma exists_numeral_of_zero {negative : Bool} {s rest : List Byte} {v : BitVec 32}
    (h : parseRadix negative s = ⟨true, v, rest⟩) :
    ∃ body n, chr '0' :: s = body ++ rest ∧ Ends rest ∧ Numeral body n ∧ v = signed negative n := by
  unfold parseRadix at h
  split_ifs at h with hx hb hends hdigit
  · obtain ⟨s, rfl⟩ := (cur_eq_iff (by decide)).mp hx
    obtain ⟨ds, n, hs, hends, hn, hv⟩ := (parseDigits_eq_iff le_rfl).mp h
    exact ⟨_ :: _ :: ds, n, congrArg (chr '0' :: chr 'x' :: ·) hs, hends, .hexadecimal hn, hv⟩
  · obtain ⟨s, rfl⟩ := (cur_eq_iff (by decide)).mp hb
    obtain ⟨ds, n, hs, hends, hn, hv⟩ := (parseDigits_eq_iff (by decide)).mp h
    exact ⟨_ :: _ :: ds, n, congrArg (chr '0' :: chr 'b' :: ·) hs, hends, .binary hn, hv⟩
  · obtain ⟨-, rfl, rfl⟩ := Parsed.mk.inj h
    exact ⟨_, 0, rfl, hends, .zero, by cases negative <;> rfl⟩
  · obtain ⟨ds, n, hs, hends', hn, hv⟩ := (parseDigits_eq_iff (by decide)).mp h
    have hne : ds ≠ [] := by
      rintro rfl
      rw [hs] at hends
      exact hends hends'
    exact ⟨_, n, congrArg (chr '0' :: ·) hs, hends', .octal hne hn, hv⟩
  · cases h

lemma exists_numeral {negative : Bool} {s rest : List Byte} {v : BitVec 32}
    (h : parseNumeral negative s = ⟨true, v, rest⟩) :
    ∃ body n, s = body ++ rest ∧ Ends rest ∧ Numeral body n ∧ v = signed negative n := by
  unfold parseNumeral at h
  split_ifs at h with hzero hdigit
  · obtain ⟨s, rfl⟩ := (cur_eq_iff (by decide)).mp hzero
    exact exists_numeral_of_zero h
  · obtain ⟨ds, n, hs, hends, hn, hv⟩ := (parseDigits_eq_iff (by decide)).mp h
    obtain ⟨-, -, -, -, hle⟩ := isDigit_ne _ hdigit
    have hne : ds ≠ [] := by
      rintro rfl
      rw [hs] at hle
      exact hle hends
    have hzero' : cur ds ≠ chr '0' := by
      obtain ⟨c, ds, rfl⟩ := List.exists_cons_of_ne_nil hne
      rw [hs] at hzero
      exact hzero
    exact ⟨ds, n, hs, hends, .decimal hne hzero' hn, hv⟩
  · cases h

lemma xatoi_numeral (blanks : ℕ) (negative : Bool) {body rest : List Byte} {n : ℕ}
    (h : Numeral body n) (hends : Ends rest) :
    xatoi (List.replicate blanks (chr ' ') ++ (sign negative ++ (body ++ rest))) =
      ⟨true, signed negative n, rest⟩ := by
  have hcur := h.isDigit_cur rest
  obtain ⟨-, -, hminus, hblank, -⟩ := isDigit_ne _ hcur
  have hdrop : (List.replicate blanks (chr ' ') ++ (sign negative ++ (body ++ rest))).dropWhile
      (· = chr ' ') = sign negative ++ (body ++ rest) := by
    rw [List.dropWhile_append_of_pos (by simp)]
    cases negative with
    | true => rfl
    | false =>
      rw [sign, if_neg Bool.false_ne_true, List.nil_append]
      cases hbody : body ++ rest with
      | nil => rfl
      | cons c s =>
        rw [hbody] at hblank
        exact List.dropWhile_cons_of_neg (by simpa [cur] using hblank)
  rw [xatoi, hdrop, parseSign]
  cases negative with
  | true => exact parseNumeral_numeral true h hends
  | false =>
    rw [sign, if_neg Bool.false_ne_true, List.nil_append, if_neg hminus]
    exact parseNumeral_numeral false h hends

/-- `xatoi` accepts blanks, a sign and a number up to its end, and nothing else; the result is the
number in 32 bits. -/
theorem xatoi_eq_iff (s rest : List Byte) (v : BitVec 32) :
    xatoi s = ⟨true, v, rest⟩ ↔ ∃ blanks negative body n,
      s = List.replicate blanks (chr ' ') ++ (sign negative ++ (body ++ rest)) ∧ Ends rest ∧
        Numeral body n ∧ v = signed negative n := by
  constructor
  · intro h
    obtain ⟨blanks, hblanks⟩ : ∃ k, s.takeWhile (· = chr ' ') = List.replicate k (chr ' ') :=
      ⟨_, List.eq_replicate_iff.mpr ⟨rfl, fun b hb => by simpa using List.mem_takeWhile_imp hb⟩⟩
    have hs := (List.takeWhile_append_dropWhile (p := (· = chr ' ')) (l := s)).symm
    rw [hblanks] at hs
    unfold xatoi parseSign at h
    split_ifs at h with hsign
    · obtain ⟨s', hs'⟩ := (cur_eq_iff (by decide)).mp hsign
      rw [hs', List.tail_cons] at h
      obtain ⟨body, n, rfl, hends, hnum, hv⟩ := exists_numeral h
      exact ⟨blanks, true, body, n, by rw [hs, hs']; rfl, hends, hnum, hv⟩
    · obtain ⟨body, n, hs', hends, hnum, hv⟩ := exists_numeral h
      exact ⟨blanks, false, body, n, by rw [hs, hs']; rfl, hends, hnum, hv⟩
  · rintro ⟨blanks, negative, body, n, rfl, hends, hnum, rfl⟩
    exact xatoi_numeral blanks negative hnum hends

/-- The third and the fourth number of the example in the source. -/
example :
    xatoi ("   0x3ff 0b1111 ".toList.map chr) = ⟨true, 1023, " 0b1111 ".toList.map chr⟩ ∧
      xatoi (" 0b1111 ".toList.map chr) = ⟨true, 15, [chr ' ']⟩ := by
  decide +kernel

/-! ### Printed numbers -/

lemma digitValue_digitText {r : ℕ} (hr : r ≤ 16) (upper : Bool) {d : ℕ} (hd : d < r) :
    digitValue r (digitText upper d) = some d := by
  have h16 : digitValue 16 (digitText upper d) = some d := by
    have hd' : d < 16 := by omega
    interval_cases d <;> cases upper <;> decide
  rw [digitValue_le hr, h16, Option.filter_some, if_pos (by simpa using hd)]

lemma valueFrom_digitText {r : ℕ} (hr : r ≤ 16) (upper : Bool) {ds : List ℕ}
    (hds : ∀ d ∈ ds, d < r) (k : ℕ) :
    valueFrom r k (ds.map (digitText upper)) = some (ds.foldl (fun k d => k * r + d) k) := by
  induction ds generalizing k with
  | nil => rfl
  | cons d ds ih =>
    obtain ⟨hd, hds⟩ := List.forall_mem_cons.mp hds
    rw [List.map_cons, valueFrom, digitValue_digitText hr upper hd, Option.bind_some, ih hds,
      List.foldl_cons]

lemma valueFrom_natText {r : ℕ} (hr : 1 < r) (hr16 : r ≤ 16) (upper : Bool) (m : ℕ) :
    valueFrom r 0 (natText upper r m) = some (m % r ^ sizeofS) := by
  rw [natText]
  split_ifs with hm
  · have hzero := digitValue_digitText hr16 upper (show 0 < r by omega)
    have hchr : digitText upper 0 = chr '0' := rfl
    rw [hchr] at hzero
    simp [valueFrom, hzero, hm]
  · have hds : ∀ d ∈ ((Nat.digits r m).take sizeofS).reverse, d < r := fun d hd =>
      Nat.digits_lt_base hr (List.mem_of_mem_take (List.mem_reverse.mp hd))
    rw [← List.map_reverse, valueFrom_digitText hr16 upper hds, foldl_reverse_eq_ofDigits]
    exact congrArg some (Nat.self_mod_pow_eq_ofDigits_take sizeofS m hr).symm

/-- Zeros in front count for nothing. -/
lemma valueFrom_zeros {r : ℕ} (hr : 1 < r) (hr16 : r ≤ 16) (k : ℕ) (ds : List Byte) :
    valueFrom r 0 (List.replicate k (chr '0') ++ ds) = valueFrom r 0 ds := by
  have hzero := digitValue_digitText hr16 true (show 0 < r by omega)
  have hchr : digitText true 0 = chr '0' := rfl
  rw [hchr] at hzero
  induction k with
  | zero => rfl
  | succ k ih =>
    rw [List.replicate_succ, List.cons_append, valueFrom, hzero, Option.bind_some, Nat.zero_mul]
    exact ih

/-- What stands in front of the digits of a radix. -/
def Kind.lead : Kind → List Byte
  | .x => [chr '0', chr 'x']
  | .o => [chr '0']
  | .b => [chr '0', chr 'b']
  | _ => []

/-- The numeral is at least as wide as asked for. -/
def Conversion.Unpadded (v : Conversion) (n : BitVec 32) : Prop :=
  ∀ text ∈ v.numeralText n, v.width ≤ text.length

/-- Blanks do not come between the lead and the digits, and zeros not in front of a decimal. -/
def Conversion.Readable (v : Conversion) (n : BitVec 32) : Prop :=
  v.width + 1 < 2 ^ 32 ∧
    match v.kind with
    | .d | .u => v.flag = .zero → v.Unpadded n
    | .x | .o | .b => v.flag = .none → v.Unpadded n
    | _ => False

/-- Only the lowest 24 binary digits are printed. -/
def readBack (kind : Kind) (n : BitVec 32) : BitVec 32 :=
  if kind = .b then (n.setWidth 24).setWidth 32 else n

lemma valid_lead (kind : Kind) : ∀ c ∈ kind.lead, c ≠ chr '%' ∧ c ≠ 0 := by
  cases kind <;> decide

/-- The lead and the number. -/
def numberFormat (v : Conversion) (hwidth : v.width + 1 < 2 ^ 32) : Format where
  pieces := v.kind.lead.map .lit ++ [.conv v]
  valid p hp := by
    rcases List.mem_append.mp hp with hp | hp
    · obtain ⟨c, hc, rfl⟩ := List.mem_map.mp hp
      exact valid_lead v.kind c hc
    · rw [List.mem_singleton.mp hp]
      exact hwidth

lemma render_lits (cs : List Byte) (ps : List Piece) (args : List Arg) :
    render (cs.map .lit ++ ps) args = (render ps args).map (cs ++ ·) := by
  induction cs with
  | nil => simp
  | cons c cs ih =>
    rw [List.map_cons, List.cons_append, render, ih, Option.map_map]
    rfl

lemma natText_ten (upper : Bool) {m : ℕ} (hm : m ≠ 0) (hlt : m < 10 ^ sizeofS) :
    natText upper 10 m = widthText m := by
  have hlen : (Nat.digits 10 m).length ≤ sizeofS :=
    (Nat.digits_length_le_iff (by decide) m).mpr hlt
  rw [natText, if_neg hm, List.take_of_length_le hlen, widthText, List.map_reverse]
  congr 1
  refine List.map_congr_left fun d hd => ?_
  rw [digitText, if_pos (Nat.digits_lt_base (by decide) hd)]

lemma numeral_decimal (upper : Bool) {m : ℕ} (hlt : m < 10 ^ sizeofS) :
    Numeral (natText upper 10 m) m := by
  by_cases hm : m = 0
  · rw [natText, if_pos hm, hm]
    exact .zero
  · have hvalue : valueFrom 10 0 (natText upper 10 m) = some m := by
      rw [valueFrom_natText (by decide) (by decide), Nat.mod_eq_of_lt hlt]
    obtain ⟨c, ds, hc, hzero, -⟩ := head_widthText hm
    rw [← natText_ten upper hm hlt] at hc
    rw [hc] at hvalue ⊢
    exact .decimal (List.cons_ne_nil _ _) hzero hvalue

lemma natText_ne_nil (upper : Bool) (r m : ℕ) : natText upper r m ≠ [] := by
  rw [natText]
  split_ifs with hm
  · exact List.cons_ne_nil _ _
  · have hne : Nat.digits r m ≠ [] := Nat.digits_ne_nil_iff_ne_zero.mpr hm
    simp [sizeofS, hne]

/-- The numeral of a conversion that is not decimal, with zeros in front of its digits. -/
lemma numeral_lead {kind : Kind} {r : ℕ}
    (hkind : kind = .x ∧ r = 16 ∨ kind = .o ∧ r = 8 ∨ kind = .b ∧ r = 2) (k : ℕ) (upper : Bool)
    (m : ℕ) :
    Numeral (kind.lead ++ (List.replicate k (chr '0') ++ natText upper r m))
      (m % r ^ sizeofS) := by
  have hvalue : 1 < r → r ≤ 16 →
      valueFrom r 0 (List.replicate k (chr '0') ++ natText upper r m) = some (m % r ^ sizeofS) :=
    fun hr hr16 => by rw [valueFrom_zeros hr hr16, valueFrom_natText hr hr16]
  rcases hkind with ⟨rfl, rfl⟩ | ⟨rfl, rfl⟩ | ⟨rfl, rfl⟩
  · exact .hexadecimal (hvalue (by decide) le_rfl)
  · have hne : List.replicate k (chr '0') ++ natText upper 8 m ≠ [] :=
      List.append_ne_nil_of_right_ne_nil _ (natText_ne_nil upper 8 m)
    exact .octal hne (hvalue (by decide) (by decide))
  · exact .binary (hvalue (by decide) (by decide))

lemma signed_toInt (n : BitVec 32) : signed (decide (n.toInt < 0)) n.toInt.natAbs = n := by
  by_cases hn : n.toInt < 0
  · rw [signed, if_pos (by simpa using hn), ← toNat_zero_sub hn, BitVec.ofNat_toNat,
      BitVec.setWidth_eq]
    simp
  · rw [signed, if_neg (by simpa using hn), ← toNat_of_nonneg hn, BitVec.ofNat_toNat,
      BitVec.setWidth_eq]

lemma signed_mod {kind : Kind} {r : ℕ}
    (hkind : kind = .x ∧ r = 16 ∨ kind = .o ∧ r = 8 ∨ kind = .b ∧ r = 2) (n : BitVec 32) :
    signed false (n.toNat % r ^ sizeofS) = readBack kind n := by
  have hsize : sizeofS = 24 := rfl
  have hn := n.isLt
  rw [signed, if_neg Bool.false_ne_true, hsize]
  apply BitVec.eq_of_toNat_eq
  rcases hkind with ⟨rfl, rfl⟩ | ⟨rfl, rfl⟩ | ⟨rfl, rfl⟩ <;> simp [readBack] <;> omega

/-- Blanks, the sign, a number and blanks. -/
def Shape (text : List Byte) (v : BitVec 32) : Prop :=
  ∃ before negative body n after,
    text = List.replicate before (chr ' ') ++
      (sign negative ++ (body ++ List.replicate after (chr ' '))) ∧
    Numeral body n ∧ signed negative n = v

/-- The character that `xvprintf` pads a number with. -/
def numberPad (f : Flag) : Byte := if f = .zero then chr '0' else chr ' '

lemma fill_of_le {f : Flag} {pad : Byte} {width : ℕ} {text : List Byte}
    (h : width ≤ text.length) : fill f pad width text = text := by
  simp [fill, Nat.sub_eq_zero_of_le h]

lemma shape_decimal (upper : Bool) {f : Flag} {width : ℕ} {negative : Bool} {m : ℕ}
    (hf : f = .zero → width ≤ (sign negative ++ natText upper 10 m).length)
    (hlt : m < 10 ^ sizeofS) :
    Shape (fill f (numberPad f) width (sign negative ++ natText upper 10 m))
      (signed negative m) := by
  have hnum := numeral_decimal upper hlt
  let k := width - (sign negative ++ natText upper 10 m).length
  cases f with
  | zero => exact ⟨0, negative, _, m, 0, by simp [fill_of_le (hf rfl)], hnum, rfl⟩
  | none => exact ⟨k, negative, _, m, 0, by simp [fill, k, numberPad], hnum, rfl⟩
  | left => exact ⟨0, negative, _, m, k, by simp [fill, k], hnum, rfl⟩

lemma shape_lead {kind : Kind} {r : ℕ}
    (hkind : kind = .x ∧ r = 16 ∨ kind = .o ∧ r = 8 ∨ kind = .b ∧ r = 2) (upper : Bool) {f : Flag}
    {width : ℕ} {n : BitVec 32} (hf : f = .none → width ≤ (natText upper r n.toNat).length) :
    Shape (kind.lead ++ fill f (numberPad f) width (natText upper r n.toNat))
      (readBack kind n) := by
  have hsigned := signed_mod hkind n
  let k := width - (natText upper r n.toNat).length
  cases f with
  | none =>
    exact ⟨0, false, _, _, 0, by simp [fill_of_le (hf rfl), sign],
      numeral_lead hkind 0 upper n.toNat, hsigned⟩
  | zero =>
    exact ⟨0, false, _, _, 0, by simp [fill, sign, numberPad, k],
      numeral_lead hkind k upper n.toNat, hsigned⟩
  | left =>
    exact ⟨0, false, _, _, k, by simp [fill, sign, k], numeral_lead hkind 0 upper n.toNat, hsigned⟩

lemma render_numberFormat {v : Conversion} (hwidth : v.width + 1 < 2 ^ 32) {n : BitVec 32}
    (hv : v.Readable n) {t : List Byte} (ht : v.numeralText n = some t) :
    render (numberFormat v hwidth).pieces [.word n] =
      some (v.kind.lead ++ fill v.flag (numberPad v.flag) v.width t) := by
  have hone : v.render [.word n] = some (fill v.flag (numberPad v.flag) v.width t, []) := by
    obtain ⟨-, hflag⟩ := hv
    cases hkind : v.kind <;> rw [hkind] at hflag
    case s | c | percent => exact hflag.elim
    all_goals simp [Conversion.render, hkind, ht, numberPad]
  rw [numberFormat, render_lits, render, hone]
  simp [render]

lemma shape_render {v : Conversion} (hwidth : v.width + 1 < 2 ^ 32) {n : BitVec 32}
    (hv : v.Readable n) :
    ∃ text, render (numberFormat v hwidth).pieces [.word n] = some text ∧
      Shape text (readBack v.kind n) := by
  have hlt : n.toNat < 10 ^ sizeofS := n.isLt.trans (by decide)
  have hbased : ∀ r, v.kind = .x ∧ r = 16 ∨ v.kind = .o ∧ r = 8 ∨ v.kind = .b ∧ r = 2 →
      (v.flag = .none → v.Unpadded n) → v.numeralText n = some (natText v.upper r n.toNat) →
      ∃ text, render (numberFormat v hwidth).pieces [.word n] = some text ∧
        Shape text (readBack v.kind n) := fun r hr hflag ht =>
    ⟨_, render_numberFormat hwidth hv ht, shape_lead hr v.upper fun hnone => hflag hnone _ ht⟩
  have hdecimal : ∀ negative m, v.kind = .d ∨ v.kind = .u → (v.flag = .zero → v.Unpadded n) →
      m < 10 ^ sizeofS → v.numeralText n = some (sign negative ++ natText v.upper 10 m) →
      signed negative m = n →
      ∃ text, render (numberFormat v hwidth).pieces [.word n] = some text ∧
        Shape text (readBack v.kind n) := by
    intro negative m hkind hflag hm ht hn
    have hshape := shape_decimal v.upper (f := v.flag) (fun hzero => hflag hzero _ ht) hm
    have hlead : v.kind.lead = [] ∧ readBack v.kind n = n := by
      rcases hkind with h | h <;> simp [h, Kind.lead, readBack]
    refine ⟨_, render_numberFormat hwidth hv ht, ?_⟩
    rwa [hlead.1, hlead.2, List.nil_append, ← hn]
  have hflag := hv.2
  cases hkind : v.kind <;> rw [hkind] at hflag hbased hdecimal
  case s | c | percent => exact hflag.elim
  case d =>
    have habs : n.toInt.natAbs < 10 ^ sizeofS := by
      have hn := n.isLt
      have hsize : (2 : ℕ) ^ 32 ≤ 10 ^ sizeofS := by decide
      rw [BitVec.toInt_eq_toNat_cond]
      split_ifs <;> omega
    exact hdecimal _ _ (.inl rfl) hflag habs (by simp [Conversion.numeralText, hkind, sign])
      (signed_toInt n)
  case u =>
    exact hdecimal false _ (.inr rfl) hflag hlt (by simp [Conversion.numeralText, hkind, sign])
      (by simp [signed])
  case x =>
    exact hbased 16 (.inl ⟨rfl, rfl⟩) hflag (by simp [Conversion.numeralText, hkind])
  case o =>
    exact hbased 8 (.inr (.inl ⟨rfl, rfl⟩)) hflag (by simp [Conversion.numeralText, hkind])
  case b =>
    exact hbased 2 (.inr (.inr ⟨rfl, rfl⟩)) hflag (by simp [Conversion.numeralText, hkind])

/-- No line ends in a number. -/
lemma notMem_of_valueFrom {r n m : ℕ} {ds : List Byte} (h : valueFrom r n ds = some m) {c : Byte}
    (hc : c ≤ chr ' ') : c ∉ ds := by
  induction ds generalizing n with
  | nil => exact List.not_mem_nil
  | cons d ds ih =>
    rw [valueFrom, Option.bind_eq_some_iff] at h
    obtain ⟨x, hd, h⟩ := h
    rw [List.mem_cons, not_or]
    refine ⟨?_, ih h⟩
    rintro rfl
    rw [digitValue_of_le hc] at hd
    cases hd

lemma Numeral.newline_notMem {body : List Byte} {n : ℕ} (h : Numeral body n) : chr '\n' ∉ body := by
  have hle : chr '\n' ≤ chr ' ' := by decide
  have hlead : chr '\n' ≠ chr '0' ∧ chr '\n' ≠ chr 'x' ∧ chr '\n' ≠ chr 'b' := by decide
  cases h with
  | zero => decide
  | hexadecimal h | binary h | octal _ h =>
    simp [hlead, notMem_of_valueFrom h hle]
  | decimal _ _ h => exact notMem_of_valueFrom h hle

lemma flatMap_xputc {text : List Byte} (h : chr '\n' ∉ text) : text.flatMap xputc = text := by
  induction text with
  | nil => rfl
  | cons c text ih =>
    rw [List.mem_cons, not_or] at h
    rw [List.flatMap_cons, ih h.2, xputc, if_neg (Ne.symm h.1), List.singleton_append]

lemma Shape.newline_notMem {text : List Byte} {v : BitVec 32} (h : Shape text v) :
    chr '\n' ∉ text := by
  obtain ⟨before, negative, body, n, after, rfl, hnum, -⟩ := h
  have hblank : chr '\n' ≠ chr ' ' := by decide
  have hsign : chr '\n' ∉ sign negative := by cases negative <;> decide
  simp [hblank, hsign, hnum.newline_notMem]

/-- `xatoi` reads back what `xvprintf` has printed in decimal, or behind `0x`, `0` or `0b`, with any
padding that does not come into the number; of a binary number that is the lowest 24 bits. -/
theorem xatoi_xvprintf {v : Conversion} {n : BitVec 32} (hv : v.Readable n) {rest : List Byte}
    (hends : Ends rest) :
    ∃ out blanks, xvprintf (numberFormat v hv.1).text [.word n] = some out ∧
      xatoi (out ++ rest) = ⟨true, readBack v.kind n, List.replicate blanks (chr ' ') ++ rest⟩ := by
  obtain ⟨text, htext, hshape⟩ := shape_render hv.1 hv
  have hargs : ∀ a ∈ [Arg.word n], a.Valid := by simp [Arg.Valid]
  have hloop : loop (numberFormat v hv.1).text.chars.length (numberFormat v hv.1).text.chars
      [.word n] = some text := (loop_eq (numberFormat v hv.1).valid le_rfl hargs).trans htext
  have hprint : xvprintf (numberFormat v hv.1).text [.word n] = some text := by
    rw [xvprintf, hloop, Option.map_some, flatMap_xputc hshape.newline_notMem]
  obtain ⟨before, negative, body, m, after, rfl, hnum, hvalue⟩ := hshape
  refine ⟨_, after, hprint, ?_⟩
  have hends' : Ends (List.replicate after (chr ' ') ++ rest) := by
    cases after with
    | zero => exact hends
    | succ k => exact BitVec.le_refl (chr ' ')
  rw [← hvalue, ← xatoi_numeral before negative hnum hends']
  simp only [List.append_assoc]

/-- `%6d`. -/
def sixWide : Conversion := ⟨.none, 6, false, .d, false⟩

/-- `%x`. -/
def plainHex : Conversion := ⟨.none, 0, false, .x, false⟩

lemma readable_sixWide : sixWide.Readable (-200) := ⟨by decide, nofun⟩

lemma readable_plainHex : plainHex.Readable 255 := ⟨by decide, fun _ _ _ => Nat.zero_le _⟩

/-- `"%6d"` and `"0x%x"`. -/
theorem xatoi_xvprintf_decimal_hex :
    (∃ out blanks,
      xvprintf (numberFormat sixWide readable_sixWide.1).text [.word (-200)] = some out ∧
        xatoi (out ++ [chr ' ', chr '5']) =
          ⟨true, -200, List.replicate blanks (chr ' ') ++ [chr ' ', chr '5']⟩) ∧
      ∃ out blanks,
        xvprintf (numberFormat plainHex readable_plainHex.1).text [.word 255] = some out ∧
          xatoi (out ++ [chr ' ', chr '5']) =
            ⟨true, 255, List.replicate blanks (chr ' ') ++ [chr ' ', chr '5']⟩ :=
  ⟨xatoi_xvprintf readable_sixWide (by decide), xatoi_xvprintf readable_plainHex (by decide)⟩

end BcmMruby.Xprintf
