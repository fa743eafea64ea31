import BcmMruby.Core.Bytes

/-!
# Formatted output

`xvprintf` of `xprintf.c`: all messages of the firmware go through it. `render` says what a format
means that is given as literal characters and conversions, and `xvprintf_text` that `xvprintf`
makes the same of its text. A number is converted into a buffer of 24 characters.
-/

namespace BcmMruby.Xprintf

open Core

/-! ### The code -/

/-- What `xputc` writes. -/
def xputc (c : Byte) : List Byte := if c = chr '\n' then [chr '\r', c] else [c]

/-- An argument as `va_arg` gets it. -/
inductive Arg where
  | word (v : BitVec 32)
  | str (p : CString)

/-- The flags `f`, but for the size: `long` is as long as `int`. -/
inductive Flag where
  | none
  | zero
  | left
  deriving DecidableEq

def isDigit (c : Byte) : Bool := chr '0' ≤ c && c ≤ chr '9'

/-- The first character behind the `%`, and what follows. -/
def flag : List Byte → Flag × List Byte
  | [] => (.none, [])
  | c :: fmt =>
    if c = chr '0' then (.zero, fmt) else if c = chr '-' then (.left, fmt) else (.none, c :: fmt)

/-- `w * 10 + c - '0'` for every digit. -/
def minWidth (w : BitVec 32) : List Byte → BitVec 32 × List Byte
  | [] => (w, [])
  | c :: fmt =>
    if isDigit c then minWidth (w * 10 + c.setWidth 32 - 0x30) fmt else (w, c :: fmt)

def size : List Byte → List Byte
  | [] => []
  | c :: fmt => if c = chr 'l' ∨ c = chr 'L' then fmt else c :: fmt

/-- The type as a capital letter; characters are signed. -/
def typeOf (c : Byte) : Byte := if 0x61 ≤ c.toInt then c - 0x20 else c

/-- `while (!(f & 2) && j++ < w)`: the number of turns, and `j` after them. -/
def padBefore (f : Flag) (j w : BitVec 32) : ℕ × BitVec 32 :=
  if f = .left then (0, j) else (w.toNat - j.toNat, (if j < w then w else j) + 1)

/-- `while (j++ < w)`. -/
def padAfter (j w : BitVec 32) : ℕ := w.toNat - j.toNat

/-- The characters handed to `xputc` for a text that is padded. -/
def padded (f : Flag) (pad : Byte) (w : BitVec 32) (text : List Byte) : List Byte :=
  let (n, j) := padBefore f (BitVec.ofNat 32 text.length) w
  List.replicate n pad ++ text ++ List.replicate (padAfter j w) (chr ' ')

/-- A digit, for the type `c`. -/
def digit (c : Byte) (d : ℕ) : Byte :=
  BitVec.ofNat 8 ((if 9 < d then d + if c = chr 'x' then 0x27 else 0x07 else d) + 0x30)

/-- The loop that fills `s`, with room for so many characters. -/
def numeral (c : Byte) (r : ℕ) : ℕ → ℕ → List Byte
  | 0, _ => []
  | room + 1, vs => digit c (vs % r) :: if vs / r ≠ 0 then numeral c r room (vs / r) else []

/-- `sizeof s`. -/
def sizeofS : ℕ := 24

def radix (d : Byte) : Option ℕ :=
  if d = chr 'B' then some 2
  else if d = chr 'O' then some 8
  else if d = chr 'D' ∨ d = chr 'U' then some 10
  else if d = chr 'X' then some 16
  else none

/-- The characters of a number. -/
def number (c : Byte) (f : Flag) (w : BitVec 32) (r : ℕ) (v : BitVec 32) : List Byte :=
  let negative := typeOf c = chr 'D' ∧ v.toInt < 0
  let vs := if negative then 0 - v else v
  let s := numeral c r sizeofS vs.toNat ++ if negative then [chr '-'] else []
  padded f (if f = .zero then chr '0' else chr ' ') w s.reverse

/-- What a conversion puts out, and the arguments that are left; `none` is an argument that is
missing or of another type. -/
def convert (c : Byte) (f : Flag) (w : BitVec 32) (args : List Arg) :
    Option (List Byte × List Arg) :=
  if typeOf c = chr 'S' then
    match args with
    | .str p :: args => some (padded f (chr ' ') w p.chars, args)
    | _ => none
  else if typeOf c = chr 'C' then
    match args with
    | .word v :: args => some ([v.setWidth 8], args)
    | _ => none
  else
    match radix (typeOf c) with
    | some r =>
      match args with
      | .word v :: args => some (number c f w r v, args)
      | _ => none
    | none => some ([c], args)

/-- The characters handed to `xputc`, one after the other. Every turn takes a character of the
format at least, so that its length is fuel enough. -/
def loop : ℕ → List Byte → List Arg → Option (List Byte)
  | 0, _, _ => some []
  | _ + 1, [], _ => some []
  | fuel + 1, c :: fmt, args =>
    if c ≠ chr '%' then (loop fuel fmt args).map (c :: ·)
    else
      let (f, fmt) := flag fmt
      let (w, fmt) := minWidth 0 fmt
      match size fmt with
      | [] => some []
      | c :: fmt => (convert c f w args).bind fun p => (loop fuel fmt p.2).map (p.1 ++ ·)

/-- What goes to the device, or to memory for `xsprintf`. -/
def xvprintf (fmt : CString) (args : List Arg) : Option (List Byte) :=
  (loop fmt.chars.length fmt.chars args).map (·.flatMap xputc)

/-! ### What a format means -/

inductive Kind where
  | s
  | c
  | b
  | o
  | d
  | u
  | x
  | percent
  deriving DecidableEq

structure Conversion where
  flag : Flag
  width : ℕ
  long : Bool
  kind : Kind
  /-- The letter is a capital one. -/
  upper : Bool

inductive Piece where
  | lit (c : Byte)
  | conv (v : Conversion)

def Kind.letter : Kind → Byte
  | .s => chr 's'
  | .c => chr 'c'
  | .b => chr 'b'
  | .o => chr 'o'
  | .d => chr 'd'
  | .u => chr 'u'
  | .x => chr 'x'
  | .percent => chr '%'

def Conversion.letter (v : Conversion) : Byte :=
  if v.upper then typeOf v.kind.letter else v.kind.letter

def Flag.text : Flag → List Byte
  | .none => []
  | .zero => [chr '0']
  | .left => [chr '-']

def decimal (d : ℕ) : Byte := BitVec.ofNat 8 (0x30 + d)

def widthText (w : ℕ) : List Byte := (Nat.digits 10 w).reverse.map decimal

def Conversion.sizeText (v : Conversion) : List Byte := if v.long then [chr 'l'] else []

def Piece.text : Piece → List Byte
  | .lit c => [c]
  | .conv v => chr '%' :: (v.flag.text ++ (widthText v.width ++ (v.sizeText ++ [v.letter])))

/-- Literal characters are not `%`, and a width can be counted up to. -/
def Piece.Valid : Piece → Prop
  | .lit c => c ≠ chr '%' ∧ c ≠ 0
  | .conv v => v.width + 1 < 2 ^ 32

/-- A string may be measured with an `unsigned int`. -/
def Arg.Valid : Arg → Prop
  | .word _ => True
  | .str p => p.chars.length + 1 < 2 ^ 32

/-- A text as wide as asked for. -/
def fill (f : Flag) (pad : Byte) (width : ℕ) (text : List Byte) : List Byte :=
  if f = .left then text ++ List.replicate (width - text.length) (chr ' ')
  else List.replicate (width - text.length) pad ++ text

def digitText (upper : Bool) (d : ℕ) : Byte :=
  if d < 10 then decimal d else BitVec.ofNat 8 ((if upper then 0x41 else 0x61) + (d - 10))

/-- The 24 lowest digits. -/
def natText (upper : Bool) (r n : ℕ) : List Byte :=
  if n = 0 then [chr '0'] else (((Nat.digits r n).take sizeofS).map (digitText upper)).reverse

/-- The numeral of a word. -/
def Conversion.numeralText (v : Conversion) (n : BitVec 32) : Option (List Byte) :=
  match v.kind with
  | .b => some (natText v.upper 2 n.toNat)
  | .o => some (natText v.upper 8 n.toNat)
  | .d => some ((if n.toInt < 0 then [chr '-'] else []) ++ natText v.upper 10 n.toInt.natAbs)
  | .u => some (natText v.upper 10 n.toNat)
  | .x => some (natText v.upper 16 n.toNat)
  | _ => none

def Conversion.render (v : Conversion) (args : List Arg) : Option (List Byte × List Arg) :=
  match v.kind, args with
  | .percent, args => some ([chr '%'], args)
  | .s, .str p :: args => some (fill v.flag (chr ' ') v.width p.chars, args)
  | .c, .word n :: args => some ([n.setWidth 8], args)
  | _, .word n :: args => (v.numeralText n).map fun text =>
    (fill v.flag (if v.flag = .zero then chr '0' else chr ' ') v.width text, args)
  | _, _ => none

def render : List Piece → List Arg → Option (List Byte)
  | [], _ => some []
  | .lit c :: ps, args => (render ps args).map (c :: ·)
  | .conv v :: ps, args => (v.render args).bind fun p => (render ps p.2).map (p.1 ++ ·)

/-! ### Numbers -/

lemma padded_eq {f : Flag} {pad : Byte} {width : ℕ} {text : List Byte}
    (hwidth : width + 1 < 2 ^ 32) (htext : text.length + 1 < 2 ^ 32) :
    padded f pad (BitVec.ofNat 32 width) text = fill f pad width text := by
  have hw : (BitVec.ofNat 32 width).toNat = width := by
    rw [BitVec.toNat_ofNat, Nat.mod_eq_of_lt (by omega)]
  have ht : (BitVec.ofNat 32 text.length).toNat = text.length := by
    rw [BitVec.toNat_ofNat, Nat.mod_eq_of_lt (by omega)]
  by_cases hleft : f = .left
  · simp [padded, padBefore, padAfter, fill, hleft, hw, ht]
  · have hj : ((if BitVec.ofNat 32 text.length < BitVec.ofNat 32 width then BitVec.ofNat 32 width
        else BitVec.ofNat 32 text.length) + 1).toNat = max text.length width + 1 := by
      have hone : (1 : BitVec 32).toNat = 1 := rfl
      rw [BitVec.toNat_add, hone]
      split_ifs with hlt
      · rw [BitVec.lt_def, hw, ht] at hlt
        rw [hw]
        omega
      · rw [BitVec.lt_def, hw, ht] at hlt
        rw [ht]
        omega
    have hafter : width - (max text.length width + 1) = 0 := by omega
    simp only [padded, padBefore, padAfter, fill, if_neg hleft, hw, ht, hj, hafter,
      List.replicate_zero, List.append_nil]

lemma numeral_eq (c : Byte) {r : ℕ} (hr : 1 < r) (room : ℕ) {vs : ℕ} (hvs : vs ≠ 0) :
    numeral c r room vs = ((Nat.digits r vs).take room).map (digit c) := by
  induction room generalizing vs with
  | zero => rfl
  | succ room ih =>
    rw [numeral, Nat.digits_def' hr (Nat.pos_of_ne_zero hvs), List.take_succ_cons, List.map_cons]
    by_cases hdiv : vs / r = 0
    · simp [hdiv]
    · rw [if_pos hdiv, ih hdiv]

lemma digit_eq {c : Byte} {upper : Bool} (hc : upper = false ↔ c = chr 'x') {d : ℕ} (hd : d < 16) :
    digit c d = digitText upper d := by
  by_cases hx : c = chr 'x'
  · rw [digit, if_pos hx, hc.mpr hx]
    interval_cases d <;> decide
  · have hupper : upper = true := by simpa [hx] using hc
    rw [digit, if_neg hx, hupper]
    interval_cases d <;> decide

/-- Below 10 there are no letters. -/
lemma digit_eq_of_lt {c : Byte} {upper : Bool} {d : ℕ} (hd : d < 10) :
    digit c d = digitText upper d := by
  have hle : ¬ 9 < d := by omega
  rw [digit, digitText, if_neg hle, if_pos hd, decimal, Nat.add_comm]

lemma reverse_numeral {c : Byte} {upper : Bool} {r : ℕ} (hr : 1 < r)
    (hdigit : ∀ d < r, digit c d = digitText upper d) (n : ℕ) :
    (numeral c r sizeofS n).reverse = natText upper r n := by
  rw [natText]
  split_ifs with hn
  · have hzero := hdigit 0 (by omega)
    have hchr : digitText upper 0 = chr '0' := rfl
    simp [hn, numeral, sizeofS, hzero, hchr]
  · rw [numeral_eq c hr sizeofS hn]
    congr 1
    refine List.map_congr_left fun d hd => hdigit d ?_
    exact Nat.digits_lt_base hr (List.mem_of_mem_take hd)

lemma length_natText_le (upper : Bool) (r n : ℕ) : (natText upper r n).length ≤ sizeofS := by
  rw [natText]
  split_ifs
  · decide
  · simp

lemma typeOf_letter (v : Conversion) : typeOf v.letter = typeOf v.kind.letter := by
  rw [Conversion.letter]
  cases v.upper <;> cases v.kind <;> decide

lemma toNat_zero_sub {n : BitVec 32} (hn : n.toInt < 0) : (0 - n).toNat = n.toInt.natAbs := by
  have hlt := n.isLt
  have hzero : (0 : BitVec 32).toNat = 0 := rfl
  rw [BitVec.toInt_eq_toNat_cond] at hn ⊢
  rw [BitVec.toNat_sub, hzero]
  split_ifs at hn ⊢ <;> omega

lemma toNat_of_nonneg {n : BitVec 32} (hn : ¬ n.toInt < 0) : n.toNat = n.toInt.natAbs := by
  have hlt := n.isLt
  rw [BitVec.toInt_eq_toNat_cond] at hn ⊢
  split_ifs at hn ⊢ <;> omega

/-- The characters of a number that is not printed as a signed one. -/
lemma number_unsigned {c : Byte} {f : Flag} {width r : ℕ} {upper : Bool} (hr : 1 < r)
    (hc : typeOf c ≠ chr 'D') (hdigit : ∀ d < r, digit c d = digitText upper d)
    (hwidth : width + 1 < 2 ^ 32) (n : BitVec 32) :
    number c f (BitVec.ofNat 32 width) r n =
      fill f (if f = .zero then chr '0' else chr ' ') width (natText upper r n.toNat) := by
  have hlen := length_natText_le upper r n.toNat
  have hsize : sizeofS = 24 := rfl
  have hnot : ¬ (typeOf c = chr 'D' ∧ n.toInt < 0) := fun h => hc h.1
  simp only [number, if_neg hnot, List.append_nil, reverse_numeral hr hdigit]
  exact padded_eq hwidth (by omega)

lemma number_signed {c : Byte} {f : Flag} {width : ℕ} (upper : Bool) (hc : typeOf c = chr 'D')
    (hwidth : width + 1 < 2 ^ 32) (n : BitVec 32) :
    number c f (BitVec.ofNat 32 width) 10 n =
      fill f (if f = .zero then chr '0' else chr ' ') width
        ((if n.toInt < 0 then [chr '-'] else []) ++ natText upper 10 n.toInt.natAbs) := by
  have hlen := length_natText_le upper 10 n.toInt.natAbs
  have hsize : sizeofS = 24 := rfl
  have hdigit : ∀ d < 10, digit c d = digitText upper d := fun d hd => digit_eq_of_lt hd
  by_cases hn : n.toInt < 0
  · have hboth : typeOf c = chr 'D' ∧ n.toInt < 0 := ⟨hc, hn⟩
    simp only [number, if_pos hboth, if_pos hn, List.reverse_append, List.reverse_singleton,
      toNat_zero_sub hn, reverse_numeral (by decide) hdigit]
    exact padded_eq hwidth (by simp; omega)
  · have hnot : ¬ (typeOf c = chr 'D' ∧ n.toInt < 0) := fun h => hn h.2
    simp only [number, if_neg hnot, if_neg hn, List.append_nil, List.nil_append,
      toNat_of_nonneg hn, reverse_numeral (by decide) hdigit]
    exact padded_eq hwidth (by omega)

/-! ### Conversions -/

/-- A conversion to a numeral takes a word. -/
lemma convert_number {c : Byte} {r : ℕ} (hs : typeOf c ≠ chr 'S') (hc : typeOf c ≠ chr 'C')
    (hr : radix (typeOf c) = some r) (f : Flag) (w : BitVec 32) (args : List Arg) :
    convert c f w args =
      match args with
      | .word v :: args => some (number c f w r v, args)
      | _ => none := by
  simp only [convert, if_neg hs, if_neg hc, hr]

/-- What a numeral makes of the first argument. -/
def takeWord (f : List Arg → BitVec 32 → List Byte × List Arg) :
    List Arg → Option (List Byte × List Arg)
  | .word n :: args => some (f args n)
  | _ => none

lemma convert_unsigned {v : Conversion} (hv : v.width + 1 < 2 ^ 32) {r : ℕ} (hr : 1 < r)
    (hs : typeOf v.letter ≠ chr 'S') (hc : typeOf v.letter ≠ chr 'C')
    (hd : typeOf v.letter ≠ chr 'D') (hradix : radix (typeOf v.letter) = some r)
    (hdigit : ∀ d < r, digit v.letter d = digitText v.upper d) (args : List Arg) :
    convert v.letter v.flag (BitVec.ofNat 32 v.width) args = takeWord (fun args n =>
      (fill v.flag (if v.flag = .zero then chr '0' else chr ' ') v.width
        (natText v.upper r n.toNat), args)) args := by
  rw [convert_number hs hc hradix]
  rcases args with - | ⟨n | p, args⟩
  · rfl
  · simp only [takeWord, number_unsigned hr hd hdigit hv]
  · rfl

/-- For a numeral, `render` takes a word as well. -/
lemma render_eq_takeWord {v : Conversion} (hp : v.kind ≠ .percent) (hs : v.kind ≠ .s)
    (hc : v.kind ≠ .c) {text : BitVec 32 → List Byte} (h : ∀ n, v.numeralText n = some (text n))
    (args : List Arg) :
    v.render args = takeWord (fun args n =>
      (fill v.flag (if v.flag = .zero then chr '0' else chr ' ') v.width (text n), args)) args := by
  cases hkind : v.kind with
  | percent => exact absurd hkind hp
  | s => exact absurd hkind hs
  | c => exact absurd hkind hc
  | b | o | d | u | x =>
    rcases args with - | ⟨n | p, args⟩ <;> simp [Conversion.render, hkind, takeWord, h]

lemma convert_eq {v : Conversion} (hv : v.width + 1 < 2 ^ 32) {args : List Arg}
    (hargs : ∀ a ∈ args, a.Valid) :
    convert v.letter v.flag (BitVec.ofNat 32 v.width) args = v.render args := by
  have htype := typeOf_letter v
  have hsmall : ∀ r ≤ 10, ∀ d < r, digit v.letter d = digitText v.upper d :=
    fun r hr d hd => digit_eq_of_lt (by omega)
  have hunsigned : ∀ r, 1 < r → typeOf v.letter ≠ chr 'S' → typeOf v.letter ≠ chr 'C' →
      typeOf v.letter ≠ chr 'D' → radix (typeOf v.letter) = some r →
      (∀ d < r, digit v.letter d = digitText v.upper d) →
      v.kind ≠ .percent → v.kind ≠ .s → v.kind ≠ .c →
      (∀ n, v.numeralText n = some (natText v.upper r n.toNat)) →
      convert v.letter v.flag (BitVec.ofNat 32 v.width) args = v.render args := by
    intro r hr hs hc hd hradix hdigit hp hs' hc' htext
    rw [convert_unsigned hv hr hs hc hd hradix hdigit]
    exact (render_eq_takeWord hp hs' hc' htext args).symm
  cases hkind : v.kind <;> rw [hkind] at htype
  case s =>
    have hs : typeOf v.letter = chr 'S' := htype
    unfold convert
    rw [if_pos hs]
    rcases args with - | ⟨n | p, args⟩
    · simp [Conversion.render, hkind]
    · simp [Conversion.render, hkind, Conversion.numeralText]
    · have hlen : p.chars.length + 1 < 2 ^ 32 := hargs _ List.mem_cons_self
      simp only [Conversion.render, hkind, padded_eq hv hlen]
  case c =>
    have hs : typeOf v.letter ≠ chr 'S' := by rw [htype]; decide
    have hc : typeOf v.letter = chr 'C' := htype
    unfold convert
    rw [if_neg hs, if_pos hc]
    rcases args with - | ⟨n | p, args⟩ <;> simp [Conversion.render, hkind]
  case percent =>
    have hs : typeOf v.letter ≠ chr 'S' := by rw [htype]; decide
    have hc : typeOf v.letter ≠ chr 'C' := by rw [htype]; decide
    have hradix : radix (typeOf v.letter) = none := by rw [htype]; decide
    have hletter : v.letter = chr '%' := by
      rw [Conversion.letter, hkind]
      cases v.upper <;> decide
    unfold convert
    rw [if_neg hs, if_neg hc, hradix, hletter]
    simp only [Conversion.render, hkind]
  case d =>
    have hs : typeOf v.letter ≠ chr 'S' := by rw [htype]; decide
    have hc : typeOf v.letter ≠ chr 'C' := by rw [htype]; decide
    have hd : typeOf v.letter = chr 'D' := htype
    have hradix : radix (typeOf v.letter) = some 10 := by rw [htype]; decide
    have htext : ∀ n, v.numeralText n = some ((if n.toInt < 0 then [chr '-'] else []) ++
        natText v.upper 10 n.toInt.natAbs) := fun n => by simp only [Conversion.numeralText, hkind]
    rw [convert_number hs hc hradix, render_eq_takeWord (by simp [hkind]) (by simp [hkind])
      (by simp [hkind]) htext]
    rcases args with - | ⟨n | p, args⟩
    · rfl
    · simp only [takeWord, number_signed v.upper hd hv]
    · rfl
  case x =>
    have hletter : v.upper = false ↔ v.letter = chr 'x' := by
      rw [Conversion.letter, hkind]
      cases v.upper <;> decide
    exact hunsigned 16 (by decide) (by rw [htype]; decide) (by rw [htype]; decide)
      (by rw [htype]; decide) (by rw [htype]; decide) (fun d hd => digit_eq hletter hd)
      (by simp [hkind]) (by simp [hkind]) (by simp [hkind])
      fun n => by simp only [Conversion.numeralText, hkind]
  case b =>
    exact hunsigned 2 (by decide) (by rw [htype]; decide) (by rw [htype]; decide)
      (by rw [htype]; decide) (by rw [htype]; decide) (hsmall 2 (by decide)) (by simp [hkind])
      (by simp [hkind]) (by simp [hkind]) fun n => by simp only [Conversion.numeralText, hkind]
  case o =>
    exact hunsigned 8 (by decide) (by rw [htype]; decide) (by rw [htype]; decide)
      (by rw [htype]; decide) (by rw [htype]; decide) (hsmall 8 (by decide)) (by simp [hkind])
      (by simp [hkind]) (by simp [hkind]) fun n => by simp only [Conversion.numeralText, hkind]
  case u =>
    exact hunsigned 10 (by decide) (by rw [htype]; decide) (by rw [htype]; decide)
      (by rw [htype]; decide) (by rw [htype]; decide) (hsmall 10 le_rfl) (by simp [hkind])
      (by simp [hkind]) (by simp [hkind]) fun n => by simp only [Conversion.numeralText, hkind]

lemma render_mem {v : Conversion} {args rest : List Arg} {text : List Byte}
    (h : v.render args = some (text, rest)) {a : Arg} (ha : a ∈ rest) : a ∈ args := by
  unfold Conversion.render at h
  split at h
  · obtain ⟨-, rfl⟩ := Prod.mk.inj (Option.some.inj h)
    exact ha
  · obtain ⟨-, rfl⟩ := Prod.mk.inj (Option.some.inj h)
    exact List.mem_cons_of_mem _ ha
  · obtain ⟨-, rfl⟩ := Prod.mk.inj (Option.some.inj h)
    exact List.mem_cons_of_mem _ ha
  · obtain ⟨numeral, -, hpair⟩ := Option.map_eq_some_iff.mp h
    obtain ⟨-, rfl⟩ := Prod.mk.inj hpair
    exact List.mem_cons_of_mem _ ha
  · cases h

/-! ### The text of a conversion -/

lemma isDigit_decimal {d : ℕ} (hd : d < 10) : isDigit (decimal d) = true := by
  interval_cases d <;> decide

lemma setWidth_decimal {d : ℕ} (hd : d < 10) (k : ℕ) :
    BitVec.ofNat 32 k * 10 + (decimal d).setWidth 32 - 0x30 = BitVec.ofNat 32 (k * 10 + d) := by
  have hdigit : (decimal d).setWidth 32 = BitVec.ofNat 32 d + 0x30 := by
    interval_cases d <;> decide
  rw [hdigit, ← BitVec.add_assoc, BitVec.add_sub_cancel, BitVec.ofNat_add, BitVec.ofNat_mul]
  rfl

lemma minWidth_decimal {ds : List ℕ} (hds : ∀ d ∈ ds, d < 10) (k : ℕ) {c : Byte}
    (hc : isDigit c = false) (fmt : List Byte) :
    minWidth (BitVec.ofNat 32 k) (ds.map decimal ++ c :: fmt) =
      (BitVec.ofNat 32 (ds.foldl (fun k d => k * 10 + d) k), c :: fmt) := by
  induction ds generalizing k with
  | nil => simp [minWidth, hc]
  | cons d ds ih =>
    have hd := hds d List.mem_cons_self
    rw [List.map_cons, List.cons_append, minWidth, if_pos (isDigit_decimal hd),
      setWidth_decimal hd, ih (fun x hx => hds x (List.mem_cons_of_mem _ hx)), List.foldl_cons]

/-- The most significant digit comes first. -/
lemma foldl_reverse_eq_ofDigits (r : ℕ) (ds : List ℕ) :
    ds.reverse.foldl (fun k d => k * r + d) 0 = Nat.ofDigits r ds := by
  rw [Nat.ofDigits_eq_foldr, List.foldl_reverse]
  congr 1
  funext d k
  rw [Nat.cast_id, Nat.mul_comm, Nat.add_comm]

lemma minWidth_widthText (width : ℕ) {c : Byte} (hc : isDigit c = false) (fmt : List Byte) :
    minWidth 0 (widthText width ++ c :: fmt) = (BitVec.ofNat 32 width, c :: fmt) := by
  have hds : ∀ d ∈ (Nat.digits 10 width).reverse, d < 10 := fun d hd =>
    Nat.digits_lt_base (by decide) (List.mem_reverse.mp hd)
  have h := minWidth_decimal hds 0 hc fmt
  rwa [foldl_reverse_eq_ofDigits, Nat.ofDigits_digits] at h

/-- A width is not taken for a flag. -/
lemma head_widthText {width : ℕ} (hwidth : width ≠ 0) :
    ∃ c fmt, widthText width = c :: fmt ∧ c ≠ chr '0' ∧ c ≠ chr '-' := by
  have hne : Nat.digits 10 width ≠ [] := Nat.digits_ne_nil_iff_ne_zero.mpr hwidth
  have hlast := Nat.getLast_digit_ne_zero 10 hwidth
  have hlt : (Nat.digits 10 width).getLast hne < 10 :=
    Nat.digits_lt_base (by decide) (List.getLast_mem hne)
  refine ⟨decimal ((Nat.digits 10 width).getLast hne),
    (Nat.digits 10 width).dropLast.reverse.map decimal, ?_, ?_⟩
  · rw [widthText]
    conv_lhs => rw [← List.dropLast_append_getLast hne]
    rw [List.reverse_append, List.reverse_singleton, List.singleton_append, List.map_cons]
  · revert hlast hlt
    generalize (Nat.digits 10 width).getLast hne = d
    intro hlast hlt
    interval_cases d <;> first | exact absurd rfl hlast | decide

lemma flag_text (f : Flag) {c : Byte} (fmt : List Byte) (h₀ : c ≠ chr '0') (h₁ : c ≠ chr '-') :
    flag (f.text ++ c :: fmt) = (f, c :: fmt) := by
  have hminus : chr '-' ≠ chr '0' := by decide
  cases f
  · simp [Flag.text, flag, h₀, h₁]
  · simp [Flag.text, flag]
  · simp [Flag.text, flag, hminus]

/-- Where the letter of a conversion stands, nothing else is expected. -/
lemma letter_ne (v : Conversion) :
    isDigit v.letter = false ∧ v.letter ≠ chr '-' ∧ v.letter ≠ chr 'l' ∧ v.letter ≠ chr 'L' ∧
      v.letter ≠ 0 := by
  rw [Conversion.letter]
  cases v.upper <;> cases v.kind <;> decide

lemma size_text (v : Conversion) (fmt : List Byte) :
    size (v.sizeText ++ v.letter :: fmt) = v.letter :: fmt := by
  obtain ⟨-, -, hl, hL, -⟩ := letter_ne v
  rw [Conversion.sizeText]
  cases v.long
  · simp [size, hl, hL]
  · simp [size]

/-- Behind the width comes the size or the letter. -/
lemma head_sizeText (v : Conversion) (fmt : List Byte) :
    ∃ c fmt', v.sizeText ++ v.letter :: fmt = c :: fmt' ∧ isDigit c = false ∧ c ≠ chr '-' := by
  obtain ⟨hdigit, hminus, -⟩ := letter_ne v
  rw [Conversion.sizeText]
  cases v.long
  · exact ⟨_, _, rfl, hdigit, hminus⟩
  · exact ⟨_, _, rfl, by decide, by decide⟩

lemma isDigit_zero : isDigit (chr '0') = true := by decide

/-- The loop reads the flag, the width and the letter of a conversion back from its text. -/
lemma loop_conv {v : Conversion} (fuel : ℕ) (fmt : List Byte) (args : List Arg) :
    loop (fuel + 1) ((Piece.conv v).text ++ fmt) args =
      (convert v.letter v.flag (BitVec.ofNat 32 v.width) args).bind fun p =>
        (loop fuel fmt p.2).map (p.1 ++ ·) := by
  obtain ⟨c, fmt', hsize, hdigit, hminus⟩ := head_sizeText v fmt
  have hflag : flag (v.flag.text ++ (widthText v.width ++ c :: fmt')) =
      (v.flag, widthText v.width ++ c :: fmt') := by
    by_cases hwidth : v.width = 0
    · have hzero : c ≠ chr '0' := fun h => by
        rw [h, isDigit_zero] at hdigit
        cases hdigit
      rw [hwidth, widthText, Nat.digits_zero, List.reverse_nil, List.map_nil, List.nil_append]
      exact flag_text v.flag fmt' hzero hminus
    · obtain ⟨d, ds, hd, hzero, hminus⟩ := head_widthText hwidth
      rw [hd, List.cons_append]
      exact flag_text v.flag _ hzero hminus
  have htext : (Piece.conv v).text ++ fmt =
      chr '%' :: (v.flag.text ++ (widthText v.width ++ c :: fmt')) := by
    simp only [Piece.text, List.cons_append, List.append_assoc, List.nil_append, hsize]
  have hsize' : size (c :: fmt') = v.letter :: fmt := by rw [← hsize, size_text]
  rw [htext, loop]
  simp only [ne_eq, not_true_eq_false, if_false, hflag, minWidth_widthText _ hdigit, hsize']

/-! ### The whole format -/

/-- A format in pieces. -/
structure Format where
  pieces : List Piece
  valid : ∀ p ∈ pieces, p.Valid

lemma nul_notMem_text {p : Piece} (hp : p.Valid) : 0 ∉ p.text := by
  cases p with
  | lit c => simpa [Piece.text] using fun h => hp.2 h.symm
  | conv v =>
    obtain ⟨-, -, -, -, hletter⟩ := letter_ne v
    have hflag : 0 ∉ v.flag.text := by cases v.flag <;> decide
    have hsize : 0 ∉ v.sizeText := by
      rw [Conversion.sizeText]
      cases v.long <;> decide
    have hwidth : 0 ∉ widthText v.width := by
      rw [widthText, List.mem_map]
      rintro ⟨d, hd, hzero⟩
      have hlt : d < 10 := Nat.digits_lt_base (by decide) (List.mem_reverse.mp hd)
      interval_cases d <;> exact absurd hzero (by decide)
    have hpercent : (0 : Byte) ≠ chr '%' := by decide
    simp only [Piece.text, List.mem_cons, List.mem_append, List.not_mem_nil, or_false, not_or]
    exact ⟨hpercent, hflag, hwidth, hsize, Ne.symm hletter⟩

/-- The string that a program passes. -/
def Format.text (F : Format) : CString where
  chars := F.pieces.flatMap Piece.text
  nul_notMem h := by
    obtain ⟨p, hp, hmem⟩ := List.mem_flatMap.mp h
    exact nul_notMem_text (F.valid p hp) hmem

lemma loop_eq {ps : List Piece} (hps : ∀ p ∈ ps, p.Valid) {fuel : ℕ}
    (hfuel : (ps.flatMap Piece.text).length ≤ fuel) {args : List Arg}
    (hargs : ∀ a ∈ args, a.Valid) : loop fuel (ps.flatMap Piece.text) args = render ps args := by
  induction ps generalizing fuel args with
  | nil => cases fuel <;> rfl
  | cons p ps ih =>
    have hp := hps p List.mem_cons_self
    have hps' : ∀ q ∈ ps, q.Valid := fun q hq => hps q (List.mem_cons_of_mem _ hq)
    rw [List.flatMap_cons, List.length_append] at hfuel
    rw [List.flatMap_cons]
    cases p with
    | lit c =>
      rw [Piece.text, List.length_singleton] at hfuel
      obtain ⟨fuel, rfl⟩ : ∃ k, fuel = k + 1 := ⟨fuel - 1, by omega⟩
      rw [Piece.text, List.singleton_append, loop, if_pos hp.1, render,
        ih hps' (by omega) hargs]
    | conv v =>
      have hlen : 0 < (Piece.conv v).text.length := by simp [Piece.text]
      obtain ⟨fuel, rfl⟩ : ∃ k, fuel = k + 1 := ⟨fuel - 1, by omega⟩
      rw [loop_conv, convert_eq hp hargs, render]
      cases hv : v.render args with
      | none => rfl
      | some q =>
        simp only [Option.bind_some]
        rw [ih hps' (by omega) fun a ha => hargs a (render_mem hv ha)]

/-- `xvprintf` puts out what the pieces of the format mean: every literal character, and every
argument in the radix, the width and with the padding of its conversion. -/
theorem xvprintf_text (F : Format) {args : List Arg} (hargs : ∀ a ∈ args, a.Valid) :
    xvprintf F.text args = (render F.pieces args).map (·.flatMap xputc) := by
  rw [xvprintf]
  congr 1
  exact loop_eq F.valid le_rfl hargs

/-- `"%6d,%3d%%"`, an example of the source. -/
def percentFormat : Format where
  pieces := [.conv ⟨.none, 6, false, .d, false⟩, .lit (chr ','),
    .conv ⟨.none, 3, false, .d, false⟩, .conv ⟨.none, 0, false, .percent, false⟩]
  valid := by
    intro p hp
    fin_cases hp <;> simp only [Piece.Valid] <;> decide

theorem xvprintf_text_percent :
    percentFormat.text.chars = "%6d,%3d%%".toList.map chr ∧
      xvprintf percentFormat.text [.word (-200), .word 5] =
        some ("  -200,  5%".toList.map chr) := by
  refine ⟨by decide +kernel, ?_⟩
  rw [xvprintf_text percentFormat (by simp [Arg.Valid])]
  decide +kernel

end BcmMruby.Xprintf
