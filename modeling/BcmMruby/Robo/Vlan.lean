import Mathlib.Data.List.TakeWhile
import BcmMruby.Core.Bytes

/-!
# The ports of a VLAN

`robo_config_vlan` takes the ports of a VLAN from a string in `nvram`, as in `1 2 3 4 5*`. Ports 0
to 4 are sockets, port 5 is the CPU. The registers of the static ARL entries, which are written
between the port tags and the VLAN write word, have no part in it.
-/

namespace BcmMruby.Robo

open Core

/-- A line of the table of ports. -/
structure PortDesc where
  untag : BitVec 16
  member : BitVec 16
  ptagr : Byte
  cpu : Bool
  deriving DecidableEq

def pdesc : List PortDesc := [
  ⟨1 <<< 6, 1 <<< 0, 0x10, false⟩,
  ⟨1 <<< 7, 1 <<< 1, 0x12, false⟩,
  ⟨1 <<< 8, 1 <<< 2, 0x14, false⟩,
  ⟨1 <<< 9, 1 <<< 3, 0x16, false⟩,
  ⟨1 <<< 10, 1 <<< 4, 0x18, false⟩,
  ⟨1 <<< 11, 1 <<< 5, 0x1a, true⟩]

def flagLan : Byte := chr '*'

/-- `print` of `main.c`, for a string at `ptr` that ends within `fuel` characters; a read from where
there is no memory traps. -/
def print (mem : ℕ → Option Byte) : ℕ → ℕ → Option Unit
  | 0, _ => none
  | fuel + 1, ptr => (mem ptr).bind fun c => if c = 0 then some () else print mem fuel (ptr + 1)

structure Vlan where
  untag : BitVec 16
  member : BitVec 16
  /-- What is written to default port tag registers. -/
  ptags : List (Byte × BitVec 16)
  deriving DecidableEq

/-- `strstr(cur, " ")`. -/
def strstrSpace (cur : List Byte) : Option (List Byte) :=
  match cur.dropWhile (· ≠ chr ' ') with
  | [] => none
  | next => some next

/-- `port[0] - '0'`, as it is compared. -/
def pid (port : List Byte) : ℕ := ((port.headD 0).signExtend 32 - (chr '0').signExtend 32).toNat

/-- The registers for a port that is in range. -/
def setPort (vid : BitVec 16) (port : List Byte) (desc : PortDesc) (v : Vlan) : Vlan where
  untag := v.untag ||| desc.untag
  member := v.member ||| desc.member
  ptags :=
    if ¬ desc.cpu ∨ flagLan ∈ port then v.ptags ++ [(desc.ptagr, 0 <<< 13 ||| vid)] else v.ptags

/-- One turn, behind the tokenizing. The macro for the message about a port that is out of range
makes a comma expression of its arguments, and passes the last one, `vid`, to `print`. -/
def portTurn (mem : ℕ → Option Byte) (vid : BitVec 16) (fuel : ℕ) (v : Vlan)
    (token : List Byte) : Option Vlan :=
  let port := token.take 4
  match pdesc[pid port]? with
  | none => (print mem fuel vid.toNat).map fun _ => v
  | some desc => some (setPort vid port desc v)

/-- The loop over the tokens, if it ends within `fuel` turns. -/
def portLoop (mem : ℕ → Option Byte) (vid : BitVec 16) : ℕ → List Byte → Vlan → Option Vlan
  | 0, _, _ => none
  | fuel + 1, cur, v =>
    let cur := cur.dropWhile (· = chr ' ')
    let token := cur.takeWhile (· ≠ chr ' ')
    if token = [] then some v
    else
      (portTurn mem vid fuel v token).bind fun v =>
        match strstrSpace cur with
        | none => some v
        | some next => portLoop mem vid fuel next v

/-- The VLAN write word. -/
def vlanWrite (vid : BitVec 16) (v : Vlan) : BitVec 32 :=
  1 <<< 20 ||| (vid >>> 4).setWidth 32 <<< 12 ||| v.untag.setWidth 32 ||| v.member.setWidth 32

/-! ### What the string says -/

/-- What is between the spaces. -/
def tokens (s : List Byte) : List (List Byte) :=
  (s.splitOnP (· = chr ' ')).filter (· ≠ [])

def digit (n : ℕ) : Byte := chr '0' + BitVec.ofNat 8 n

/-- The decimal number that a token begins with. -/
def leadingNumber (token : List Byte) : Option ℕ :=
  match token.takeWhile (fun c => chr '0' ≤ c ∧ c ≤ chr '9') with
  | [] => none
  | ds => some (ds.foldl (fun n c => 10 * n + (c - chr '0').toNat) 0)

def Listed (s : List Byte) (p : ℕ) : Prop := ∃ t ∈ tokens s, leadingNumber t = some p

/-- The default tag register of a port is to be written. -/
def Tagged (s : List Byte) (p : ℕ) : Prop :=
  Listed s p ∧ (p ≠ 5 ∨ ∃ t ∈ tokens s, leadingNumber t = some p ∧ flagLan ∈ t)

/-- The loop ends, and the registers have the ports that are listed. -/
def Correct (mem : ℕ → Option Byte) (vid : BitVec 16) (s : List Byte) : Prop :=
  ∃ fuel v, portLoop mem vid fuel s ⟨0, 0, []⟩ = some v ∧
    ∀ p desc, pdesc[p]? = some desc →
      ((vlanWrite vid v).getLsbD p = true ↔ Listed s p) ∧
      ((vlanWrite vid v).getLsbD (6 + p) = true ↔ Listed s p) ∧
      ((desc.ptagr, vid) ∈ v.ptags ↔ Tagged s p)

/-! ### The condition -/

def Prints (mem : ℕ → Option Byte) (ptr : ℕ) : Prop := ∃ fuel, print mem fuel ptr = some ()

/-- The token begins with this digit. -/
def FirstDigit (token : List Byte) (p : ℕ) : Prop := token.head? = some (digit p)

instance (token : List Byte) (p : ℕ) : Decidable (FirstDigit token p) :=
  inferInstanceAs (Decidable (_ = _))

/-- Every token begins with a digit from 0 to 5, or else there is a string to print at the address
`vid`; the first digits are the numbers; and a token whose first digit is 5 has its flag among the
first four characters, as one whose number is 5 has it anywhere. -/
structure WellRead (mem : ℕ → Option Byte) (vid : BitVec 16) (s : List Byte) : Prop where
  prints : (∀ t ∈ tokens s, ∃ p < 6, FirstDigit t p) ∨ Prints mem vid.toNat
  numbers : ∀ p < 6, (∃ t ∈ tokens s, FirstDigit t p) ↔ Listed s p
  flags : (∃ t ∈ tokens s, FirstDigit t 5 ∧ flagLan ∈ t.take 4) ↔
    ∃ t ∈ tokens s, leadingNumber t = some 5 ∧ flagLan ∈ t

/-! ### Tokens -/

lemma tokens_nil : tokens [] = [] := by
  rw [tokens, List.splitOnP_nil]
  rfl

/-- A token at the beginning, with a space behind it. -/
lemma tokens_append {token : List Byte} (h : ∀ c ∈ token, c ≠ chr ' ') (hne : token ≠ [])
    (rest : List Byte) : tokens (token ++ chr ' ' :: rest) = token :: tokens rest := by
  rw [tokens, List.splitOnP_append_cons_of_forall_mem (by simpa using h) _ (by simp),
    List.filter_cons_of_pos (by simpa using hne)]
  rfl

lemma tokens_single {token : List Byte} (h : ∀ c ∈ token, c ≠ chr ' ') (hne : token ≠ []) :
    tokens token = [token] := by
  rw [tokens, List.splitOnP_eq_singleton (by simpa using h),
    List.filter_cons_of_pos (by simpa using hne)]
  rfl

lemma tokens_space (s : List Byte) : tokens (chr ' ' :: s) = tokens s := by
  have hnil : ∀ c ∈ ([] : List Byte), decide (c = chr ' ') = false := by simp
  have h := List.splitOnP_append_cons_of_forall_mem hnil (chr ' ') (by simp) s
  rw [tokens, ← List.nil_append (chr ' ' :: s), h, List.filter_cons_of_neg (by simp)]
  rfl

lemma tokens_dropWhile (s : List Byte) : tokens (s.dropWhile (· = chr ' ')) = tokens s := by
  induction s with
  | nil => rfl
  | cons c s ih =>
    by_cases hc : c = chr ' '
    · subst hc
      rw [tokens_space, ← ih]
      rfl
    · rw [List.dropWhile_cons_of_neg (by simpa using hc)]

/-- What is behind a token is nothing, or begins with a space. -/
lemma strstrSpace_cases (cur : List Byte) :
    (strstrSpace cur = none ∧ cur.takeWhile (· ≠ chr ' ') = cur) ∨
      ∃ rest, strstrSpace cur = some (chr ' ' :: rest) ∧
        cur.takeWhile (· ≠ chr ' ') ++ chr ' ' :: rest = cur := by
  have hcur : cur.takeWhile (· ≠ chr ' ') ++ cur.dropWhile (· ≠ chr ' ') = cur :=
    List.takeWhile_append_dropWhile
  have hhead := List.head?_dropWhile_not (fun c => decide (c ≠ chr ' ')) cur
  cases hrest : cur.dropWhile (· ≠ chr ' ') with
  | nil =>
    rw [hrest, List.append_nil] at hcur
    exact .inl ⟨by rw [strstrSpace, hrest], hcur⟩
  | cons c rest =>
    rw [hrest] at hcur hhead
    obtain rfl : c = chr ' ' := by simpa using hhead
    exact .inr ⟨rest, by rw [strstrSpace, hrest], hcur⟩

/-- No token begins where the spaces have been skipped only at the end of the string. -/
lemma eq_nil_of_takeWhile {s : List Byte}
    (h : (s.dropWhile (· = chr ' ')).takeWhile (· ≠ chr ' ') = []) :
    s.dropWhile (· = chr ' ') = [] := by
  have hhead := List.head?_dropWhile_not (fun c => decide (c = chr ' ')) s
  cases hcur : s.dropWhile (· = chr ' ') with
  | nil => rfl
  | cons c cur =>
    rw [hcur] at h hhead
    have hc : c ≠ chr ' ' := by simpa using hhead
    rw [List.takeWhile_cons_of_pos (by simpa using hc)] at h
    cases h

/-- A turn of the loop takes the first token. -/
lemma tokens_eq {s : List Byte}
    (hne : (s.dropWhile (· = chr ' ')).takeWhile (· ≠ chr ' ') ≠ []) :
    tokens s = (s.dropWhile (· = chr ' ')).takeWhile (· ≠ chr ' ') ::
      ((strstrSpace (s.dropWhile (· = chr ' '))).map tokens).getD [] := by
  rw [← tokens_dropWhile s]
  generalize s.dropWhile (· = chr ' ') = cur at hne ⊢
  have htoken : ∀ c ∈ cur.takeWhile (· ≠ chr ' '), c ≠ chr ' ' :=
    fun c hc => by simpa using List.mem_takeWhile_imp hc
  obtain ⟨hnext, hcur⟩ | ⟨rest, hnext, hcur⟩ := strstrSpace_cases cur
  · rw [hnext, hcur, tokens_single (hcur ▸ htoken) (hcur ▸ hne)]
    rfl
  · rw [hnext, Option.map_some, Option.getD_some, tokens_space]
    conv_lhs => rw [← hcur]
    exact tokens_append htoken hne rest

/-- It goes on with less of the string. -/
lemma length_strstrSpace_lt {s next : List Byte}
    (hne : (s.dropWhile (· = chr ' ')).takeWhile (· ≠ chr ' ') ≠ [])
    (hnext : strstrSpace (s.dropWhile (· = chr ' ')) = some next) : next.length < s.length := by
  have hlen : (s.dropWhile (· = chr ' ')).length ≤ s.length :=
    (List.dropWhile_suffix _).length_le
  have hpos := List.length_pos_of_ne_nil hne
  obtain ⟨hnone, -⟩ | ⟨rest, hsome, hcur⟩ := strstrSpace_cases (s.dropWhile (· = chr ' '))
  · rw [hnext] at hnone
    cases hnone
  · obtain rfl := Option.some.inj (hnext.symm.trans hsome)
    have hsum := congrArg List.length hcur
    rw [List.length_append] at hsum
    omega

/-! ### The loop -/

/-- What a turn makes of the registers. -/
def turn (vid : BitVec 16) (v : Vlan) (token : List Byte) : Vlan :=
  match pdesc[pid (token.take 4)]? with
  | none => v
  | some desc => setPort vid (token.take 4) desc v

lemma print_mono {mem : ℕ → Option Byte} {m n ptr : ℕ} (hle : m ≤ n)
    (h : print mem m ptr = some ()) : print mem n ptr = some () := by
  induction m generalizing n ptr with
  | zero => cases h
  | succ m ih =>
    obtain ⟨n, rfl⟩ := Nat.exists_eq_succ_of_ne_zero (Nat.ne_zero_of_lt hle)
    obtain ⟨c, hc, h⟩ := Option.bind_eq_some_iff.mp h
    rw [print, hc, Option.bind_some]
    split_ifs at h ⊢
    · rfl
    · exact ih (Nat.le_of_succ_le_succ hle) h

/-- A token that is out of range has the loop print. -/
lemma portTurn_eq_some {mem : ℕ → Option Byte} {vid : BitVec 16} {fuel : ℕ} {token : List Byte}
    {v v' : Vlan} :
    portTurn mem vid fuel v token = some v' ↔
      (pid (token.take 4) < 6 ∨ print mem fuel vid.toNat = some ()) ∧ turn vid v token = v' := by
  rw [turn, portTurn]
  cases hdesc : pdesc[pid (token.take 4)]? with
  | none =>
    have hpid : ¬ pid (token.take 4) < 6 := Nat.not_lt.mpr (List.getElem?_eq_none_iff.mp hdesc)
    cases hprint : print mem fuel vid.toNat <;> simp [hpid]
  | some desc =>
    obtain ⟨hpid, -⟩ := List.getElem?_eq_some_iff.mp hdesc
    have hpid' : pid (token.take 4) < 6 := hpid
    simp [hpid']

/-- The loop goes over the tokens and ends, if what it has to print is a string. -/
lemma portLoop_of_prints {mem : ℕ → Option Byte} {vid : BitVec 16} {n fuel : ℕ} {s : List Byte}
    (hfuel : s.length + n < fuel)
    (h : ∀ t ∈ tokens s, pid (t.take 4) < 6 ∨ print mem n vid.toNat = some ()) (v : Vlan) :
    portLoop mem vid fuel s v = some ((tokens s).foldl (turn vid) v) := by
  induction fuel generalizing s v with
  | zero => omega
  | succ fuel ih =>
    rw [portLoop]
    split_ifs with hne
    · rw [← tokens_dropWhile, eq_nil_of_takeWhile hne, tokens_nil]
      rfl
    · have htokens := tokens_eq hne
      have hturn := h _ (htokens ▸ List.mem_cons_self)
      rw [portTurn_eq_some.mpr ⟨hturn.imp id (print_mono (by omega)), rfl⟩, Option.bind_some]
      cases hnext : strstrSpace (s.dropWhile (· = chr ' ')) with
      | none =>
        rw [htokens, hnext]
        rfl
      | some next =>
        have hlt := length_strstrSpace_lt hne hnext
        rw [hnext] at htokens
        rw [htokens]
        exact ih (by omega) (fun t ht => h t (htokens ▸ List.mem_cons_of_mem _ ht)) _

lemma of_portLoop {mem : ℕ → Option Byte} {vid : BitVec 16} {fuel : ℕ} {s : List Byte}
    {v v' : Vlan} (h : portLoop mem vid fuel s v = some v') :
    (∀ t ∈ tokens s, pid (t.take 4) < 6 ∨ Prints mem vid.toNat) ∧
      v' = (tokens s).foldl (turn vid) v := by
  induction fuel generalizing s v with
  | zero => cases h
  | succ fuel ih =>
    rw [portLoop] at h
    split_ifs at h with hne
    · have hnil : tokens s = [] := by
        rw [← tokens_dropWhile, eq_nil_of_takeWhile hne, tokens_nil]
      rw [hnil]
      exact ⟨by simp, (Option.some.inj h).symm⟩
    · have htokens := tokens_eq hne
      obtain ⟨v₁, hturn, h⟩ := Option.bind_eq_some_iff.mp h
      obtain ⟨hpid, rfl⟩ := portTurn_eq_some.mp hturn
      have hfirst := hpid.imp id fun hprint => (⟨fuel, hprint⟩ : Prints mem vid.toNat)
      cases hnext : strstrSpace (s.dropWhile (· = chr ' ')) with
      | none =>
        rw [hnext] at h htokens
        rw [htokens]
        exact ⟨List.forall_mem_cons.mpr ⟨hfirst, by simp⟩, (Option.some.inj h).symm⟩
      | some next =>
        rw [hnext] at h htokens
        obtain ⟨hrest, hv⟩ := ih h
        rw [htokens]
        exact ⟨List.forall_mem_cons.mpr ⟨hfirst, hrest⟩, hv⟩

/-! ### The registers -/

lemma getLsbD_pdesc {p : ℕ} {desc : PortDesc} (h : pdesc[p]? = some desc) :
    p < 6 ∧ (∀ i, desc.member.getLsbD i = true ↔ i = p) ∧
      (∀ i, desc.untag.getLsbD i = true ↔ i = 6 + p) ∧ (desc.cpu = true ↔ p = 5) := by
  obtain ⟨hp, -⟩ := List.getElem?_eq_some_iff.mp h
  have hp6 : p < 6 := hp
  have hsmall : ∀ p < 6, ∀ desc ∈ pdesc[p]?, (∀ i < 16, desc.member.getLsbD i = true ↔ i = p) ∧
      (∀ i < 16, desc.untag.getLsbD i = true ↔ i = 6 + p) ∧ (desc.cpu = true ↔ p = 5) := by
    decide
  obtain ⟨hmember, huntag, hcpu⟩ := hsmall p hp6 desc h
  refine ⟨hp6, fun i => ?_, fun i => ?_, hcpu⟩
  · by_cases hi : i < 16
    · exact hmember i hi
    · rw [BitVec.getLsbD_of_ge _ _ (Nat.not_lt.mp hi)]
      simp
      omega
  · by_cases hi : i < 16
    · exact huntag i hi
    · rw [BitVec.getLsbD_of_ge _ _ (Nat.not_lt.mp hi)]
      simp
      omega

lemma firstDigit_iff {t : List Byte} (hne : t ≠ []) {p : ℕ} (hp : p < 6) :
    FirstDigit t p ↔ pid (t.take 4) = p := by
  have hall : ∀ c : Byte, ∀ p < 6,
      c = digit p ↔ (c.signExtend 32 - (chr '0').signExtend 32).toNat = p := by
    decide +kernel
  obtain ⟨c, t, rfl⟩ := List.exists_cons_of_ne_nil hne
  rw [FirstDigit, List.head?_cons, Option.some.injEq]
  exact hall c p hp

lemma pdesc_of_lt {p : ℕ} (h : p < 6) : ∃ desc, pdesc[p]? = some desc :=
  ⟨pdesc[p], List.getElem?_eq_getElem h⟩

lemma member_foldl (vid : BitVec 16) (ts : List (List Byte)) (v : Vlan) (i : ℕ) :
    (ts.foldl (turn vid) v).member.getLsbD i = true ↔
      v.member.getLsbD i = true ∨ (i < 6 ∧ ∃ t ∈ ts, pid (t.take 4) = i) := by
  induction ts generalizing v with
  | nil => simp
  | cons t ts ih =>
    rw [List.foldl_cons, ih, turn]
    cases hdesc : pdesc[pid (t.take 4)]? with
    | none =>
      have hpid : 6 ≤ pid (t.take 4) := List.getElem?_eq_none_iff.mp hdesc
      have hne : i < 6 → pid (t.take 4) ≠ i := by omega
      simp only [List.exists_mem_cons_iff]
      tauto
    | some desc =>
      obtain ⟨hpid, hmember, -, -⟩ := getLsbD_pdesc hdesc
      simp only [setPort, BitVec.getLsbD_or, Bool.or_eq_true, hmember, List.exists_mem_cons_iff]
      have heq : i = pid (t.take 4) → i < 6 := by omega
      tauto

lemma untag_foldl (vid : BitVec 16) (ts : List (List Byte)) (v : Vlan) (i : ℕ) :
    (ts.foldl (turn vid) v).untag.getLsbD i = true ↔
      v.untag.getLsbD i = true ∨ ∃ p < 6, i = 6 + p ∧ ∃ t ∈ ts, pid (t.take 4) = p := by
  induction ts generalizing v with
  | nil => simp
  | cons t ts ih =>
    rw [List.foldl_cons, ih, turn]
    cases hdesc : pdesc[pid (t.take 4)]? with
    | none =>
      have hpid : 6 ≤ pid (t.take 4) := List.getElem?_eq_none_iff.mp hdesc
      have hne : ∀ p < 6, pid (t.take 4) ≠ p := by omega
      have hor : ∀ p < 6, ((∃ t' ∈ t :: ts, pid (t'.take 4) = p) ↔
          ∃ t' ∈ ts, pid (t'.take 4) = p) := fun p hp => by
        rw [List.exists_mem_cons_iff, or_iff_right (hne p hp)]
      exact or_congr_right (exists_congr fun p =>
        and_congr_right fun hp => and_congr_right fun _ => (hor p hp).symm)
    | some desc =>
      obtain ⟨hpid, -, huntag, -⟩ := getLsbD_pdesc hdesc
      simp only [setPort, BitVec.getLsbD_or, Bool.or_eq_true, huntag, List.exists_mem_cons_iff,
        or_assoc]
      refine or_congr_right ⟨?_, ?_⟩
      · rintro (hi | ⟨p, hp, hi, ht⟩)
        · exact ⟨_, hpid, hi, .inl rfl⟩
        · exact ⟨p, hp, hi, .inr ht⟩
      · rintro ⟨p, hp, hi, rfl | ht⟩
        · exact .inl hi
        · exact .inr ⟨p, hp, hi, ht⟩

/-- A tag register is written with `vid` only, and for a port that some token has. -/
lemma ptags_foldl (vid : BitVec 16) (ts : List (List Byte)) (v : Vlan) (reg : Byte) :
    (reg, vid) ∈ (ts.foldl (turn vid) v).ptags ↔
      (reg, vid) ∈ v.ptags ∨ ∃ t ∈ ts, ∃ desc, pdesc[pid (t.take 4)]? = some desc ∧
        desc.ptagr = reg ∧ (¬ desc.cpu ∨ flagLan ∈ t.take 4) := by
  induction ts generalizing v with
  | nil => simp
  | cons t ts ih =>
    rw [List.foldl_cons, ih, turn, List.exists_mem_cons_iff, ← or_assoc]
    apply or_congr_left
    cases hdesc : pdesc[pid (t.take 4)]? with
    | none => simp
    | some desc =>
      have hzero : 0 <<< 13 ||| vid = vid := by simp
      simp only [setPort, Option.some.injEq, exists_eq_left', hzero]
      split_ifs with hwrite
      · rw [List.mem_append, List.mem_singleton, Prod.mk.injEq, and_iff_left rfl,
          and_iff_left hwrite, eq_comm (a := reg)]
      · rw [or_iff_left fun h => hwrite h.2]

lemma getLsbD_vlanWrite (vid : BitVec 16) (v : Vlan) {i : ℕ} (hi : i < 12) :
    (vlanWrite vid v).getLsbD i = (v.untag.getLsbD i || v.member.getLsbD i) := by
  have hone : (1 <<< 20 : BitVec 32).getLsbD i = false := by
    revert i
    decide
  have hvid : ((vid >>> 4).setWidth 32 <<< 12 : BitVec 32).getLsbD i = false := by
    simp [BitVec.getLsbD_shiftLeft, hi]
  rw [vlanWrite, BitVec.getLsbD_or, BitVec.getLsbD_or, BitVec.getLsbD_or, hone, hvid,
    BitVec.getLsbD_setWidth, BitVec.getLsbD_setWidth, decide_eq_true (by omega : i < 32)]
  simp

lemma ne_nil_of_mem_tokens {s t : List Byte} (h : t ∈ tokens s) : t ≠ [] := by
  simpa using (List.mem_filter.mp h).2

/-- The registers after the loop. -/
def registers (vid : BitVec 16) (s : List Byte) : Vlan := (tokens s).foldl (turn vid) ⟨0, 0, []⟩

lemma exists_firstDigit {s : List Byte} {p : ℕ} (hp : p < 6) (P : List Byte → Prop) :
    (∃ t ∈ tokens s, FirstDigit t p ∧ P t) ↔ ∃ t ∈ tokens s, pid (t.take 4) = p ∧ P t :=
  exists_congr fun _ => and_congr_right fun ht =>
    and_congr_left' (firstDigit_iff (ne_nil_of_mem_tokens ht) hp)

/-- The members are the first digits. -/
lemma getLsbD_member {vid : BitVec 16} {s : List Byte} {p : ℕ} (hp : p < 6) :
    (vlanWrite vid (registers vid s)).getLsbD p = true ↔ ∃ t ∈ tokens s, FirstDigit t p := by
  have hdigit := exists_firstDigit (s := s) hp fun _ => True
  have huntag : ¬ (registers vid s).untag.getLsbD p = true := by
    rw [registers, untag_foldl]
    rintro (h | ⟨q, -, rfl, -⟩)
    · simp at h
    · omega
  simp only [and_true] at hdigit
  rw [getLsbD_vlanWrite vid _ (by omega), Bool.or_eq_true, or_iff_right huntag, registers,
    member_foldl, hdigit]
  simp [hp]

/-- And so are the untagged ports. -/
lemma getLsbD_untag {vid : BitVec 16} {s : List Byte} {p : ℕ} (hp : p < 6) :
    (vlanWrite vid (registers vid s)).getLsbD (6 + p) = true ↔
      ∃ t ∈ tokens s, FirstDigit t p := by
  have hdigit := exists_firstDigit (s := s) hp fun _ => True
  have hmember : ¬ (registers vid s).member.getLsbD (6 + p) = true := by
    rw [registers, member_foldl]
    rintro (h | ⟨h, -⟩)
    · simp at h
    · omega
  simp only [and_true] at hdigit
  rw [getLsbD_vlanWrite vid _ (by omega), Bool.or_eq_true, or_iff_left hmember, registers,
    untag_foldl, hdigit]
  constructor
  · rintro (h | ⟨q, -, hq, h⟩)
    · simp at h
    · obtain rfl := Nat.add_left_cancel hq
      exact h
  · exact fun h => .inr ⟨p, hp, rfl, h⟩

/-- No two ports have the same tag register. -/
lemma eq_of_ptagr {p q : ℕ} {desc desc' : PortDesc} (hp : pdesc[p]? = some desc)
    (hq : pdesc[q]? = some desc') (h : desc'.ptagr = desc.ptagr) : q = p := by
  have hall : ∀ p < 6, ∀ q < 6, ∀ desc ∈ pdesc[p]?, ∀ desc' ∈ pdesc[q]?,
      desc'.ptagr = desc.ptagr → q = p := by decide
  exact hall p (getLsbD_pdesc hp).1 q (getLsbD_pdesc hq).1 desc hp desc' hq h

lemma mem_ptags {vid : BitVec 16} {s : List Byte} {p : ℕ} {desc : PortDesc}
    (h : pdesc[p]? = some desc) :
    (desc.ptagr, vid) ∈ (registers vid s).ptags ↔
      ∃ t ∈ tokens s, FirstDigit t p ∧ (p ≠ 5 ∨ flagLan ∈ t.take 4) := by
  obtain ⟨hp, -, -, hcpu⟩ := getLsbD_pdesc h
  rw [registers, ptags_foldl, or_iff_right List.not_mem_nil,
    exists_firstDigit hp fun t => p ≠ 5 ∨ flagLan ∈ t.take 4]
  refine exists_congr fun t => and_congr_right fun _ => ⟨?_, ?_⟩
  · rintro ⟨desc', hdesc', hreg, hflag⟩
    obtain rfl := eq_of_ptagr h hdesc' hreg
    obtain rfl := Option.some.inj (hdesc'.symm.trans h)
    exact ⟨rfl, hflag.imp_left (mt hcpu.mpr)⟩
  · rintro ⟨rfl, hflag⟩
    exact ⟨desc, h, rfl, hflag.imp_left (mt hcpu.mp)⟩

/-! ### Main result -/

lemma exists_portLoop_iff {mem : ℕ → Option Byte} {vid : BitVec 16} {s : List Byte} :
    (∃ fuel v, portLoop mem vid fuel s ⟨0, 0, []⟩ = some v) ↔
      (∀ t ∈ tokens s, ∃ p < 6, FirstDigit t p) ∨ Prints mem vid.toNat := by
  have hdigits : ∀ t ∈ tokens s, (∃ p < 6, FirstDigit t p) ↔ pid (t.take 4) < 6 := by
    intro t ht
    constructor
    · rintro ⟨p, hp, h⟩
      rwa [(firstDigit_iff (ne_nil_of_mem_tokens ht) hp).mp h]
    · exact fun h => ⟨_, h, (firstDigit_iff (ne_nil_of_mem_tokens ht) h).mpr rfl⟩
  constructor
  · rintro ⟨fuel, v, h⟩
    by_cases hprints : Prints mem vid.toNat
    · exact .inr hprints
    · exact .inl fun t ht =>
        (hdigits t ht).mpr (((of_portLoop h).1 t ht).resolve_right hprints)
  · rintro (h | ⟨n, h⟩)
    · have hturns : ∀ t ∈ tokens s,
          pid (t.take 4) < 6 ∨ print mem 0 vid.toNat = some () :=
        fun t ht => .inl ((hdigits t ht).mp (h t ht))
      exact ⟨_, _, portLoop_of_prints (Nat.lt_succ_self _) hturns _⟩
    · exact ⟨_, _, portLoop_of_prints (Nat.lt_succ_self _) (fun t _ => .inr h) _⟩

/-- The loop ends with the ports that are listed exactly if every token has a number below 6 as its
first character, or else there is a string at `vid` to print, the first digits are the leading
numbers, and the flag of the CPU port is among the first four characters. -/
theorem portLoop_correct_iff (mem : ℕ → Option Byte) (vid : BitVec 16) (s : CString) :
    Correct mem vid s.chars ↔ WellRead mem vid s.chars := by
  constructor
  · rintro ⟨fuel, v, hrun, hv⟩
    obtain rfl : v = registers vid s.chars := (of_portLoop hrun).2
    refine ⟨exists_portLoop_iff.mp ⟨_, _, hrun⟩, fun p hp => ?_, ?_⟩
    · obtain ⟨desc, hdesc⟩ := pdesc_of_lt hp
      rw [← getLsbD_member hp]
      exact (hv p desc hdesc).1
    · obtain ⟨desc, hdesc⟩ := pdesc_of_lt (by decide : 5 < 6)
      have htag := (hv 5 desc hdesc).2.2
      rw [mem_ptags hdesc] at htag
      simp only [ne_eq, not_true_eq_false, false_or, Tagged] at htag
      exact htag.trans (and_iff_right_of_imp fun ⟨t, ht, hnum, _⟩ => ⟨t, ht, hnum⟩)
  · intro h
    obtain ⟨fuel, v, hrun⟩ := exists_portLoop_iff.mpr h.prints
    obtain rfl : v = registers vid s.chars := (of_portLoop hrun).2
    refine ⟨fuel, _, hrun, fun p desc hdesc => ?_⟩
    have hp := (getLsbD_pdesc hdesc).1
    rw [getLsbD_member hp, getLsbD_untag hp, mem_ptags hdesc]
    refine ⟨h.numbers p hp, h.numbers p hp, ?_⟩
    by_cases hcpu : p = 5
    · subst hcpu
      simp only [ne_eq, not_true_eq_false, false_or, Tagged]
      rw [h.flags]
      exact (and_iff_right_of_imp fun ⟨t, ht, hnum, _⟩ => ⟨t, ht, hnum⟩).symm
    · simp only [ne_eq, hcpu, not_false_eq_true, true_or, and_true, Tagged]
      exact h.numbers p hp

/-- The list `12` makes port 1 a member; `5ttt*` leaves the tag register of the CPU port as it is;
and `8` has the loop read from address 1 on, where the CPU has no memory. -/
theorem listed_ports_differ :
    ¬ Correct (fun _ => none) 1 (['1', '2'].map chr) ∧
      ¬ Correct (fun _ => none) 1 (['5', 't', 't', 't', '*'].map chr) ∧
      ¬ Correct (fun _ => none) 1 (['8'].map chr) := by
  have hsingle : ∀ token : List Byte, (∀ c ∈ token, c ≠ chr ' ') → token ≠ [] →
      tokens token = [token] := fun _ h hne => tokens_single h hne
  refine ⟨?_, ?_, ?_⟩
  · rintro ⟨fuel, v, hrun, hv⟩
    obtain rfl := (of_portLoop hrun).2
    have htokens := hsingle (['1', '2'].map chr) (by decide) (by decide)
    have hmember := (hv 1 _ rfl).1.mp
      ((getLsbD_member (by decide)).mpr ⟨_, htokens ▸ List.mem_singleton_self _, by decide⟩)
    rw [Listed, htokens] at hmember
    exact absurd hmember (by decide)
  · rintro ⟨fuel, v, hrun, hv⟩
    obtain rfl := (of_portLoop hrun).2
    have htokens := hsingle (['5', 't', 't', 't', '*'].map chr) (by decide) (by decide)
    have htag := (hv 5 _ rfl).2.2.mpr (by
      rw [Tagged, Listed, htokens]
      decide)
    have hfirst := (mem_ptags (p := 5) rfl).mp htag
    rw [htokens] at hfirst
    exact absurd hfirst (by decide)
  · rintro ⟨fuel, v, hrun, -⟩
    have htokens := hsingle (['8'].map chr) (by decide) (by decide)
    rcases exists_portLoop_iff.mp ⟨fuel, v, hrun⟩ with h | ⟨n, h⟩
    · rw [htokens] at h
      exact absurd h (by decide)
    · cases n <;> cases h

end BcmMruby.Robo
