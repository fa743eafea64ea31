import BcmMruby.Core.Recurrence
import BcmMruby.Core.Run
import BcmMruby.Core.Xor

/-!
# The random numbers

`mt19937ar.c`, which the network stack takes its random numbers from (`LWIP_RAND`). An access to
one of the arrays outside of it has no result. The state vector is recomputed in place, `N` words at
one time; what comes out is a recurrence of order `N`, tempered word by word, as
`outputs_eq` says. `clone_predicts` and `outputs_eq_of_window` say how much a listener learns from
`N` numbers in a row, and `exists_output_ne_zero` that no seed gets the generator stuck.
-/

namespace BcmMruby.Mt19937ar

open Core Recurrence

/-! ### The generator -/

/-- `unsigned long`. -/
abbrev Word : Type := BitVec 32

abbrev N : ℕ := 624

abbrev M : ℕ := 397

def matrixA : Word := 0x9908b0df

def upperMask : Word := 0x80000000

def lowerMask : Word := 0x7fffffff

structure Generator where
  mt : ℕ → Word
  /-- `N + 1` as long as `mt` is not initialized. -/
  mti : ℕ

def load (mt : ℕ → Word) (i : ℕ) : Option Word := if i < N then some (mt i) else none

def store (mt : ℕ → Word) (i : ℕ) (v : Word) : Option (ℕ → Word) :=
  if i < N then some (Function.update mt i v) else none

/-- `x ^ (x >> 30)`, in both ways of seeding. -/
def fold (x : Word) : Word := x ^^^ (x >>> 30)

/-- `mt[i-1]`. -/
def loadBefore (mt : ℕ → Word) (i : ℕ) : Option Word := if i = 0 then none else load mt (i - 1)

def seedTurn (mt : ℕ → Word) (mti : ℕ) : Option (ℕ → Word) :=
  (loadBefore mt mti).bind fun u => store mt mti (1812433253 * fold u + BitVec.ofNat 32 mti)

/-- At the end of the loop `mti` is `N`. -/
def initGenrand (g : Generator) (s : Word) : Option Generator :=
  (store g.mt 0 s).bind fun mt =>
    (run seedTurn mt (List.range' 1 (N - 1))).map fun mt => ⟨mt, N⟩

/-- `i++` and what follows it in both loops of `init_by_array`. -/
def wrap (mt : ℕ → Word) (i : ℕ) : Option ((ℕ → Word) × ℕ) :=
  if i + 1 ≥ N then
    (load mt (N - 1)).bind fun u => (store mt 0 u).map fun mt => (mt, 1)
  else some (mt, i + 1)

/-- One turn of the first loop of `init_by_array`, with `mt`, `i` and `j`. -/
def keyTurn (initKey : List Word) (keyLength : ℤ) (s : (ℕ → Word) × ℕ × ℕ) (_k : ℕ) :
    Option ((ℕ → Word) × ℕ × ℕ) :=
  let (mt, i, j) := s
  (load mt i).bind fun u =>
  (loadBefore mt i).bind fun v =>
  (initKey[j]?).bind fun key =>
  (store mt i ((u ^^^ (fold v * 1664525)) + key + BitVec.ofNat 32 j)).bind fun mt =>
  (wrap mt i).map fun (mt, i) => (mt, i, if (j : ℤ) + 1 ≥ keyLength then 0 else j + 1)

def mixTurn (s : (ℕ → Word) × ℕ) (_k : ℕ) : Option ((ℕ → Word) × ℕ) :=
  let (mt, i) := s
  (load mt i).bind fun u =>
  (loadBefore mt i).bind fun v =>
  (store mt i ((u ^^^ (fold v * 1566083941)) - BitVec.ofNat 32 i)).bind fun mt => wrap mt i

/-- `init_key` points to as many words as the list has. -/
def initByArray (g : Generator) (initKey : List Word) (keyLength : ℤ) : Option Generator :=
  let k := (if N > keyLength then (N : ℤ) else keyLength).toNat
  (initGenrand g 19650218).bind fun g =>
  (run (keyTurn initKey keyLength) (g.mt, 1, 0) (List.range' 0 k)).bind fun (mt, i, _) =>
  (run mixTurn (mt, i) (List.range' 0 (N - 1))).bind fun (mt, _) =>
  (store mt 0 0x80000000).map fun mt => ⟨mt, g.mti⟩

/-- `mag01[y & 0x1UL]`. -/
def mag01 (y : Word) : Word := if y &&& 1 = 0 then 0 else matrixA

/-- `(y >> 1) ^ mag01[y & 0x1UL]`. -/
def twist (y : Word) : Word := (y >>> 1) ^^^ mag01 y

/-- The word computed from `mt[kk]`, `mt[kk+1]` and `mt[kk+M]`. -/
def mix (u v w : Word) : Word := w ^^^ twist ((u &&& upperMask) ||| (v &&& lowerMask))

def replace (mt : ℕ → Word) (kk kk1 kkM : ℕ) : Option (ℕ → Word) :=
  (load mt kk).bind fun u => (load mt kk1).bind fun v => (load mt kkM).bind fun w =>
    store mt kk (mix u v w)

/-- Generate `N` words at one time. -/
def generateWords (mt : ℕ → Word) : Option (ℕ → Word) :=
  (run (fun mt kk => replace mt kk (kk + 1) (kk + M)) mt (List.range' 0 (N - M))).bind fun mt =>
  (run (fun mt kk => replace mt kk (kk + 1) (kk + M - N)) mt (List.range' (N - M) (M - 1))).bind
    fun mt => replace mt (N - 1) 0 (M - 1)

def temper (y : Word) : Word :=
  let y := y ^^^ (y >>> 11)
  let y := y ^^^ ((y <<< 7) &&& 0x9d2c5680)
  let y := y ^^^ ((y <<< 15) &&& 0xefc60000)
  y ^^^ (y >>> 18)

/-- The head of `genrand_int32`. -/
def refill (g : Generator) : Option Generator :=
  if g.mti ≥ N then
    (if g.mti = N + 1 then initGenrand g 5489 else some g).bind fun g =>
      (generateWords g.mt).map fun mt => ⟨mt, 0⟩
  else some g

def genrandInt32 (g : Generator) : Option (Word × Generator) :=
  (refill g).bind fun g => (load g.mt g.mti).map fun y => (temper y, ⟨g.mt, g.mti + 1⟩)

/-- `count` calls in a row. -/
def outputs : ℕ → Generator → Option (List Word × Generator)
  | 0, g => some ([], g)
  | count + 1, g =>
    (genrandInt32 g).bind fun (y, g) => (outputs count g).map fun (ys, g) => (y :: ys, g)

/-! ### Blocks -/

section

variable {mt mt' : ℕ → Word} {i : ℕ} {v : Word}

lemma load_of_lt (hi : i < N) : load mt i = some (mt i) := if_pos hi

lemma store_of_lt (hi : i < N) : store mt i v = some (Function.update mt i v) := if_pos hi

lemma loadBefore_of_lt (hpos : 0 < i) (hi : i < N) : loadBefore mt i = some (mt (i - 1)) := by
  rw [loadBefore, if_neg (by omega), load_of_lt (by omega)]

/-- A word from the `N` before it. -/
def next (w : Fin N → Word) : Word := mix (w 0) (w 1) (w 397)

/-- One place of the array is recomputed; the indices of the source go around its end. -/
lemma replace_eq {kk kk1 kkM : ℕ} (hkk : kk < N) (h1 : kk1 = (kk + 1) % N)
    (hM : kkM = (kk + M) % N) :
    replace mt kk kk1 kkM =
      some (Function.update mt kk (next fun i => mt ((kk + i) % N))) := by
  have hpos : 0 < N := by decide
  have h0 : (kk + (0 : Fin N).val) % N = kk := Nat.mod_eq_of_lt hkk
  subst h1 hM
  rw [replace, load_of_lt hkk, load_of_lt (Nat.mod_lt _ hpos), load_of_lt (Nat.mod_lt _ hpos),
    Option.bind_some, Option.bind_some, Option.bind_some, store_of_lt hkk, next, h0]
  rfl

variable {x : ℕ → Word} {b : ℕ}

lemma Mixture.replace (hx : Obeys next x) {kk kk1 kkM : ℕ} (H : Mixture N x b kk mt)
    (hkk : kk < N) (h1 : kk1 = (kk + 1) % N) (hM : kkM = (kk + M) % N) :
    ∃ mt', replace mt kk kk1 kkM = some mt' ∧ Mixture N x b (kk + 1) mt' :=
  ⟨_, replace_eq hkk h1 hM, H.turn hx hkk⟩

/-- From one block of the recurrence to the next. -/
lemma generateWords_spec (hx : Obeys next x) (H : Mixture N x b 0 mt) :
    ∃ mt', generateWords mt = some mt' ∧ Mixture N x (b + N) 0 mt' := by
  obtain ⟨mt₁, h₁, H₁⟩ := run_range' (fun mt kk => replace mt kk (kk + 1) (kk + M)) 0 (N - M)
    (P := fun j mt => Mixture N x b j mt) (by
      intro kk mt _ hkk H
      simp only [N, M] at hkk
      exact Mixture.replace hx H (by simp only [N]; omega) (by simp only [N]; omega)
        (by simp only [N, M]; omega)) H
  obtain ⟨mt₂, h₂, H₂⟩ := run_range' (fun mt kk => replace mt kk (kk + 1) (kk + M - N)) (N - M)
    (M - 1) (P := fun j mt => Mixture N x b j mt) (by
      intro kk mt hlo hkk H
      simp only [N, M] at hlo hkk
      exact Mixture.replace hx H (by simp only [N]; omega) (by simp only [N]; omega)
        (by simp only [N, M]; omega)) (by simpa using H₁)
  obtain ⟨mt₃, h₃, H₃⟩ : ∃ mt', replace mt₂ (N - 1) 0 (M - 1) = some mt' ∧ Mixture N x b N mt' :=
    Mixture.replace hx H₂ (by decide) (by decide) (by decide)
  exact ⟨mt₃, by rw [generateWords, h₁, Option.bind_some, h₂, Option.bind_some, h₃],
    H₃.next_block⟩

end

/-! ### Calls -/

/-- The next call of `g` takes its number from `x p`. -/
structure Follows (x : ℕ → Word) (p : ℕ) (g : Generator) : Prop where
  obeys : Obeys next x
  mti_le : g.mti ≤ N
  block : ∃ b, b + g.mti = p ∧ Mixture N x b 0 g.mt

variable {x : ℕ → Word} {p : ℕ} {g g' : Generator}

lemma Follows.call (H : Follows x p g) :
    ∃ g', genrandInt32 g = some (temper (x p), g') ∧ Follows x (p + 1) g' := by
  obtain ⟨hx, hle, b, hb, hmix⟩ := H
  rcases Nat.lt_or_eq_of_le hle with hlt | heq
  · have hrefill : refill g = some g := by rw [refill, if_neg (by omega)]
    have hread : g.mt g.mti = x p := by simp [hmix g.mti hlt, hb]
    refine ⟨⟨g.mt, g.mti + 1⟩, ?_, hx, hlt, b, by rw [← hb, Nat.add_assoc], hmix⟩
    rw [genrandInt32, hrefill, Option.bind_some, load_of_lt hlt, hread, Option.map_some]
  · obtain ⟨mt', hmt', hmix'⟩ := generateWords_spec hx hmix
    have hrefill : refill g = some ⟨mt', 0⟩ := by
      have hne : g.mti ≠ N + 1 := by omega
      rw [refill, if_pos heq.ge, if_neg hne, Option.bind_some, hmt', Option.map_some]
    have hb' : b + N = p := by rw [← hb, heq]
    have hload : load mt' 0 = some (x p) := by
      rw [load_of_lt (by decide), hmix' 0 (by decide)]
      simp [hb']
    refine ⟨⟨mt', 1⟩, ?_, hx, Nat.one_le_ofNat, b + N, by rw [hb'], hmix'⟩
    simp only [genrandInt32, hrefill, Option.bind_some, hload, Option.map_some]

lemma Follows.calls (H : Follows x p g) (count : ℕ) :
    ∃ g', outputs count g = some ((List.range count).map fun i => temper (x (p + i)), g') ∧
      Follows x (p + count) g' := by
  induction count generalizing p g with
  | zero => exact ⟨g, rfl, H⟩
  | succ count ih =>
    obtain ⟨g₁, h₁, H₁⟩ := H.call
    obtain ⟨g₂, h₂, H₂⟩ := ih H₁
    refine ⟨g₂, ?_, by rwa [Nat.add_assoc, Nat.add_comm 1] at H₂⟩
    simp only [outputs, h₁, Option.bind_some, h₂, Option.map_some, List.range_succ_eq_map,
      List.map_cons, List.map_map, Nat.add_zero]
    congr 3
    refine List.map_congr_left fun i _ => ?_
    simp only [Function.comp_apply, Nat.succ_eq_add_one]
    congr 2
    omega

/-- Every initialized generator follows some sequence. -/
lemma exists_follows (hg : g.mti ≤ N) :
    ∃ x, (∀ q < N, x q = g.mt q) ∧ Follows x g.mti g := by
  refine ⟨generate next fun i => g.mt i, fun q hq => generate_of_lt _ hq, obeys_generate _ _, hg, 0,
    Nat.zero_add _, ?_⟩
  rw [mixture_zero]
  intro q hq
  rw [Nat.zero_add, generate_of_lt _ hq]

/-! ### Seeding -/

lemma initGenrand_eq (g : Generator) (s : Word) :
    ∃ mt, initGenrand g s = some ⟨mt, N⟩ ∧ mt 0 = s ∧
      ∀ j, 0 < j → j < N → mt j = 1812433253 * fold (mt (j - 1)) + BitVec.ofNat 32 j := by
  obtain ⟨mt, hmt, hzero, hmt'⟩ := run_range' seedTurn 1 (N - 1)
    (P := fun i mt => mt 0 = s ∧ ∀ j, 0 < j → j < i →
      mt j = 1812433253 * fold (mt (j - 1)) + BitVec.ofNat 32 j)
    (s := Function.update g.mt 0 s) (by
      rintro i mt hlo hi ⟨hzero, hmt⟩
      have hiN : i < N := by simp only [N] at hi ⊢; omega
      refine ⟨Function.update mt i (1812433253 * fold (mt (i - 1)) + BitVec.ofNat 32 i), ?_, ?_, ?_⟩
      · rw [seedTurn, loadBefore_of_lt (by omega) hiN, Option.bind_some, store_of_lt hiN]
      · rw [Function.update_of_ne (by omega), hzero]
      · intro j hj hji
        have hne : j - 1 ≠ i := by omega
        by_cases h : j = i
        · subst h
          rw [Function.update_self, Function.update_of_ne hne]
        · rw [Function.update_of_ne h, Function.update_of_ne hne, hmt j hj (by omega)])
    ⟨Function.update_self .., by intro j hj hj1; omega⟩
  refine ⟨mt, ?_, hzero, hmt'⟩
  rw [initGenrand, store_of_lt (by decide), Option.bind_some, hmt, Option.map_some]

/-- What the first call of `genrand_int32` makes of a generator that has not been seeded. -/
def ready (g : Generator) : Option Generator :=
  if g.mti = N + 1 then initGenrand g 5489 else some g

lemma outputs_of_ready (hg : ready g = some g') (hg' : g'.mti ≤ N) (count : ℕ) :
    (outputs (count + 1) g) = outputs (count + 1) g' := by
  have hrefill : refill g = refill g' := by
    rw [ready] at hg
    split_ifs at hg with h
    · obtain ⟨mt, hmt, -⟩ := initGenrand_eq g 5489
      have hseed : initGenrand g 5489 = some g' := hg
      obtain rfl : ⟨mt, N⟩ = g' := Option.some.inj (hmt.symm.trans hseed)
      have hne : (N : ℕ) ≠ N + 1 := by decide
      rw [refill, refill, if_pos (by omega), if_pos h, hmt, if_pos le_rfl, if_neg hne]
    · rw [Option.some.inj hg]
  rw [outputs, outputs, genrandInt32, genrandInt32, hrefill]

lemma exists_ready (hg : g.mti ≤ N + 1) : ∃ g', ready g = some g' ∧ g'.mti ≤ N := by
  rw [ready]
  split_ifs with h
  · obtain ⟨mt, hmt, -⟩ := initGenrand_eq g 5489
    exact ⟨⟨mt, N⟩, hmt, le_rfl⟩
  · exact ⟨g, rfl, by omega⟩

/-! ### What comes out -/

/-- The numbers are the tempered elements of a recurrence of order `N`, from the place on where the
generator stands, and however many blocks are recomputed on the way. -/
theorem outputs_eq (g : Generator) (hg : g.mti ≤ N + 1) :
    ∃ (g₀ : Generator) (x : ℕ → Word), ready g = some g₀ ∧ (∀ q < N, x q = g₀.mt q) ∧
      (∀ k, x (k + N) = mix (x k) (x (k + 1)) (x (k + M))) ∧
      ∀ count, ∃ g', outputs (count + 1) g =
        some ((List.range (count + 1)).map fun i => temper (x (g₀.mti + i)), g') := by
  obtain ⟨g₀, hready, hg₀⟩ := exists_ready hg
  obtain ⟨x, hstart, H⟩ := exists_follows hg₀
  refine ⟨g₀, x, hready, hstart, H.obeys, ?_⟩
  intro count
  obtain ⟨g', hg', -⟩ := H.calls (count + 1)
  exact ⟨g', by rw [outputs_of_ready hready hg₀, hg']⟩

/-- A generator as it stands before its first number. -/
theorem outputs_eq_unseeded : ∃ (g₀ : Generator) (x : ℕ → Word),
    ready ⟨fun _ => 0, N + 1⟩ = some g₀ ∧ (∀ q < N, x q = g₀.mt q) ∧
    (∀ k, x (k + N) = mix (x k) (x (k + 1)) (x (k + M))) ∧
    ∀ count, ∃ g', outputs (count + 1) ⟨fun _ => 0, N + 1⟩ =
      some ((List.range (count + 1)).map fun i => temper (x (g₀.mti + i)), g') :=
  outputs_eq ⟨fun _ => 0, N + 1⟩ le_rfl

/-! ### Tempering -/

/-- The four steps of the tempering, taken back from the last to the first. -/
def untemper (y : Word) : Word :=
  let y := unxorMap (fun y => y >>> 18) 1 y
  let y := unxorMap (fun y => (y <<< 15) &&& 0xefc60000) 2 y
  let y := unxorMap (fun y => (y <<< 7) &&& 0x9d2c5680) 3 y
  unxorMap (fun y => y >>> 11) 2 y

lemma untemper_temper (y : Word) : untemper (temper y) = y := by
  have hright : ∀ (s r : ℕ) (y : Word), 32 ≤ 2 ^ r * s →
      unxorMap (fun y : Word => y >>> s) r (y ^^^ (y >>> s)) = y := fun s r y hr =>
    unxorMap_xorMap (XorLinear.ushiftRight s) (iterate_ushiftRight_eq_zero hr) y
  have hleft : ∀ (s r : ℕ) (m y : Word), 32 ≤ 2 ^ r * s →
      unxorMap (fun y : Word => (y <<< s) &&& m) r (y ^^^ ((y <<< s) &&& m)) = y :=
    fun s r m y hr => unxorMap_xorMap ((XorLinear.and m).comp (XorLinear.shiftLeft s))
      (iterate_shiftLeft_eq_zero m hr) y
  simp only [untemper, temper]
  rw [hright 18 1 _ (by decide), hleft 15 2 _ _ (by decide), hleft 7 3 _ _ (by decide),
    hright 11 2 _ (by decide)]

lemma temper_injective : Function.Injective temper :=
  Function.LeftInverse.injective untemper_temper

/-- The generator a listener builds from `N` numbers. -/
def recover (os : List Word) : Generator := ⟨fun q => untemper (os.getD q 0), N⟩

lemma Follows.recover (H : Follows x p g) :
    Follows (fun i => x (p + i)) N
      (recover ((List.range N).map fun i => temper (x (p + i)))) := by
  refine ⟨?_, le_rfl, 0, Nat.zero_add _, ?_⟩
  · intro k
    have h := H.obeys (p + k)
    simpa only [Nat.add_assoc] using h
  · rw [mixture_zero]
    intro q hq
    have hget : ((List.range N).map fun i => temper (x (p + i))).getD q 0 = temper (x (p + q)) := by
      simp [hq]
    simp only [Mt19937ar.recover, hget, untemper_temper, Nat.zero_add]

/-- `N` numbers in a row are enough to know all that follow. -/
theorem clone_predicts (g : Generator) (hg : g.mti ≤ N + 1) {os : List Word} {g' : Generator}
    (h : outputs N g = some (os, g')) (count : ℕ) :
    (outputs count g').map Prod.fst = (outputs count (recover os)).map Prod.fst := by
  obtain ⟨g₀, hready, hg₀⟩ := exists_ready hg
  obtain ⟨x, -, H⟩ := exists_follows hg₀
  obtain ⟨g₁, hg₁, H₁⟩ := H.calls N
  have h' : outputs N g₀ = some (os, g') := (outputs_of_ready hready hg₀ _).symm.trans h
  obtain ⟨rfl, rfl⟩ := Prod.mk.inj (Option.some.inj (hg₁.symm.trans h'))
  obtain ⟨g₂, hg₂, -⟩ := H₁.calls count
  obtain ⟨g₃, hg₃, -⟩ := H.recover.calls count
  rw [hg₂, hg₃]
  simp only [Option.map_some, Nat.add_assoc]

theorem clone_predicts_unseeded : ∃ os g', outputs N ⟨fun _ => 0, N + 1⟩ = some (os, g') ∧
    ∀ count, (outputs count g').map Prod.fst = (outputs count (recover os)).map Prod.fst := by
  obtain ⟨g₀, hready, hg₀⟩ := exists_ready (g := ⟨fun _ => 0, N + 1⟩) le_rfl
  obtain ⟨x, -, H⟩ := exists_follows hg₀
  obtain ⟨g', hg', -⟩ := H.calls N
  have h := (outputs_of_ready hready hg₀ _).trans hg'
  exact ⟨_, g', h, clone_predicts ⟨fun _ => 0, N + 1⟩ le_rfl h⟩

/-! ### Backwards -/

lemma getLsbD_twist (y : Word) (i : ℕ) :
    (twist y).getLsbD i = (y.getLsbD (i + 1) ^^ (y.getLsbD 0 && matrixA.getLsbD i)) := by
  have hmag : (mag01 y).getLsbD i = (y.getLsbD 0 && matrixA.getLsbD i) := by
    have hbit : (y &&& 1).getLsbD 0 = y.getLsbD 0 := by simp
    by_cases h : y &&& 1 = 0
    · have hzero : y.getLsbD 0 = false := by rw [← hbit, h]; rfl
      rw [mag01, if_pos h, hzero, Bool.false_and]
      exact BitVec.getLsbD_zero
    · have hone : y.getLsbD 0 = true := by
        by_contra hne
        refine h (BitVec.eq_of_getLsbD_eq fun j hj => ?_)
        cases j with
        | zero => simpa using hne
        | succ j => simp
      rw [mag01, if_neg h, hone, Bool.true_and]
  rw [twist, BitVec.getLsbD_xor, BitVec.getLsbD_ushiftRight, hmag, Nat.add_comm 1 i]

/-- The lowest bit of `y` comes out as the highest one, and shows what the others were. -/
lemma twist_injective : Function.Injective twist := by
  intro y z h
  have hlow : y.getLsbD 0 = z.getLsbD 0 := by
    have htop := congrArg (fun t : Word => t.getLsbD 31) h
    have hA : matrixA.getLsbD 31 = true := by decide
    have hy : ∀ t : Word, t.getLsbD (31 + 1) = false := fun t => BitVec.getLsbD_of_ge t 32 le_rfl
    simpa only [getLsbD_twist, hA, hy, Bool.and_true,
      Bool.false_xor] using htop
  apply BitVec.eq_of_getLsbD_eq
  intro i hi
  cases i with
  | zero => exact hlow
  | succ i =>
    have hbit := congrArg (fun t : Word => t.getLsbD i) h
    simpa only [getLsbD_twist, hlow, Bool.xor_left_inj] using hbit

lemma masks_or (u v : Word) :
    ((u &&& upperMask) ||| (v &&& lowerMask)) &&& upperMask = u &&& upperMask ∧
      ((u &&& upperMask) ||| (v &&& lowerMask)) &&& lowerMask = v &&& lowerMask := by
  have hul : upperMask &&& lowerMask = 0 := by decide
  have hlu : lowerMask &&& upperMask = 0 := by decide
  constructor <;>
  simp [BitVec.and_or_distrib_right, BitVec.and_assoc, hul, hlu]

lemma eq_of_masks {u v : Word} (hu : u &&& upperMask = v &&& upperMask)
    (hl : u &&& lowerMask = v &&& lowerMask) : u = v := by
  have hall : upperMask ||| lowerMask = BitVec.allOnes 32 := by decide
  have hsplit : ∀ t : Word, t = (t &&& upperMask) ||| (t &&& lowerMask) := by
    intro t
    rw [← BitVec.and_or_distrib_left, hall, BitVec.and_allOnes]
  rw [hsplit u, hsplit v, hu, hl]

/-- Two sequences agree in the 19937 bits that decide how they go on. -/
def SameState (x y : ℕ → Word) (k : ℕ) : Prop :=
  x k &&& upperMask = y k &&& upperMask ∧ ∀ i, 0 < i → i < N → x (k + i) = y (k + i)

variable {y : ℕ → Word}

lemma mix_congr {u u' v w : Word} (h : u &&& upperMask = u' &&& upperMask) :
    mix u v w = mix u' v w := by
  rw [mix, mix, h]

/-- The recurrence can be run backwards. -/
lemma SameState.pred (hx : Obeys next x) (hy : Obeys next y) {k : ℕ} (h : SameState x y (k + 1)) :
    SameState x y k := by
  obtain ⟨hupper, hrest⟩ := h
  have hrest' : ∀ i, 1 < i → i ≤ N → x (k + i) = y (k + i) := by
    intro i hi hiN
    have hi' := hrest (i - 1) (by omega) (by omega)
    have hk : k + 1 + (i - 1) = k + i := by omega
    rwa [hk] at hi'
  have hlast := hrest' N (by decide) le_rfl
  have hmid := hrest' M (by decide) (by decide)
  have hx' : x (k + N) = mix (x k) (x (k + 1)) (x (k + M)) := hx k
  have hy' : y (k + N) = mix (y k) (y (k + 1)) (y (k + M)) := hy k
  rw [hx', hy', mix, mix, hmid] at hlast
  have hmasked := twist_injective ((BitVec.xor_right_inj _).mp hlast)
  obtain ⟨hxu, hxl⟩ := masks_or (x k) (x (k + 1))
  obtain ⟨hyu, hyl⟩ := masks_or (y k) (y (k + 1))
  rw [hmasked] at hxu hxl
  refine ⟨hxu.symm.trans hyu, ?_⟩
  intro i hpos hiN
  by_cases hi : i = 1
  · subst hi
    exact eq_of_masks hupper (hxl.symm.trans hyl)
  · exact hrest' i (by omega) hiN.le

lemma SameState.first (hx : Obeys next x) (hy : Obeys next y) {k : ℕ} (h : SameState x y k) :
    SameState x y 0 := by
  induction k with
  | zero => exact h
  | succ k ih => exact ih (h.pred hx hy)

lemma SameState.eq (hx : Obeys next x) (hy : Obeys next y) (h : SameState x y 0) {j : ℕ}
    (hj : 0 < j) : x j = y j := by
  have hone : ∀ i < N, x (1 + i) = y (1 + i) := by
    intro i hi
    by_cases hlast : i + 1 = N
    · have hN : 1 + i = 0 + N := by omega
      have h1 : x (0 + 1) = y (0 + 1) := h.2 1 (by decide) (by decide)
      have hM : x (0 + M) = y (0 + M) := h.2 M (by decide) (by decide)
      have hx' : x (0 + N) = mix (x 0) (x (0 + 1)) (x (0 + M)) := hx 0
      have hy' : y (0 + N) = mix (y 0) (y (0 + 1)) (y (0 + M)) := hy 0
      rw [hN, hx', hy', h1, hM, mix_congr h.1]
    · have hi' := h.2 (1 + i) (by omega) (by omega)
      simpa using hi'
  obtain ⟨j, rfl⟩ := Nat.exists_eq_add_of_lt hj
  have hext := hx.ext hy (k := 1) (l := 1) hone j
  have hj' : 0 + j + 1 = 1 + j := by omega
  rwa [hj']

/-- `N` numbers in a row that agree make the sequences agree. -/
lemma Follows.sameState {h g₁ h₁ : Generator} {q : ℕ} {os : List Word} (H : Follows x p g)
    (H' : Follows y q h) (hg : outputs N g = some (os, g₁)) (hh : outputs N h = some (os, h₁))
    {i : ℕ} (hi : i < N) : x (p + i) = y (q + i) := by
  obtain ⟨g₂, hg₂, -⟩ := H.calls N
  obtain ⟨h₂, hh₂, -⟩ := H'.calls N
  have hos := (Prod.mk.inj (Option.some.inj (hg₂.symm.trans hg))).1
  have hos' := (Prod.mk.inj (Option.some.inj (hh₂.symm.trans hh))).1
  have hmap := List.map_inj_left.mp (hos.trans hos'.symm) i (List.mem_range.mpr hi)
  exact temper_injective hmap

/-- Two generators that give the same `N` numbers in a row, at whatever point of their lives, have
given the same numbers before, and go on to do so. -/
theorem outputs_eq_of_window {g h g₁ h₁ g₂ h₂ : Generator} (hg : 0 < g.mti ∧ g.mti ≤ N)
    (hh : h.mti = g.mti) {skip : ℕ} {gs hs os : List Word}
    (hgs : outputs skip g = some (gs, g₁)) (hhs : outputs skip h = some (hs, h₁))
    (hgos : outputs N g₁ = some (os, g₂)) (hhos : outputs N h₁ = some (os, h₂)) (count : ℕ) :
    (outputs count g).map Prod.fst = (outputs count h).map Prod.fst := by
  obtain ⟨x, -, H⟩ := exists_follows hg.2
  obtain ⟨y, -, H'⟩ := exists_follows (hh ▸ hg.2)
  obtain ⟨g₁', hg₁, H₁⟩ := H.calls skip
  obtain ⟨h₁', hh₁, H₁'⟩ := H'.calls skip
  obtain ⟨-, rfl⟩ := Prod.mk.inj (Option.some.inj (hg₁.symm.trans hgs))
  obtain ⟨-, rfl⟩ := Prod.mk.inj (Option.some.inj (hh₁.symm.trans hhs))
  rw [hh] at H' H₁'
  have hsame : SameState x y (g.mti + skip) := by
    refine ⟨?_, fun i _ hi => H₁.sameState H₁' hgos hhos hi⟩
    have hfirst := H₁.sameState H₁' hgos hhos (i := 0) (by decide)
    rw [Nat.add_zero] at hfirst
    rw [hfirst]
  have hfirst := hsame.first H.obeys H'.obeys
  obtain ⟨g₃, hg₃, -⟩ := H.calls count
  obtain ⟨h₃, hh₃, -⟩ := H'.calls count
  rw [hg₃, hh₃, Option.map_some, Option.map_some]
  congr 1
  refine List.map_congr_left fun i _ => ?_
  rw [hfirst.eq H.obeys H'.obeys (by omega)]

/-- The lower bits of the first word do not matter, as is heard from the thousandth number on. -/
theorem outputs_eq_of_window_pair :
    ∃ gs hs os g₁ h₁ g₂ h₂,
      outputs 1000 ⟨fun _ => 1, N⟩ = some (gs, g₁) ∧
      outputs 1000 ⟨Function.update (fun _ => 1) 0 2, N⟩ = some (hs, h₁) ∧
      outputs N g₁ = some (os, g₂) ∧ outputs N h₁ = some (os, h₂) ∧
      ∀ count, (outputs count ⟨fun _ => 1, N⟩).map Prod.fst =
        (outputs count ⟨Function.update (fun _ => 1) 0 2, N⟩).map Prod.fst := by
  obtain ⟨x, hx, H⟩ := exists_follows (g := ⟨fun _ => 1, N⟩) le_rfl
  obtain ⟨y, hy, H'⟩ := exists_follows (g := ⟨Function.update (fun _ => 1) 0 2, N⟩) le_rfl
  have hsame : SameState x y 0 := by
    refine ⟨?_, ?_⟩
    · rw [hx 0 (by decide), hy 0 (by decide)]
      decide
    · intro i hpos hi
      have hne : i ≠ 0 := by omega
      rw [Nat.zero_add, hx i hi, hy i hi]
      simp [hne]
  obtain ⟨g₁, hg₁, H₁⟩ := H.calls 1000
  obtain ⟨h₁, hh₁, H₁'⟩ := H'.calls 1000
  obtain ⟨g₂, hg₂, -⟩ := H₁.calls N
  obtain ⟨h₂, hh₂, -⟩ := H₁'.calls N
  have hos : (List.range N).map (fun i => temper (x (N + 1000 + i))) =
      (List.range N).map fun i => temper (y (N + 1000 + i)) :=
    List.map_congr_left fun i _ => by rw [hsame.eq H.obeys H'.obeys (by simp only [N]; omega)]
  rw [← hos] at hh₂
  exact ⟨_, _, _, g₁, h₁, g₂, h₂, hg₁, hh₁, hg₂, hh₂, outputs_eq_of_window
    (g := ⟨fun _ => 1, N⟩) ⟨Nat.succ_pos _, le_rfl⟩ rfl hg₁ hh₁ hg₂ hh₂⟩

/-! ### Stuck at zero -/

/-- What `init_by_array` leaves behind, if it stays inside of its arrays. -/
lemma initByArray_eq_some {initKey : List Word} {keyLength : ℤ}
    (h : initByArray g initKey keyLength = some g') : g'.mt 0 = 0x80000000 ∧ g'.mti = N := by
  obtain ⟨mt, hmt, -⟩ := initGenrand_eq g 19650218
  simp only [initByArray, hmt, Option.bind_some, Option.bind_eq_some_iff, Option.map_eq_some_iff]
    at h
  obtain ⟨s, -, t, -, mt', hmt', rfl⟩ := h
  rw [store_of_lt (by decide), Option.some.injEq] at hmt'
  have hzero : mt' 0 = 0x80000000 := by rw [← hmt', Function.update_self]
  exact ⟨hzero, rfl⟩

inductive Seeded : Generator → Prop where
  | initGenrand {g g' : Generator} (s : Word) (h : initGenrand g s = some g') : Seeded g'
  | initByArray {g g' : Generator} (initKey : List Word) (keyLength : ℤ)
      (h : initByArray g initKey keyLength = some g') : Seeded g'

/-- A seeded generator is not all zero in the bits that matter. -/
lemma Seeded.ne_zero (hg : Seeded g) : g.mti = N ∧ ¬ SameState g.mt (fun _ => 0) 0 := by
  cases hg with
  | initGenrand s h =>
    obtain ⟨mt, hmt, -, hrest⟩ := initGenrand_eq _ s
    obtain rfl : ⟨mt, N⟩ = g := Option.some.inj (hmt.symm.trans h)
    refine ⟨rfl, fun hzero => ?_⟩
    have h1 : mt 1 = 0 := hzero.2 1 (by decide) (by decide)
    have h2 : mt 2 = 0 := hzero.2 2 (by decide) (by decide)
    have h2' := hrest 2 (by decide) (by decide)
    rw [h2, h1] at h2'
    exact absurd h2' (by decide)
  | initByArray initKey keyLength h =>
    obtain ⟨h0, hmti⟩ := initByArray_eq_some h
    refine ⟨hmti, fun hzero => ?_⟩
    have htop := hzero.1
    rw [h0] at htop
    exact absurd htop (by decide)

lemma obeys_zero : Obeys next fun _ => (0 : Word) := by
  intro k
  have hmix : mix 0 0 0 = 0 := by decide
  exact hmix.symm

/-- Whatever the seed, `N` numbers in a row are never all zero. -/
theorem exists_output_ne_zero {g₁ g₂ : Generator} (hg : Seeded g) {skip : ℕ} {gs os : List Word}
    (hgs : outputs skip g = some (gs, g₁)) (hos : outputs N g₁ = some (os, g₂)) :
    ∃ y ∈ os, y ≠ 0 := by
  obtain ⟨hmti, hne⟩ := hg.ne_zero
  obtain ⟨x, hstart, H⟩ := exists_follows hmti.le
  obtain ⟨g₁', hg₁, H₁⟩ := H.calls skip
  obtain ⟨-, rfl⟩ := Prod.mk.inj (Option.some.inj (hg₁.symm.trans hgs))
  obtain ⟨g₂', hg₂, -⟩ := H₁.calls N
  obtain ⟨rfl, -⟩ := Prod.mk.inj (Option.some.inj (hg₂.symm.trans hos))
  by_contra hall
  push Not at hall
  have hzero : ∀ i < N, x (g.mti + skip + i) = 0 := by
    intro i hi
    have hi' := hall (temper (x (g.mti + skip + i)))
      (List.mem_map.mpr ⟨i, List.mem_range.mpr hi, rfl⟩)
    exact temper_injective (hi'.trans (by decide : (0 : Word) = temper 0))
  have hsame : SameState x (fun _ => 0) (g.mti + skip) := by
    refine ⟨?_, fun i _ hi => hzero i hi⟩
    have h0 := hzero 0 (by decide)
    rw [Nat.add_zero] at h0
    rw [h0]
  have hfirst := hsame.first H.obeys obeys_zero
  refine hne ⟨?_, ?_⟩
  · rw [← hstart 0 (by decide)]
    exact hfirst.1
  · intro i hi hiN
    rw [Nat.zero_add, ← hstart i hiN]
    simpa using hfirst.2 i hi hiN

theorem exists_output_ne_zero_default : ∃ g gs g₁ os g₂,
    initGenrand ⟨fun _ => 0, N + 1⟩ 5489 = some g ∧ outputs 1000 g = some (gs, g₁) ∧
      outputs N g₁ = some (os, g₂) ∧ ∃ y ∈ os, y ≠ 0 := by
  obtain ⟨mt, hmt, -⟩ := initGenrand_eq ⟨fun _ => 0, N + 1⟩ 5489
  obtain ⟨x, -, H⟩ := exists_follows (g := ⟨mt, N⟩) le_rfl
  obtain ⟨g₁, hg₁, H₁⟩ := H.calls 1000
  obtain ⟨g₂, hg₂, -⟩ := H₁.calls N
  exact ⟨⟨mt, N⟩, _, g₁, _, g₂, hmt, hg₁, hg₂,
    exists_output_ne_zero (.initGenrand 5489 hmt) hg₁ hg₂⟩

/-! ### Keys -/

section

variable {initKey : List Word} {keyLength : ℤ} {mt mt' : ℕ → Word} {i j : ℕ}

lemma wrap_spec (mt : ℕ → Word) (i : ℕ) :
    ∃ mt' i', wrap mt i = some (mt', i') ∧ 0 < i' ∧ i' < N := by
  rw [wrap]
  split_ifs with h
  · refine ⟨Function.update mt 0 (mt (N - 1)), 1, ?_, by decide, by decide⟩
    rw [load_of_lt (by decide), Option.bind_some, store_of_lt (by decide), Option.map_some]
  · exact ⟨mt, i + 1, rfl, Nat.succ_pos i, by omega⟩

lemma keyTurn_spec (hi : 0 < i ∧ i < N) (hj : j < initKey.length)
    (hlen : initKey ≠ [] ∧ keyLength ≤ initKey.length) (k : ℕ) :
    ∃ s, keyTurn initKey keyLength (mt, i, j) k = some s ∧
      (0 < s.2.1 ∧ s.2.1 < N) ∧ s.2.2 < initKey.length := by
  obtain ⟨mt', i', hwrap, hi'⟩ := wrap_spec (Function.update mt i
    ((mt i ^^^ (fold (mt (i - 1)) * 1664525)) + initKey[j] + BitVec.ofNat 32 j)) i
  refine ⟨(mt', i', if (j : ℤ) + 1 ≥ keyLength then 0 else j + 1), ?_, hi', ?_⟩
  · simp only [keyTurn, load_of_lt hi.2, loadBefore_of_lt hi.1 hi.2, Option.bind_some,
      List.getElem?_eq_getElem hj, store_of_lt hi.2, hwrap, Option.map_some]
  · split_ifs with h
    · exact List.length_pos_iff.mpr hlen.1
    · have hlt : (j : ℤ) + 1 < initKey.length := by omega
      exact_mod_cast hlt

lemma mixTurn_spec (hi : 0 < i ∧ i < N) (k : ℕ) :
    ∃ s, mixTurn (mt, i) k = some s ∧ 0 < s.2 ∧ s.2 < N := by
  obtain ⟨mt', i', hwrap, hi'⟩ := wrap_spec (Function.update mt i
    ((mt i ^^^ (fold (mt (i - 1)) * 1566083941)) - BitVec.ofNat 32 i)) i
  refine ⟨(mt', i'), ?_, hi'⟩
  simp only [mixTurn, load_of_lt hi.2, loadBefore_of_lt hi.1 hi.2, Option.bind_some,
    store_of_lt hi.2, hwrap]

/-- With a key that is shorter than `key_length` says, `j` counts the turns up to its end. -/
lemma keyTurn_overrun {s s' : (ℕ → Word) × ℕ × ℕ} {k : ℕ}
    (hlen : (initKey.length : ℤ) < keyLength) (h : keyTurn initKey keyLength s k = some s') :
    s.2.2 < initKey.length ∧ s'.2.2 = s.2.2 + 1 := by
  obtain ⟨mt, i, j⟩ := s
  simp only [keyTurn, Option.bind_eq_some_iff, Option.map_eq_some_iff] at h
  obtain ⟨u, -, v, -, key, hkey, mt', -, p, -, rfl⟩ := h
  obtain ⟨hj, -⟩ := List.getElem?_eq_some_iff.mp hkey
  refine ⟨hj, if_neg ?_⟩
  omega

end

/-- Seeding from an array stays inside of it if there is at least one word, also when `key_length`
says that there is none, and if there are as many as `key_length` says. -/
theorem initByArray_isSome_iff (g : Generator) (initKey : List Word) (keyLength : ℤ) :
    (initByArray g initKey keyLength).isSome ↔
      initKey ≠ [] ∧ keyLength ≤ initKey.length := by
  obtain ⟨mt, hmt, -⟩ := initGenrand_eq g 19650218
  rw [initByArray, hmt, Option.bind_some]
  constructor
  · intro h
    obtain ⟨g', hg'⟩ := Option.isSome_iff_exists.mp h
    simp only [Option.bind_eq_some_iff] at hg'
    obtain ⟨s, hs, -⟩ := hg'
    generalize hk : (if N > keyLength then (N : ℤ) else keyLength).toNat = k at hs
    have hN : N ≤ k ∧ keyLength ≤ k := by
      split_ifs at hk <;> omega
    by_contra hbad
    have hlen : (initKey.length : ℤ) < keyLength ∨ initKey = [] := by
      by_cases hnil : initKey = []
      · exact .inr hnil
      · exact .inl (by simpa [hnil] using hbad)
    rcases hlen with hlen | rfl
    · have hcount : s.2.2 = ([] ++ List.range' 0 k).length ∧
          ([] ++ List.range' 0 k).length ≤ initKey.length :=
        run_history (R := fun pre s => s.2.2 = pre.length ∧ pre.length ≤ initKey.length)
          (fun pre s e s' hR hstep => by
            obtain ⟨hj, hj'⟩ := keyTurn_overrun hlen hstep
            rw [List.length_append, List.length_singleton]
            omega) (by simp) hs
      rw [List.nil_append, List.length_range'] at hcount
      omega
    · obtain ⟨k, rfl⟩ := Nat.exists_eq_add_of_le' (show 1 ≤ k by simp only [N] at hN; omega)
      rw [List.range'_succ, run_cons] at hs
      simp [keyTurn] at hs
  · intro hlen
    obtain ⟨⟨mt₁, i₁, j₁⟩, h₁, hi₁, -⟩ := run_range' (keyTurn initKey keyLength) 0
      (if N > keyLength then (N : ℤ) else keyLength).toNat
      (P := fun _ s => (0 < s.2.1 ∧ s.2.1 < N) ∧ s.2.2 < initKey.length)
      (fun k s _ _ hs => keyTurn_spec hs.1 hs.2 hlen k)
      (s := (mt, 1, 0)) ⟨⟨Nat.one_pos, Nat.one_lt_ofNat⟩, List.length_pos_iff.mpr hlen.1⟩
    obtain ⟨⟨mt₂, i₂⟩, h₂, -⟩ := run_range' mixTurn 0 (N - 1)
      (P := fun _ s => 0 < s.2 ∧ s.2 < N) (fun k s _ _ hs => mixTurn_spec hs k)
      (s := (mt₁, i₁)) hi₁
    simp only [h₁, h₂, Option.bind_some, store_of_lt (show 0 < N by decide), Option.map_some,
      Option.isSome_some]

end BcmMruby.Mt19937ar
