import BcmMruby.Core.Circle
import BcmMruby.Core.Run

/-!
# Queues

`lib_queue.c` and the macros of `lib_queue.h`, on a memory of elements that are known by their
addresses. The three routines that walk along a queue get the number of turns they may take; a
queue whose pointers are corrupted can keep them going for ever.

`Call` and `spec` say what the routines are for: a number of queues, each with its elements in
order, and no element on two of them. `spec` has no answer for a call that a user must not make,
such as one that enqueues an element for the second time.
-/

namespace BcmMruby.LibQueue

open Core

variable {ι : Type*} [DecidableEq ι]

/-! ### The routines -/

def qInit (m : Links ι) (q : ι) : Links ι := (m.setPrev q q).setNext q q

def qIsempty (m : Links ι) (q : ι) : Bool := m.next q = q

def qGetfirst (m : Links ι) (q : ι) : ι := m.next q

def qGetlast (m : Links ι) (q : ι) : ι := m.prev q

def qEnqueue (m : Links ι) (qb item : ι) : Links ι := m.insertBefore qb item

def qDequeue (m : Links ι) (item : ι) : Links ι := m.remove item

def qDeqnext (m : Links ι) (qb : ι) : Option ι × Links ι :=
  if m.next qb = qb then (none, m)
  else
    let qb := m.next qb
    (some qb, m.remove qb)

/-- The loop of `q_count`, with the element it has come to and the count. -/
def countTurns (m : Links ι) (qb : ι) : ℕ → ι → ℕ → Option ℕ
  | 0, _, _ => none
  | k + 1, qe, res => if m.next qe = qb then some res else countTurns m qb k (m.next qe) (res + 1)

def qCount (turns : ℕ) (m : Links ι) (qb : ι) : Option ℕ := countTurns m qb turns qb 0

def findTurns (m : Links ι) (qb item : ι) : ℕ → ι → ℕ → Option ℕ
  | 0, _, _ => none
  | k + 1, q, res =>
    if q = item then some res
    else if q = qb then some 0
    else findTurns m qb item k (m.next q) (res + 1)

def qFind (turns : ℕ) (m : Links ι) (qb item : ι) : Option ℕ :=
  findTurns m qb item turns (m.next qb) 1

/-- The loop of `q_map`. The state `σ` is all that `func` can reach, the queues included. -/
def mapTurns {σ : Type*} (links : σ → Links ι) (func : σ → ι → ℤ × σ) (qb : ι) :
    ℕ → σ → ι → Option (ℤ × σ)
  | 0, _, _ => none
  | k + 1, s, qe =>
    if qe = qb then some (0, s)
    else
      let nextq := (links s).next qe
      let (res, s) := func s qe
      if res ≠ 0 then some (res, s) else mapTurns links func qb k s nextq

def qMap {σ : Type*} (turns : ℕ) (links : σ → Links ι) (func : σ → ι → ℤ × σ) (s : σ) (qb : ι) :
    Option (ℤ × σ) :=
  mapTurns links func qb turns s ((links s).next qb)

/-! ### What the routines are for -/

inductive Call (ι : Type*) where
  | init (q : ι)
  | enqueue (qb item : ι)
  | dequeue (item : ι)
  | deqnext (qb : ι)
  | isempty (q : ι)
  | getfirst (q : ι)
  | getlast (q : ι)
  | count (qb : ι)
  | find (qb item : ι)

inductive Value (ι : Type*) where
  | void
  | ptr (p : Option ι)
  | int (n : ℕ)

/-- One call on the memory; `none` is a loop that does not come to its end in `turns` turns. -/
def exec (turns : ℕ) (m : Links ι) : Call ι → Option (Value ι × Links ι)
  | .init q => some (.void, qInit m q)
  | .enqueue qb item => some (.void, qEnqueue m qb item)
  | .dequeue item => some (.void, qDequeue m item)
  | .deqnext qb => let (p, m) := qDeqnext m qb; some (.ptr p, m)
  | .isempty q => some (.int (qIsempty m q).toNat, m)
  | .getfirst q => some (.ptr (some (qGetfirst m q)), m)
  | .getlast q => some (.ptr (some (qGetlast m q)), m)
  | .count qb => (qCount turns m qb).map fun n => (.int n, m)
  | .find qb item => (qFind turns m qb item).map fun n => (.int n, m)

/-- The calls in turn, and the values they return. -/
def execAll (turns : ℕ) : Links ι → List (Call ι) → Option (List (Value ι) × Links ι)
  | m, [] => some ([], m)
  | m, c :: cs =>
    (exec turns m c).bind fun r => (execAll turns r.2 cs).map fun rs => (r.1 :: rs.1, rs.2)

/-- The queues there are, by their heads. -/
abbrev Queues (ι : Type*) : Type _ := ι → Option (List ι)

/-- What one call returns and makes of the queues. -/
inductive Spec (s : Queues ι) : Call ι → Value ι → Queues ι → Prop where
  | init {q : ι} (hq : ∀ q' xs', q' ≠ q → s q' = some xs' → q ∉ xs') :
      Spec s (.init q) .void (Function.update s q (some []))
  | enqueue {qb item : ι} {xs : List ι} (hq : s qb = some xs) (hitem : Links.Loose s item) :
      Spec s (.enqueue qb item) .void (Function.update s qb (some (xs ++ [item])))
  | dequeue {qb item : ι} {xs : List ι} (hq : s qb = some xs) (hitem : item ∈ xs) :
      Spec s (.dequeue item) .void (Function.update s qb (some (xs.erase item)))
  | deqnextNil {qb : ι} (hq : s qb = some []) : Spec s (.deqnext qb) (.ptr none) s
  | deqnextCons {qb x : ι} {xs : List ι} (hq : s qb = some (x :: xs)) :
      Spec s (.deqnext qb) (.ptr (some x)) (Function.update s qb (some xs))
  | isempty {q : ι} {xs : List ι} (hq : s q = some xs) :
      Spec s (.isempty q) (.int xs.isEmpty.toNat) s
  | getfirst {q : ι} {xs : List ι} (hq : s q = some xs) :
      Spec s (.getfirst q) (.ptr (some ((xs ++ [q]).head (by simp)))) s
  | getlast {q : ι} {xs : List ι} (hq : s q = some xs) :
      Spec s (.getlast q) (.ptr (some ((q :: xs).getLast (by simp)))) s
  | count {qb : ι} {xs : List ι} (hq : s qb = some xs) : Spec s (.count qb) (.int xs.length) s
  | find {qb item : ι} {xs : List ι} (hq : s qb = some xs) :
      Spec s (.find qb item)
        (.int (if item ∈ xs ++ [qb] then (xs ++ [qb]).idxOf item + 1 else 0)) s

inductive SpecAll : Queues ι → List (Call ι) → List (Value ι) → Queues ι → Prop where
  | nil (s : Queues ι) : SpecAll s [] [] s
  | cons {s s' t : Queues ι} {c : Call ι} {v : Value ι} {cs : List (Call ι)}
      {vs : List (Value ι)} (hfirst : Spec s c v s') (hrest : SpecAll s' cs vs t) :
      SpecAll s (c :: cs) (v :: vs) t

/-! ### Refinement -/

variable {m : Links ι} {s s' : Queues ι}

lemma isempty_eq {q : ι} {xs : List ι} (H : m.Holds q xs) :
    qIsempty m q = xs.isEmpty := by
  cases xs with
  | nil => simpa [qIsempty] using H.next_eq_self.mpr rfl
  | cons x xs =>
    have hne : m.next q ≠ q := fun e => by simpa using H.next_eq_self.mp e
    simp [qIsempty, hne]

/-- The loop of `q_count` goes on to the end of a segment. -/
lemma countTurns_eq {qb qe : ι} {xs : List ι} (hs : m.Segment qe xs qb) (hqb : qb ∉ xs)
    {k : ℕ} (hk : xs.length < k) (res : ℕ) :
    countTurns m qb k qe res = some (res + xs.length) := by
  induction xs generalizing qe k res with
  | nil =>
    cases k with
    | zero => simp at hk
    | succ k => simp [countTurns, hs.1]
  | cons x xs ih =>
    cases k with
    | zero => simp at hk
    | succ k =>
      obtain ⟨⟨hx, -⟩, hrest⟩ := hs
      have hne : x ≠ qb := fun e => hqb (by simp [e])
      have hqb' : qb ∉ xs := fun hmem => hqb (List.mem_cons_of_mem x hmem)
      have hk' : xs.length < k := by simpa using hk
      rw [countTurns, hx, if_neg hne, ih hrest hqb' hk', List.length_cons]
      congr 1
      omega

lemma qCount_eq {qb : ι} {xs : List ι} (H : m.Holds qb xs) {turns : ℕ}
    (hturns : xs.length < turns) : qCount turns m qb = some xs.length := by
  rw [qCount, countTurns_eq H.segment (List.nodup_cons.mp H.nodup).1 hturns, Nat.zero_add]

/-- The loop of `q_find`, from the first of the elements `xs` on. -/
lemma findTurns_eq {a qb item : ι} {xs : List ι} (hs : m.Segment a xs qb) (hqb : qb ∉ xs)
    {k : ℕ} (hk : xs.length < k) (res : ℕ) :
    findTurns m qb item k (m.next a) res =
      some (if item ∈ xs ++ [qb] then res + (xs ++ [qb]).idxOf item else 0) := by
  induction xs generalizing a k res with
  | nil =>
    cases k with
    | zero => simp at hk
    | succ k =>
      rw [findTurns, hs.1]
      by_cases hitem : qb = item
      · simp [hitem]
      · have hitem' : item ≠ qb := fun e => hitem e.symm
        simp [hitem, hitem']
  | cons x xs ih =>
    cases k with
    | zero => simp at hk
    | succ k =>
      obtain ⟨⟨hx, -⟩, hrest⟩ := hs
      have hne : x ≠ qb := fun e => hqb (by simp [e])
      have hqb' : qb ∉ xs := fun hmem => hqb (List.mem_cons_of_mem x hmem)
      have hk' : xs.length < k := by simpa using hk
      rw [findTurns, hx]
      by_cases hitem : x = item
      · simp [hitem]
      · have hitem' : item ≠ x := fun e => hitem e.symm
        rw [if_neg hitem, if_neg hne, ih hrest hqb' hk', List.cons_append,
          List.idxOf_cons_ne _ hitem]
        simp only [List.mem_cons, hitem', false_or]
        split_ifs
        · congr 1
          omega
        · rfl

lemma qFind_eq {qb : ι} {xs : List ι} (H : m.Holds qb xs) {turns : ℕ}
    (hturns : xs.length < turns) (item : ι) :
    qFind turns m qb item =
      some (if item ∈ xs ++ [qb] then (xs ++ [qb]).idxOf item + 1 else 0) := by
  rw [qFind, findTurns_eq H.segment (List.nodup_cons.mp H.nodup).1 hturns]
  simp only [Nat.add_comm]

/-- One call does on the memory what it should do to the queues. -/
lemma exec_of_spec (turns : ℕ) (H : m.Represents s) {c : Call ι} {v : Value ι}
    (hspec : Spec s c v s') (hturns : ∀ q xs, s q = some xs → xs.length < turns) :
    ∃ m', exec turns m c = some (v, m') ∧ m'.Represents s' := by
  cases hspec with
  | init hq => exact ⟨_, rfl, H.fresh hq⟩
  | enqueue hq hitem => exact ⟨_, rfl, H.insertBefore hq hitem⟩
  | dequeue hq hitem => exact ⟨_, rfl, H.remove hq hitem⟩
  | deqnextNil hq =>
    have hself := (H.holds hq).next_eq_self.mpr rfl
    exact ⟨m, by simp [exec, qDeqnext, hself], H⟩
  | @deqnextCons qb x xs hq =>
    have hholds := H.holds hq
    have hne : m.next qb ≠ qb := fun e => by simpa using hholds.next_eq_self.mp e
    have hx : m.next qb = x := hholds.segment.1.1
    refine ⟨m.remove x, by simp [exec, qDeqnext, hx, hx ▸ hne], ?_⟩
    simpa using H.remove hq (List.mem_cons_self (a := x))
  | isempty hq => exact ⟨m, by rw [exec, isempty_eq (H.holds hq)], H⟩
  | getfirst hq => exact ⟨m, by rw [exec, qGetfirst, (H.holds hq).segment.next_eq], H⟩
  | getlast hq => exact ⟨m, by rw [exec, qGetlast, (H.holds hq).prev_eq], H⟩
  | count hq => exact ⟨m, by rw [exec, qCount_eq (H.holds hq) (hturns _ _ hq)]; rfl, H⟩
  | find hq => exact ⟨m, by rw [exec, qFind_eq (H.holds hq) (hturns _ _ hq)]; rfl, H⟩

/-- A call makes a queue longer by one element at most. -/
lemma Spec.length_le {c : Call ι} {v : Value ι} (hspec : Spec s c v s') {n : ℕ}
    (hs : ∀ q xs, s q = some xs → xs.length ≤ n) :
    ∀ q xs, s' q = some xs → xs.length ≤ n + 1 := by
  have hupdate : ∀ {q₀ : ι} {ys : List ι}, ys.length ≤ n + 1 →
      ∀ q xs, Function.update s q₀ (some ys) q = some xs → xs.length ≤ n + 1 := by
    intro q₀ ys hys q xs hq
    rw [Function.update_apply] at hq
    split_ifs at hq with h
    · cases hq
      exact hys
    · exact (hs q xs hq).trans (Nat.le_succ n)
  have hsame : ∀ q xs, s q = some xs → xs.length ≤ n + 1 :=
    fun q xs hq => (hs q xs hq).trans (Nat.le_succ n)
  cases hspec with
  | init => exact hupdate (by simp)
  | enqueue hq => exact hupdate (by simpa using hs _ _ hq)
  | dequeue hq =>
    exact hupdate (List.length_erase_le.trans ((hs _ _ hq).trans (Nat.le_succ n)))
  | deqnextCons hq =>
    have hlen := hs _ _ hq
    rw [List.length_cons] at hlen
    exact hupdate (by omega)
  | deqnextNil | isempty | getfirst | getlast | count | find => exact hsame

lemma execAll_of_specAll {n : ℕ} (H : m.Represents s) {cs : List (Call ι)}
    {vs : List (Value ι)} (hspec : SpecAll s cs vs s')
    (hs : ∀ q xs, s q = some xs → xs.length ≤ n) {turns : ℕ} (hturns : n + cs.length ≤ turns) :
    ∃ m', execAll turns m cs = some (vs, m') ∧ m'.Represents s' := by
  induction hspec generalizing m n with
  | nil s => exact ⟨m, rfl, H⟩
  | cons hfirst hrest ih =>
    rw [List.length_cons] at hturns
    obtain ⟨m₁, hm₁, H₁⟩ := exec_of_spec turns H hfirst
      fun q xs hq => (hs q xs hq).trans_lt (by omega)
    obtain ⟨m₂, hm₂, H₂⟩ := ih H₁ (hfirst.length_le hs) (by omega)
    exact ⟨m₂, by simp [execAll, hm₁, hm₂], H₂⟩

/-- Any calls that a user may make, on any number of queues in a memory of any contents, return
what they should and leave the queues as they should be; a loop takes no more turns than there
have been calls. -/
theorem queues_correct (m : Links ι) {s : Queues ι} {cs : List (Call ι)} {vs : List (Value ι)}
    (hspec : SpecAll (fun _ => none) cs vs s) {turns : ℕ} (hturns : cs.length ≤ turns) :
    ∃ m', execAll turns m cs = some (vs, m') ∧ m'.Represents s :=
  execAll_of_specAll (Links.represents_none m) hspec (n := 0) (by simp) (by simpa using hturns)

/-- The calls of a free list: it gets two elements, and gives the first one out. -/
def freelistCalls : List (Call ℕ) :=
  [.init 0, .enqueue 0 1, .enqueue 0 2, .deqnext 0, .find 0 2]

theorem queues_correct_freelist :
    ∃ (m' : Links ℕ) (s : Queues ℕ),
      execAll 5 ⟨fun _ => 7, fun _ => 7⟩ freelistCalls =
        some ([.void, .void, .void, .ptr (some 1), .int 1], m') ∧ m'.Represents s := by
  have hspec : SpecAll (fun _ => none) freelistCalls
      [.void, .void, .void, .ptr (some 1), .int 1] _ :=
    .cons (.init (by simp)) <|
    .cons (.enqueue (Function.update_self ..)
      ((Links.loose_none 1).update (by decide) (by decide))) <|
    .cons (.enqueue (Function.update_self ..)
      (((Links.loose_none 2).update (by decide) (by decide)).update (by decide) (by decide))) <|
    .cons (.deqnextCons (Function.update_self ..)) <|
    .cons (.find (Function.update_self ..)) (.nil _)
  have hturns : freelistCalls.length ≤ 5 := by decide
  obtain ⟨m', hm', H⟩ := queues_correct ⟨fun _ => 7, fun _ => 7⟩ hspec hturns
  exact ⟨m', _, hm', H⟩

/-! ### Mapping a queue -/

variable {σ : Type*}

/-- The function for one element after the other, until it returns a value other than 0. -/
def mapList (func : σ → ι → ℤ × σ) : σ → List ι → ℤ × σ
  | s, [] => (0, s)
  | s, x :: xs =>
    let (res, s) := func s x
    if res ≠ 0 then (res, s) else mapList func s xs

/-- `q_map` goes over the elements that are on the queue at its start, if the function leaves those
alone that are still to come. -/
lemma qMap_eq {links : σ → Links ι} {func : σ → ι → ℤ × σ} {qb : ι} {P : List ι → σ → Prop}
    (hnext : ∀ x ys s, P (x :: ys) s → (links s).next x = (ys ++ [qb]).head (by simp))
    (hfunc : ∀ x ys s, P (x :: ys) s → (func s x).1 = 0 → P ys (func s x).2)
    {xs : List ι} (hqb : qb ∉ xs) {s : σ} (hs : P xs s) {k : ℕ} (hk : xs.length < k) {qe : ι}
    (hqe : qe = (xs ++ [qb]).head (by simp)) :
    mapTurns links func qb k s qe = some (mapList func s xs) := by
  induction xs generalizing s k qe with
  | nil =>
    cases k with
    | zero => simp at hk
    | succ k => simp [mapTurns, mapList, hqe]
  | cons x xs ih =>
    cases k with
    | zero => simp at hk
    | succ k =>
      have hne : x ≠ qb := fun e => hqb (by simp [e])
      have hqb' : qb ∉ xs := fun hmem => hqb (List.mem_cons_of_mem x hmem)
      have hk' : xs.length < k := by simpa using hk
      obtain rfl : qe = x := hqe
      by_cases hres : (func s qe).1 = 0
      · have hrest := ih hqb' (hfunc qe xs s hs hres) hk' (hnext qe xs s hs)
        simp [mapTurns, mapList, hne, hres, hrest]
      · simp [mapTurns, mapList, hne, hres]

/-- The elements that a function returning `r` gets to see, those behind them, and the result. -/
def visit (r : ι → ℤ) : List ι → List ι × List ι × ℤ
  | [] => ([], [], 0)
  | x :: xs =>
    if r x ≠ 0 then ([x], xs, r x)
    else
      let (seen, rest, res) := visit r xs
      (x :: seen, rest, res)

/-- A function for `q_map` that takes its element off its queue and puts it on another. -/
def moveTo (q : ι) (r : ι → ℤ) (m : Links ι) (x : ι) : ℤ × Links ι :=
  (r x, qEnqueue (qDequeue m x) q x)

/-- The queues with `xs` on `q` and `zs` on `q'`. -/
def Queues.pair (s : Queues ι) (q q' : ι) (xs zs : List ι) : Queues ι :=
  Function.update (Function.update s q (some xs)) q' (some zs)

section

variable {q q' x : ι} {xs zs : List ι} {r : ι → ℤ}

lemma pair_fst (hne : q ≠ q') : s.pair q q' xs zs q = some xs := by
  simp [Queues.pair, Function.update_of_ne hne]

lemma pair_snd : s.pair q q' xs zs q' = some zs := by simp [Queues.pair]

lemma update_pair_fst (hne : q ≠ q') (ys : List ι) :
    Function.update (s.pair q q' xs zs) q (some ys) = s.pair q q' ys zs := by
  rw [Queues.pair, Queues.pair, Function.update_comm hne.symm, Function.update_idem]

lemma update_pair_snd (ys : List ι) :
    Function.update (s.pair q q' xs zs) q' (some ys) = s.pair q q' xs ys := by
  rw [Queues.pair, Queues.pair, Function.update_idem]

lemma represents_moveTo (hne : q ≠ q') (H : m.Represents (s.pair q q' (x :: xs) zs)) :
    (moveTo q' r m x).2.Represents (s.pair q q' xs (zs ++ [x])) := by
  have hx : x ∈ x :: xs := List.mem_cons_self
  have hremove := H.remove (pair_fst hne) hx
  have hloose := H.loose_erase (pair_fst hne) hx
  rw [List.erase_cons_head, update_pair_fst hne] at hremove hloose
  have hinsert := hremove.insertBefore pair_snd hloose
  rwa [update_pair_snd] at hinsert

lemma mapList_moveTo (hne : q ≠ q') (H : m.Represents (s.pair q q' xs zs)) :
    ∃ m', mapList (moveTo q' r) m xs = ((visit r xs).2.2, m') ∧
      m'.Represents (s.pair q q' (visit r xs).2.1 (zs ++ (visit r xs).1)) := by
  induction xs generalizing m zs with
  | nil => exact ⟨m, rfl, by simpa [visit] using H⟩
  | cons x xs ih =>
    have hmove := represents_moveTo (r := r) hne H
    by_cases hr : r x = 0
    · obtain ⟨m', hm', H'⟩ := ih hmove
      refine ⟨m', by simpa [mapList, visit, moveTo, hr] using hm', ?_⟩
      simpa [visit, hr] using H'
    · refine ⟨(moveTo q' r m x).2, ?_, by simpa [visit, hr] using hmove⟩
      simp [mapList, visit, moveTo, hr]

/-- A function that moves its element to another queue does not confuse `q_map`: the elements that
were on the queue are moved in order, up to the first for which the function returns a value other
than 0, and the others stay. -/
theorem qMap_moveTo (hne : q ≠ q') (H : m.Represents (s.pair q q' xs zs)) {turns : ℕ}
    (hturns : xs.length < turns) :
    ∃ m', qMap turns id (moveTo q' r) m q = some ((visit r xs).2.2, m') ∧
      m'.Represents (s.pair q q' (visit r xs).2.1 (zs ++ (visit r xs).1)) := by
  obtain ⟨m', hm', H'⟩ := mapList_moveTo (r := r) hne H
  have hholds := H.holds (pair_fst hne)
  refine ⟨m', ?_, H'⟩
  rw [← hm']
  refine qMap_eq (P := fun ys m => ∃ zs, m.Represents (s.pair q q' ys zs)) ?_ ?_
    (List.nodup_cons.mp hholds.nodup).1 ⟨zs, H⟩ hturns hholds.segment.next_eq
  · rintro x ys m₁ ⟨zs₁, H₁⟩
    exact (H₁.holds (pair_fst hne)).segment.2.next_eq
  · rintro x ys m₁ ⟨zs₁, H₁⟩ -
    exact ⟨_, represents_moveTo hne H₁⟩

/-- Of three elements the second one stops `q_map`. -/
theorem qMap_moveTo_three :
    ∃ m m' : Links ℕ,
      qMap 4 id (moveTo 1 fun x => if x = 3 then -1 else 0) m 0 = some (-1, m') ∧
        m'.Represents (Queues.pair (fun _ => none) 0 1 [4] [2, 3]) := by
  have hinit : (qInit (qInit (⟨fun _ => 7, fun _ => 7⟩ : Links ℕ) 0) 1).Represents
      (Queues.pair (fun _ => none) 0 1 [] []) := by
    refine ((Links.represents_none _).fresh (by simp)).fresh ?_
    intro q' xs' _ hq'
    rcases eq_or_ne q' 0 with rfl | hne
    · obtain rfl : [] = xs' := by simpa using hq'
      simp
    · simp [Function.update_of_ne hne] at hq'
  have henqueue : ∀ (m : Links ℕ) (xs : List ℕ) (x : ℕ),
      m.Represents (Queues.pair (fun _ => none) 0 1 xs []) → x ≠ 0 ∧ x ≠ 1 ∧ x ∉ xs →
      (qEnqueue m 0 x).Represents (Queues.pair (fun _ => none) 0 1 (xs ++ [x]) []) := by
    rintro m xs x H ⟨h0, h1, hxs⟩
    have hinsert := H.insertBefore (pair_fst (by decide))
      (((Links.loose_none x).update h0 hxs).update h1 (by simp))
    rwa [update_pair_fst (by decide)] at hinsert
  have hthree := henqueue _ _ 4 (henqueue _ _ 3 (henqueue _ _ 2 hinit (by decide))
    (by decide)) (by decide)
  have hturns : [2, 3, 4].length < 4 := by decide
  obtain ⟨m', hm', H⟩ :=
    qMap_moveTo (r := fun x => if x = 3 then -1 else 0) (by decide) hthree hturns
  exact ⟨_, m', hm', H⟩

end

end BcmMruby.LibQueue
