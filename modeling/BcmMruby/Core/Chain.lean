import Mathlib.Tactic

/-!
# Chains of reference-counted cells

A heap of cells, each with a successor, a reference count and contents. `release` takes a reference
from a cell, frees the cell if that was the last one, and goes on with the successor of a cell that
it has freed. A cell keeps its address when it is freed, and an address is not given out twice;
`release` of a cell that is not there fails.
-/

namespace Core

variable {α : Type*}

structure Cell (α : Type*) where
  next : Option ℕ
  ref : ℕ
  contents : α

/-- The cells allocated and not yet freed. -/
structure Heap (α : Type*) where
  cells : ℕ → Option (Cell α)
  /-- The number of cells ever allocated. -/
  count : ℕ
  /-- How often a cell has been freed. -/
  frees : ℕ → ℕ
  bounded : ∀ p, count ≤ p → cells p = none

namespace Heap

def empty : Heap α := ⟨fun _ => none, 0, fun _ => 0, fun _ _ => rfl⟩

/-- `h` with a new cell, at the address `h.count`. -/
def push (h : Heap α) (c : Cell α) : Heap α where
  cells := fun q => if q = h.count then some c else h.cells q
  count := h.count + 1
  frees := h.frees
  bounded := by
    intro p hp
    have hne : p ≠ h.count := by omega
    rw [if_neg hne]
    exact h.bounded p (by omega)

def erase (h : Heap α) (p : ℕ) : Heap α where
  cells := fun q => if q = p then none else h.cells q
  count := h.count
  frees := fun q => if q = p then h.frees q + 1 else h.frees q
  bounded := by
    intro q hq
    simp [h.bounded q hq]

/-- Change the cell at `p`, if there is one. -/
def modify (h : Heap α) (p : ℕ) (f : Cell α → Cell α) : Heap α where
  cells := fun q => if q = p then (h.cells q).map f else h.cells q
  count := h.count
  frees := h.frees
  bounded := by
    intro q hq
    simp [h.bounded q hq]

/-- Take one more reference. -/
def retain (h : Heap α) (p : ℕ) : Heap α := h.modify p fun c => { c with ref := c.ref + 1 }

/-- A chain of new cells, each with one reference. -/
def allocChain (h : Heap α) : List α → Option ℕ × Heap α
  | [] => (none, h)
  | a :: as =>
    let (next, h) := allocChain h as
    (some h.count, h.push ⟨next, 1, a⟩)

/-- `release` with a bound on the number of cells it frees. -/
def releaseFrom : ℕ → Heap α → ℕ → Option (Heap α)
  | 0, _, _ => none
  | fuel + 1, h, p =>
    match h.cells p with
    | none => none
    | some c =>
      if c.ref = 1 then
        match c.next with
        | none => some (h.erase p)
        | some q => releaseFrom fuel (h.erase p) q
      else some (h.modify p fun c => { c with ref := c.ref - 1 })

/-- Give a reference back. -/
def release (h : Heap α) (p : ℕ) : Option (Heap α) := releaseFrom h.count h p

/-- The addresses of a chain, at most `fuel` of them. -/
def walk : ℕ → Heap α → Option ℕ → List ℕ
  | 0, _, _ => []
  | _ + 1, _, none => []
  | fuel + 1, h, some p => p :: walk fuel h ((h.cells p).bind (·.next))

/-- The contents of the cells at these addresses. -/
def contents (h : Heap α) (ids : List ℕ) : List α :=
  ids.filterMap fun p => (h.cells p).map (·.contents)

/-- The contents of the chain that starts at `p`. -/
def chainAt (h : Heap α) (p : Option ℕ) : List α := h.contents (walk h.count h p)

/-- The chain that starts at `p` has its cells at `ids`. -/
def Chain (h : Heap α) : Option ℕ → List ℕ → Prop
  | none, [] => True
  | some p, q :: ids => q = p ∧ p ∉ ids ∧ ∃ c, h.cells p = some c ∧ Chain h c.next ids
  | _, _ => False

/-- Each of the cells has one reference. -/
def Sole (h : Heap α) (ids : List ℕ) : Prop := ∀ p ∈ ids, ∀ c, h.cells p = some c → c.ref = 1

/-- The cells of the chain at `p` are all the cells there are, with one reference each. -/
structure Owns (h : Heap α) (p : Option ℕ) (ids : List ℕ) : Prop where
  chain : h.Chain p ids
  sole : h.Sole ids
  only : ∀ q, h.cells q ≠ none → q ∈ ids

/-- Of the cells ever allocated, those that are gone have been freed once, and the others never. -/
def FreedOnce (h : Heap α) : Prop :=
  ∀ q, h.frees q = if q < h.count ∧ h.cells q = none then 1 else 0

/-! ### Chains -/

variable {h h' : Heap α} {p : Option ℕ} {ids : List ℕ}

lemma chain_some {p : ℕ} : h.Chain (some p) ids ↔
    ∃ c rest, ids = p :: rest ∧ p ∉ rest ∧ h.cells p = some c ∧ h.Chain c.next rest := by
  cases ids with
  | nil => simp [Chain]
  | cons q rest =>
    constructor
    · rintro ⟨rfl, hnot, c, hc, hrest⟩
      exact ⟨c, rest, rfl, hnot, hc, hrest⟩
    · rintro ⟨c, rest', heq, hnot, hc, hrest⟩
      obtain ⟨rfl, rfl⟩ := List.cons.inj heq
      exact ⟨rfl, hnot, c, hc, hrest⟩

lemma chain_none : h.Chain none ids ↔ ids = [] := by
  cases ids <;> simp [Chain]

lemma Chain.live (hc : h.Chain p ids) : ∀ q ∈ ids, h.cells q ≠ none := by
  induction ids generalizing p with
  | nil => simp
  | cons q ids ih =>
    cases p with
    | none => exact absurd hc (by simp [Chain])
    | some p =>
      obtain ⟨rfl, -, c, hcell, hrest⟩ := hc
      intro q' hq'
      rcases List.mem_cons.mp hq' with rfl | hq'
      · simp [hcell]
      · exact ih hrest q' hq'

lemma Chain.nodup (hc : h.Chain p ids) : ids.Nodup := by
  induction ids generalizing p with
  | nil => exact List.nodup_nil
  | cons q ids ih =>
    cases p with
    | none => exact absurd hc (by simp [Chain])
    | some p =>
      obtain ⟨rfl, hnot, c, -, hrest⟩ := hc
      exact List.nodup_cons.mpr ⟨hnot, ih hrest⟩

lemma lt_count_of_ne_none {q : ℕ} (hq : h.cells q ≠ none) : q < h.count := by
  by_contra hlt
  exact hq (h.bounded q (by omega))

/-- There is room to walk along a chain. -/
lemma Chain.length_le (hc : h.Chain p ids) : ids.length ≤ h.count := by
  have hsub : ids.toFinset ⊆ Finset.range h.count := by
    intro q hq
    exact Finset.mem_range.mpr (lt_count_of_ne_none (hc.live q (List.mem_toFinset.mp hq)))
  have hcard := Finset.card_le_card hsub
  rwa [List.toFinset_card_of_nodup hc.nodup, Finset.card_range] at hcard

/-- A chain depends on the links of its own cells only. -/
lemma Chain.congr (hc : h.Chain p ids)
    (heq : ∀ q ∈ ids, (h'.cells q).map (·.next) = (h.cells q).map (·.next)) :
    h'.Chain p ids := by
  induction ids generalizing p with
  | nil =>
    cases p with
    | none => trivial
    | some p => exact absurd hc (by simp [Chain])
  | cons q ids ih =>
    cases p with
    | none => exact absurd hc (by simp [Chain])
    | some p =>
      obtain ⟨rfl, hnot, c, hcell, hrest⟩ := hc
      have hq := heq q List.mem_cons_self
      rw [hcell, Option.map_some, Option.map_eq_some_iff] at hq
      obtain ⟨c', hcell', hnext⟩ := hq
      refine ⟨rfl, hnot, c', hcell', ?_⟩
      rw [hnext]
      exact ih hrest fun q' hq' => heq q' (List.mem_cons_of_mem _ hq')

lemma walk_of_chain (hc : h.Chain p ids) {fuel : ℕ} (hfuel : ids.length ≤ fuel) :
    walk fuel h p = ids := by
  induction ids generalizing p fuel with
  | nil =>
    cases p with
    | none => cases fuel <;> rfl
    | some p => exact absurd hc (by simp [Chain])
  | cons q ids ih =>
    cases p with
    | none => exact absurd hc (by simp [Chain])
    | some p =>
      obtain ⟨rfl, -, c, hcell, hrest⟩ := hc
      obtain ⟨fuel, rfl⟩ : ∃ k, fuel = k + 1 := ⟨fuel - 1, by simp at hfuel; omega⟩
      rw [walk, hcell, Option.bind_some, ih hrest (by simpa using hfuel)]

lemma Chain.chainAt_eq (hc : h.Chain p ids) : h.chainAt p = h.contents ids := by
  rw [chainAt, walk_of_chain hc hc.length_le]

lemma contents_congr (heq : ∀ q ∈ ids, h'.cells q = h.cells q) :
    h'.contents ids = h.contents ids := by
  apply List.filterMap_congr
  intro q hq
  rw [heq q hq]

lemma contents_cons {q : ℕ} {c : Cell α} (hc : h.cells q = some c) :
    h.contents (q :: ids) = c.contents :: h.contents ids := by
  simp [contents, hc]

/-! ### Giving a chain back -/

lemma releaseFrom_of_sole {p fuel : ℕ} (hc : h.Chain (some p) ids) (hs : h.Sole ids)
    (hfuel : ids.length ≤ fuel) :
    ∃ h', releaseFrom fuel h p = some h' ∧
      ∀ q, h'.cells q = if q ∈ ids then none else h.cells q := by
  induction ids generalizing h p fuel with
  | nil => exact absurd hc (by simp [Chain])
  | cons q ids ih =>
    obtain ⟨rfl, hnot, c, hcell, hrest⟩ := hc
    obtain ⟨fuel, rfl⟩ : ∃ k, fuel = k + 1 := ⟨fuel - 1, by simp at hfuel; omega⟩
    have hone : c.ref = 1 := hs q List.mem_cons_self c hcell
    have herase : ∀ q' ∈ ids, (h.erase q).cells q' = h.cells q' := by
      intro q' hq'
      have hne : q' ≠ q := fun e => hnot (e ▸ hq')
      simp [erase, hne]
    rw [releaseFrom, hcell]
    dsimp only
    rw [if_pos hone]
    cases hnext : c.next with
    | none =>
      rw [hnext, chain_none] at hrest
      subst hrest
      exact ⟨_, rfl, fun q' => by simp [erase]⟩
    | some q₁ =>
      rw [hnext] at hrest
      have hchain : (h.erase q).Chain (some q₁) ids :=
        hrest.congr fun q' hq' => by rw [herase q' hq']
      have hsole : (h.erase q).Sole ids := by
        intro q' hq' c' hc'
        exact hs q' (List.mem_cons_of_mem _ hq') c' (by rwa [herase q' hq'] at hc')
      obtain ⟨h', hrel, hcells⟩ := ih hchain hsole (by simpa using hfuel)
      refine ⟨h', hrel, ?_⟩
      intro q'
      rw [hcells]
      by_cases heq : q' = q
      · simp [erase, heq]
      · simp [erase, heq]

/-- A chain whose cells have one reference each goes as a whole. -/
lemma release_of_sole {p : ℕ} (hc : h.Chain (some p) ids) (hs : h.Sole ids) :
    ∃ h', h.release p = some h' ∧ ∀ q, h'.cells q = if q ∈ ids then none else h.cells q :=
  releaseFrom_of_sole hc hs hc.length_le

lemma Owns.none_iff (ho : h.Owns p ids) : p = none ↔ ids = [] := by
  have hc := ho.chain
  cases p with
  | none => simpa using chain_none.mp hc
  | some p =>
    obtain ⟨c, rest, rfl, -⟩ := chain_some.mp hc
    simp

lemma owns_none : h.Owns none [] ↔ ∀ q, h.cells q = none := by
  constructor
  · intro ho q
    by_contra hq
    exact absurd (ho.only q hq) (by simp)
  · intro hnone
    exact ⟨trivial, by simp [Sole], fun q hq => absurd (hnone q) hq⟩

lemma Owns.congr (ho : h.Owns p ids) (heq : ∀ q, h'.cells q = h.cells q) : h'.Owns p ids := by
  refine ⟨ho.chain.congr fun q _ => by rw [heq q], ?_, ?_⟩
  · intro q hq c hc
    exact ho.sole q hq c (heq q ▸ hc)
  · intro q hq
    exact ho.only q (heq q ▸ hq)

lemma Owns.release {p : ℕ} (ho : h.Owns (some p) ids) :
    ∃ h', h.release p = some h' ∧ h'.Owns none [] := by
  obtain ⟨h', hrel, hcells⟩ := release_of_sole ho.chain ho.sole
  refine ⟨h', hrel, owns_none.mpr ?_⟩
  intro q
  rw [hcells]
  by_cases hq : q ∈ ids
  · rw [if_pos hq]
  · rw [if_neg hq]
    by_contra hlive
    exact hq (ho.only q hlive)

/-- The head of a chain is chopped off: a reference to the next cell is taken first, so that giving
the head back stops there. -/
lemma Owns.chop {p : ℕ} (ho : h.Owns (some p) ids) {c : Cell α} (hcell : h.cells p = some c) :
    ∃ h' rest, ids = p :: rest ∧ ((c.next.elim h h.retain).release p = some h') ∧
      h'.Owns c.next rest ∧ h'.contents rest = h.contents rest := by
  have hlen := ho.chain.length_le
  obtain ⟨c', rest, rfl, hnot, hc', hrest⟩ := chain_some.mp ho.chain
  obtain rfl : c = c' := Option.some.inj (hcell.symm.trans hc')
  have hone : c.ref = 1 := ho.sole p List.mem_cons_self c hcell
  -- what is left is `h` without `p`
  suffices hcells : ∃ h', (c.next.elim h h.retain).release p = some h' ∧
      ∀ q, h'.cells q = if q = p then none else h.cells q by
    obtain ⟨h', hrel, hcells⟩ := hcells
    have hsame : ∀ q ∈ rest, h'.cells q = h.cells q := by
      intro q hq
      have hne : q ≠ p := fun e => hnot (e ▸ hq)
      rw [hcells, if_neg hne]
    refine ⟨h', rest, rfl, hrel, ⟨hrest.congr fun q hq => by rw [hsame q hq], ?_, ?_⟩,
      contents_congr hsame⟩
    · intro q hq c' hc'
      exact ho.sole q (List.mem_cons_of_mem _ hq) c' (hsame q hq ▸ hc')
    · intro q hq
      rw [hcells] at hq
      by_cases heq : q = p
      · simp [heq] at hq
      · rw [if_neg heq] at hq
        exact (List.mem_cons.mp (ho.only q hq)).resolve_left heq
  cases hnext : c.next with
  | none =>
    obtain ⟨n, hn⟩ : ∃ n, h.count = n + 1 := ⟨h.count - 1, by simp at hlen; omega⟩
    refine ⟨h.erase p, ?_, fun q => rfl⟩
    rw [Option.elim_none, Heap.release, hn, releaseFrom, hcell]
    simp [hone, hnext]
  | some q =>
    rw [hnext] at hrest
    obtain ⟨d, tail, rfl, -, hd, -⟩ := chain_some.mp hrest
    have hne : q ≠ p := fun e => hnot (by simp [e])
    have hdref : d.ref = 1 := ho.sole q (by simp) d hd
    obtain ⟨n, hn⟩ : ∃ n, h.count = n + 2 := ⟨h.count - 2, by simp at hlen; omega⟩
    have hcount : (h.retain q).count = n + 2 := hn
    have hp : (h.retain q).cells p = some c := by
      simp [retain, modify, hne.symm, hcell]
    have hq : ((h.retain q).erase p).cells q = some { d with ref := d.ref + 1 } := by
      simp [retain, modify, erase, hne, hd]
    refine ⟨_, by
      rw [Option.elim_some, Heap.release, hcount, releaseFrom, hp]
      dsimp only
      rw [if_pos hone, hnext]
      dsimp only
      rw [releaseFrom, hq]
      dsimp only
      rw [if_neg (by omega)], ?_⟩
    intro q'
    by_cases hq'p : q' = p
    · simp [modify, erase, hq'p, hne.symm]
    · by_cases hq'q : q' = q
      · subst hq'q
        simp [modify, erase, retain, hne, hd]
      · simp [modify, erase, retain, hq'p, hq'q]

/-! ### New chains -/

/-- `h'` is `h` with a chain of new cells. -/
structure Allocated (h h' : Heap α) (p : Option ℕ) (ids : List ℕ) (as : List α) : Prop where
  chain : h'.Chain p ids
  sole : h'.Sole ids
  fresh : ∀ q ∈ ids, h.count ≤ q
  frame : ∀ q, q ∉ ids → h'.cells q = h.cells q
  contents : h'.contents ids = as

lemma allocated_allocChain (h : Heap α) (as : List α) :
    ∃ ids, Allocated h (h.allocChain as).2 (h.allocChain as).1 ids as := by
  induction as with
  | nil => exact ⟨[], trivial, by simp [Sole], by simp, fun _ _ => rfl, rfl⟩
  | cons a as ih =>
    obtain ⟨ids, ha⟩ := ih
    have hcount : h.count ≤ (h.allocChain as).2.count := by
      clear ha
      induction as with
      | nil => exact le_rfl
      | cons b bs ihb => exact ihb.trans (Nat.le_succ _)
    have hnot : (h.allocChain as).2.count ∉ ids := by
      intro hmem
      exact ha.chain.live _ hmem ((h.allocChain as).2.bounded _ le_rfl)
    have hsame : ∀ q ∈ ids, (h.allocChain (a :: as)).2.cells q = (h.allocChain as).2.cells q := by
      intro q hq
      have hne : q ≠ (h.allocChain as).2.count := fun e => hnot (e ▸ hq)
      simp [allocChain, push, hne]
    have hself : (h.allocChain (a :: as)).2.cells (h.allocChain as).2.count =
        some ⟨(h.allocChain as).1, 1, a⟩ := by
      simp [allocChain, push]
    refine ⟨(h.allocChain as).2.count :: ids, ⟨rfl, hnot, _, hself, ?_⟩, ?_, ?_, ?_, ?_⟩
    · exact ha.chain.congr fun q hq => by rw [hsame q hq]
    · intro q hq c hc
      rcases List.mem_cons.mp hq with rfl | hq
      · rw [hself] at hc
        cases hc
        rfl
      · exact ha.sole q hq c (hsame q hq ▸ hc)
    · intro q hq
      rcases List.mem_cons.mp hq with rfl | hq
      · exact hcount
      · exact ha.fresh q hq
    · intro q hq
      rw [List.mem_cons, not_or] at hq
      rw [← ha.frame q hq.2]
      simp [allocChain, push, hq.1]
    · rw [contents_cons hself, contents_congr hsame, ha.contents]

/-- A new chain that is given back leaves no trace. -/
lemma Allocated.release {p : ℕ} {as : List α} (ha : Allocated h h' (some p) ids as) :
    ∃ h'', h'.release p = some h'' ∧ ∀ q, h''.cells q = h.cells q := by
  obtain ⟨h'', hrel, hcells⟩ := release_of_sole ha.chain ha.sole
  refine ⟨h'', hrel, ?_⟩
  intro q
  rw [hcells]
  by_cases hq : q ∈ ids
  · rw [if_pos hq, h.bounded q (ha.fresh q hq)]
  · rw [if_neg hq, ha.frame q hq]

lemma Allocated.owns {as : List α} (ha : Allocated h h' p ids as) (ho : h.Owns none []) :
    h'.Owns p ids := by
  refine ⟨ha.chain, ha.sole, ?_⟩
  intro q hq
  by_contra hnot
  rw [ha.frame q hnot] at hq
  exact hq (owns_none.mp ho q)

/-! ### New contents -/

/-- `h'` is `h` with other contents in the cells at `ids`. -/
structure Filled (h h' : Heap α) (ids : List ℕ) (as : List α) : Prop where
  count : h'.count = h.count
  frees : h'.frees = h.frees
  frame : ∀ q, q ∉ ids → h'.cells q = h.cells q
  kept : ∀ q ∈ ids, ∃ a, h'.cells q = (h.cells q).map fun c => { c with contents := a }
  contents : h'.contents ids = as

lemma Filled.owns {as : List α} (hf : Filled h h' ids as) (ho : h.Owns p ids) : h'.Owns p ids := by
  refine ⟨ho.chain.congr ?_, ?_, ?_⟩
  · intro q hq
    obtain ⟨a, ha⟩ := hf.kept q hq
    simp [ha, Function.comp_def]
  · intro q hq c' hc'
    obtain ⟨a, ha⟩ := hf.kept q hq
    rw [ha, Option.map_eq_some_iff] at hc'
    obtain ⟨c, hc, rfl⟩ := hc'
    exact ho.sole q hq c hc
  · intro q hq
    by_contra hnot
    rw [hf.frame q hnot] at hq
    exact hnot (ho.only q hq)

/-! ### Cells that are freed -/

lemma lt_count_of_some {q : ℕ} {c : Cell α} (hc : h.cells q = some c) : q < h.count :=
  lt_count_of_ne_none (by simp [hc])

lemma freedOnce_empty : (empty : Heap α).FreedOnce := by
  intro q
  simp [empty]

lemma FreedOnce.modify (hf : h.FreedOnce) (p : ℕ) (f : Cell α → Cell α) :
    (h.modify p f).FreedOnce := by
  intro q
  by_cases hq : q = p
  · simpa [Heap.modify, hq] using hf p
  · simpa [Heap.modify, hq] using hf q

lemma FreedOnce.erase (hf : h.FreedOnce) {p : ℕ} {c : Cell α} (hc : h.cells p = some c) :
    (h.erase p).FreedOnce := by
  intro q
  by_cases hq : q = p
  · subst hq
    have hlt := lt_count_of_some hc
    simp [Heap.erase, hf q, hc, hlt]
  · simp [Heap.erase, hf q, hq]

lemma FreedOnce.releaseFrom {fuel p : ℕ} (hf : h.FreedOnce)
    (hrel : Heap.releaseFrom fuel h p = some h') : h'.FreedOnce := by
  induction fuel generalizing h p with
  | zero => cases hrel
  | succ fuel ih =>
    rw [Heap.releaseFrom] at hrel
    cases hc : h.cells p with
    | none => simp [hc] at hrel
    | some c =>
      simp only [hc] at hrel
      by_cases hone : c.ref = 1
      · rw [if_pos hone] at hrel
        cases hnext : c.next with
        | none =>
          simp only [hnext, Option.some.injEq] at hrel
          rw [← hrel]
          exact hf.erase hc
        | some q =>
          simp only [hnext] at hrel
          exact ih (hf.erase hc) hrel
      · rw [if_neg hone, Option.some.injEq] at hrel
        rw [← hrel]
        exact hf.modify p _

lemma FreedOnce.release {p : ℕ} (hf : h.FreedOnce) (hrel : h.release p = some h') :
    h'.FreedOnce := hf.releaseFrom hrel

lemma FreedOnce.push (hf : h.FreedOnce) (c : Cell α) : (h.push c).FreedOnce := by
  intro q
  have hq := hf q
  by_cases heq : q = h.count
  · subst heq
    simpa [Heap.push] using hq
  · have hlt : q < h.count + 1 ↔ q < h.count := by omega
    simpa [Heap.push, heq, hlt] using hq

lemma FreedOnce.allocChain (hf : h.FreedOnce) (as : List α) : (h.allocChain as).2.FreedOnce := by
  induction as with
  | nil => exact hf
  | cons a as ih => exact ih.push _

lemma FreedOnce.filled (hf : h.FreedOnce) {as : List α} (hfill : Filled h h' ids as) :
    h'.FreedOnce := by
  intro q
  have hnone : h'.cells q = none ↔ h.cells q = none := by
    by_cases hq : q ∈ ids
    · obtain ⟨a, ha⟩ := hfill.kept q hq
      simp [ha]
    · rw [hfill.frame q hq]
  rw [hfill.frees, hfill.count, hf q]
  simp only [hnone]

end Heap

end Core
