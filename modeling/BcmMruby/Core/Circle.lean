import Mathlib.Tactic

/-!
# Circular doubly linked lists

Cells with a pointer to the next and a pointer to the previous one. A list hangs on a head, which
is a cell like the others, and comes back to it in both directions. `Segment` describes a part of
such a list from one cell to another, `Holds` a list as a whole; `insertBefore` and `remove` are
the two ways of rewiring it, store by store.
-/

namespace Core

variable {ι : Type*}

structure Links (ι : Type*) where
  next : ι → ι
  prev : ι → ι

namespace Links

section

variable [DecidableEq ι]

def setNext (m : Links ι) (p q : ι) : Links ι := { m with next := Function.update m.next p q }

def setPrev (m : Links ι) (p q : ι) : Links ι := { m with prev := Function.update m.prev p q }

/-- Put `x` between `h` and the cell before it. -/
def insertBefore (m : Links ι) (h x : ι) : Links ι :=
  let m := m.setNext (m.prev h) x
  let m := m.setNext x h
  let m := m.setPrev x (m.prev h)
  m.setPrev h x

/-- Let the two neighbours of `x` point to each other. -/
def remove (m : Links ι) (x : ι) : Links ι :=
  let m := m.setNext (m.prev x) (m.next x)
  m.setPrev (m.next x) (m.prev x)

lemma next_setNext (m : Links ι) (p q c : ι) :
    (m.setNext p q).next c = if c = p then q else m.next c := by
  simp [setNext, Function.update_apply]

@[simp] lemma prev_setNext (m : Links ι) (p q c : ι) : (m.setNext p q).prev c = m.prev c := rfl

lemma prev_setPrev (m : Links ι) (p q c : ι) :
    (m.setPrev p q).prev c = if c = p then q else m.prev c := by
  simp [setPrev, Function.update_apply]

@[simp] lemma next_setPrev (m : Links ι) (p q c : ι) : (m.setPrev p q).next c = m.next c := rfl

end

/-! ### Segments -/

/-- The cells `xs` lead from `a` to `b`, and back. -/
def Segment (m : Links ι) : ι → List ι → ι → Prop
  | a, [], b => m.next a = b ∧ m.prev b = a
  | a, x :: xs, b => (m.next a = x ∧ m.prev x = a) ∧ Segment m x xs b

variable {m m' : Links ι} {a b h x : ι} {xs ys : List ι}

@[simp] lemma segment_nil : m.Segment a [] b ↔ m.next a = b ∧ m.prev b = a := Iff.rfl

@[simp] lemma segment_cons :
    m.Segment a (x :: xs) b ↔ (m.next a = x ∧ m.prev x = a) ∧ m.Segment x xs b := Iff.rfl

lemma segment_append_cons :
    m.Segment a (xs ++ x :: ys) b ↔ m.Segment a xs x ∧ m.Segment x ys b := by
  induction xs generalizing a with
  | nil => simp
  | cons y xs ih => simp only [List.cons_append, segment_cons, ih, and_assoc]

lemma Segment.next_eq (hs : m.Segment a xs b) : m.next a = (xs ++ [b]).head (by simp) := by
  cases xs with
  | nil => exact hs.1
  | cons x xs => exact hs.1.1

lemma Segment.prev_eq (hs : m.Segment a xs b) : m.prev b = (a :: xs).getLast (by simp) := by
  induction xs generalizing a with
  | nil => exact hs.2
  | cons x xs ih =>
    rw [List.getLast_cons (by simp)]
    exact ih hs.2

/-- Only the pointers inside a segment matter to it. -/
lemma Segment.congr (hs : m.Segment a xs b) (hnext : ∀ c ∈ a :: xs, m'.next c = m.next c)
    (hprev : ∀ c ∈ xs ++ [b], m'.prev c = m.prev c) : m'.Segment a xs b := by
  induction xs generalizing a with
  | nil =>
    obtain ⟨hnext₀, hprev₀⟩ := hs
    exact ⟨(hnext a (by simp)).trans hnext₀, (hprev b (by simp)).trans hprev₀⟩
  | cons x xs ih =>
    obtain ⟨⟨hnext₀, hprev₀⟩, hrest⟩ := hs
    refine ⟨⟨(hnext a (by simp)).trans hnext₀, (hprev x (by simp)).trans hprev₀⟩, ?_⟩
    exact ih hrest (fun c hc => hnext c (List.mem_cons_of_mem a hc))
      (fun c hc => hprev c (List.mem_cons_of_mem x hc))

/-- Two segments close up when the last cell of one and the first of the other are joined. -/
lemma Segment.join [DecidableEq ι] {l f : ι} (hleft : m.Segment a xs x)
    (hright : m.Segment x ys b) (hl : m.prev x = l) (hf : m.next x = f)
    (hnodup : (a :: xs ++ ys).Nodup) (hb : b ∉ xs ++ ys)
    (hnext : ∀ c, m'.next c = if c = l then f else m.next c)
    (hprev : ∀ c, m'.prev c = if c = f then l else m.prev c) : m'.Segment a (xs ++ ys) b := by
  have hl_mem : l ∈ a :: xs := by
    rw [← hl, hleft.prev_eq]
    exact List.getLast_mem _
  have hf_mem : f ∈ ys ++ [b] := by
    rw [← hf, hright.next_eq]
    exact List.head_mem _
  induction xs generalizing a with
  | nil =>
    obtain rfl : l = a := by simpa using hl_mem
    cases ys with
    | nil =>
      obtain rfl : f = b := by simpa using hf_mem
      simp [hnext, hprev]
    | cons y ys =>
      obtain ⟨⟨hy, -⟩, hrest⟩ := hright
      obtain rfl : y = f := hy.symm.trans hf
      refine ⟨by simp [hnext, hprev], hrest.congr ?_ ?_⟩
      · intro c hc
        have hne : c ≠ l := by
          rintro rfl
          exact (List.nodup_cons.mp hnodup).1 hc
        rw [hnext, if_neg hne]
      · intro c hc
        have hne : c ≠ y := by
          rintro rfl
          rcases List.mem_append.mp hc with hc | hc
          · exact (List.nodup_cons.mp (List.nodup_cons.mp hnodup).2).1 hc
          · obtain rfl : c = b := by simpa using hc
            exact hb (by simp)
        rw [hprev, if_neg hne]
  | cons z zs ih =>
    obtain ⟨⟨haz, hza⟩, hrest⟩ := hleft
    have hnodup' := (List.nodup_cons.mp hnodup).2
    have hl_mem' : l ∈ z :: zs := by
      rw [← hl, hrest.prev_eq]
      exact List.getLast_mem _
    have hal : a ≠ l := by
      rintro rfl
      exact (List.nodup_cons.mp hnodup).1 (List.mem_append_left ys hl_mem')
    have hzf : z ≠ f := by
      rintro rfl
      rcases List.mem_append.mp hf_mem with hz | hz
      · exact (List.nodup_cons.mp hnodup').1 (List.mem_append_right zs hz)
      · obtain rfl : z = b := by simpa using hz
        exact hb (by simp)
    refine ⟨⟨by rw [hnext, if_neg hal, haz], by rw [hprev, if_neg hzf, hza]⟩, ?_⟩
    exact ih hrest hnodup' (fun hmem => hb (List.mem_cons_of_mem z hmem)) hl_mem'

/-! ### Lists -/

/-- `xs` is what hangs on `h`. -/
structure Holds (m : Links ι) (h : ι) (xs : List ι) : Prop where
  nodup : (h :: xs).Nodup
  segment : m.Segment h xs h

lemma Holds.congr (H : m.Holds h xs) (hnext : ∀ c ∈ h :: xs, m'.next c = m.next c)
    (hprev : ∀ c ∈ h :: xs, m'.prev c = m.prev c) : m'.Holds h xs := by
  refine ⟨H.nodup, H.segment.congr hnext ?_⟩
  intro c hc
  exact hprev c (by simpa [or_comm] using hc)

lemma Holds.next_eq_self (H : m.Holds h xs) : m.next h = h ↔ xs = [] := by
  cases xs with
  | nil => simpa using H.segment.1
  | cons x xs =>
    have hne : x ≠ h := by
      have hnodup := H.nodup
      simp only [List.nodup_cons, List.mem_cons, not_or] at hnodup
      exact fun e => hnodup.1.1 e.symm
    simp [H.segment.1.1, hne]

lemma Holds.prev_eq (H : m.Holds h xs) : m.prev h = (h :: xs).getLast (by simp) :=
  H.segment.prev_eq

lemma Holds.prev_mem (H : m.Holds h xs) : m.prev h ∈ h :: xs := by
  rw [H.prev_eq]
  exact List.getLast_mem _

/-- A cell of a list has its neighbours there. -/
lemma Holds.neighbours (H : m.Holds h xs) (hx : x ∈ xs) :
    m.prev x ∈ h :: xs ∧ m.next x ∈ h :: xs := by
  obtain ⟨ys, zs, rfl⟩ := List.append_of_mem hx
  obtain ⟨hleft, hright⟩ := segment_append_cons.mp H.segment
  constructor
  · have hmem := List.getLast_mem (l := h :: ys) (by simp)
    rw [← hleft.prev_eq] at hmem
    exact List.mem_append_left (x :: zs) hmem
  · have hmem := List.head_mem (l := zs ++ [h]) (by simp)
    rw [← hright.next_eq] at hmem
    rcases List.mem_append.mp hmem with hmem | hmem
    · simp [hmem]
    · simp [List.mem_singleton.mp hmem]

variable [DecidableEq ι]

lemma holds_nil (m : Links ι) (h : ι) : ((m.setPrev h h).setNext h h).Holds h [] :=
  ⟨by simp, by simp [next_setNext, prev_setPrev]⟩

/-- A new cell comes last. -/
lemma Holds.insertBefore (H : m.Holds h xs) (hx : x ∉ h :: xs) :
    (m.insertBefore h x).Holds h (xs ++ [x]) := by
  have hxh : x ≠ h := fun e => hx (by simp [e])
  have hnext : ∀ c, (m.insertBefore h x).next c =
      if c = x then h else if c = m.prev h then x else m.next c := by
    intro c
    simp [Links.insertBefore, next_setNext]
  have hprev : ∀ c, (m.insertBefore h x).prev c =
      if c = h then x else if c = x then m.prev h else m.prev c := by
    intro c
    simp [Links.insertBefore, prev_setPrev]
  have hnodup := H.nodup
  have hsegment := H.segment
  refine ⟨?_, ?_⟩
  · rw [← List.cons_append, List.nodup_append]
    refine ⟨hnodup, by simp, ?_⟩
    intro c hc d hd
    obtain rfl : d = x := by simpa using hd
    exact fun e => hx (e ▸ hc)
  rw [segment_append_cons]
  -- the last cell of the old list is the one before the head
  have hlast : m.prev h ∈ h :: xs := by
    rw [H.prev_eq]
    exact List.getLast_mem _
  have hlast_ne : m.prev h ≠ x := fun e => hx (e ▸ hlast)
  refine ⟨?_, by simp [hnext, hprev]⟩
  cases xs using List.reverseRecOn with
  | nil =>
    have hself : m.prev h = h := by simpa using hsegment.2
    simp [hnext, hprev, hself, hxh, hxh.symm]
  | append_singleton ys l =>
    have hl : m.prev h = l := by
      rw [segment_append_cons, segment_nil] at hsegment
      exact hsegment.2.2
    have hl_not : l ∉ h :: ys := by
      rw [← List.cons_append, List.nodup_append] at hnodup
      intro hmem
      exact hnodup.2.2 l hmem l (by simp) rfl
    have hx_not : x ∉ h :: ys ++ [l] := hx
    rw [segment_append_cons] at hsegment ⊢
    refine ⟨hsegment.1.congr ?_ ?_, ?_⟩
    · intro c hc
      have hcx : c ≠ x := fun e => hx_not (e ▸ List.mem_append_left _ hc)
      have hcl : c ≠ l := fun e => hl_not (e ▸ hc)
      simp [hnext, hl, hcx, hcl]
    · intro c hc
      have hcx : c ≠ x := by
        rintro rfl
        exact hx_not (by simpa using Or.inr (List.mem_append.mp hc |>.imp_right (by simp)))
      have hch : c ≠ h := by
        rintro rfl
        exact (List.nodup_cons.mp hnodup).1 hc
      simp [hprev, hcx, hch]
    · have hlx : l ≠ x := hl ▸ hlast_ne
      simp [hnext, hprev, hl, hxh, hlx]

/-- The cells around the one that is removed close up. -/
lemma Holds.remove (H : m.Holds h (xs ++ x :: ys)) : (m.remove x).Holds h (xs ++ ys) := by
  have hnodup := H.nodup
  have hsegment := H.segment
  rw [segment_append_cons] at hsegment
  obtain ⟨hleft, hright⟩ := hsegment
  have hperm : (h :: xs ++ x :: ys).Perm (x :: (h :: xs ++ ys)) := List.perm_middle
  have hnodup' := hperm.nodup_iff.mp hnodup
  obtain ⟨hx, hrest⟩ := List.nodup_cons.mp hnodup'
  have hprev_ne : x ≠ m.prev x := by
    rw [hleft.prev_eq]
    intro e
    exact hx (List.mem_append_left ys (e ▸ List.getLast_mem _))
  have hnext_x : (m.setNext (m.prev x) (m.next x)).next x = m.next x := by
    rw [next_setNext, if_neg hprev_ne]
  refine ⟨hrest, hleft.join hright rfl rfl hrest (List.nodup_cons.mp hrest).1 ?_ ?_⟩
  · intro c
    simp [Links.remove, next_setNext]
  · intro c
    simp only [Links.remove, hnext_x, prev_setPrev, prev_setNext]

/-! ### Several lists -/

lemma Holds.insertBefore_frame (H : m.Holds h xs) {c : ι} (hcx : c ≠ x) (hc : c ∉ h :: xs) :
    (m.insertBefore h x).next c = m.next c ∧ (m.insertBefore h x).prev c = m.prev c := by
  have hch : c ≠ h := fun e => hc (by simp [e])
  have hcl : c ≠ m.prev h := fun e => hc (e ▸ H.prev_mem)
  simp [Links.insertBefore, next_setNext, prev_setPrev, hcx, hch, hcl]

lemma Holds.remove_frame (H : m.Holds h xs) (hx : x ∈ xs) {c : ι} (hc : c ∉ h :: xs) :
    (m.remove x).next c = m.next c ∧ (m.remove x).prev c = m.prev c := by
  obtain ⟨hprev, hnext⟩ := H.neighbours hx
  have hcp : c ≠ m.prev x := fun e => hc (e ▸ hprev)
  have hcn : c ≠ (m.setNext (m.prev x) (m.next x)).next x := by
    rw [next_setNext]
    split_ifs <;> exact fun e => hc (e ▸ hnext)
  constructor
  · simp [Links.remove, next_setNext, hcp]
  · simp only [Links.remove, prev_setPrev, if_neg hcn, prev_setNext]

/-- `s` says which cells are heads and what hangs on each; no cell is on two lists. -/
structure Represents (m : Links ι) (s : ι → Option (List ι)) : Prop where
  holds : ∀ {q xs}, s q = some xs → m.Holds q xs
  apart : ∀ {q q' xs xs'}, q ≠ q' → s q = some xs → s q' = some xs' →
    List.Disjoint (q :: xs) (q' :: xs')

/-- `x` is neither a head nor on a list. -/
def Loose (s : ι → Option (List ι)) (x : ι) : Prop := ∀ q xs, s q = some xs → x ∉ q :: xs

variable {s : ι → Option (List ι)} {q : ι}

omit [DecidableEq ι] in
lemma represents_none (m : Links ι) : m.Represents fun _ => none :=
  ⟨by simp, by simp⟩

/-- One list changes, and keeps to cells that are on no other. -/
lemma Represents.update (H : m.Represents s) (hq : m'.Holds q ys)
    (hapart : ∀ q' xs', q' ≠ q → s q' = some xs' → List.Disjoint (q :: ys) (q' :: xs'))
    (hframe : ∀ q' xs', q' ≠ q → s q' = some xs' → ∀ c ∈ q' :: xs',
      m'.next c = m.next c ∧ m'.prev c = m.prev c) :
    m'.Represents (Function.update s q (some ys)) where
  holds := by
    intro p xs' hp
    by_cases hpq : p = q
    · subst hpq
      obtain rfl : ys = xs' := by simpa using hp
      exact hq
    · rw [Function.update_of_ne hpq] at hp
      exact (H.holds hp).congr (fun c hc => (hframe p xs' hpq hp c hc).1)
        (fun c hc => (hframe p xs' hpq hp c hc).2)
  apart := by
    intro p p' xs₁ xs₂ hne hp hp'
    by_cases hpq : p = q
    · subst hpq
      obtain rfl : ys = xs₁ := by simpa using hp
      rw [Function.update_of_ne hne.symm] at hp'
      exact hapart p' xs₂ hne.symm hp'
    · rw [Function.update_of_ne hpq] at hp
      by_cases hpq' : p' = q
      · subst hpq'
        obtain rfl : ys = xs₂ := by simpa using hp'
        exact (hapart p xs₁ hpq hp).symm
      · rw [Function.update_of_ne hpq'] at hp'
        exact H.apart hne hp hp'

omit [DecidableEq ι] in
lemma loose_none (x : ι) : Loose (fun _ => none) x := by simp [Loose]

lemma Loose.update (H : Loose s x) (hq : x ≠ q) (hys : x ∉ ys) :
    Loose (Function.update s q (some ys)) x := by
  intro p xs' hp
  by_cases hpq : p = q
  · subst hpq
    obtain rfl : ys = xs' := by simpa using hp
    simp [hq, hys]
  · rw [Function.update_of_ne hpq] at hp
    exact H p xs' hp

lemma Represents.insertBefore (H : m.Represents s) (hq : s q = some xs) (hx : Loose s x) :
    (m.insertBefore q x).Represents (Function.update s q (some (xs ++ [x]))) := by
  have hholds := H.holds hq
  refine H.update (hholds.insertBefore (hx q xs hq)) ?_ ?_
  · intro q' xs' hne hq' c hc hc'
    have hc₀ : c ∈ q :: xs ∨ c = x := by simpa [or_assoc] using hc
    rcases hc₀ with hc₀ | rfl
    · exact H.apart hne.symm hq hq' hc₀ hc'
    · exact hx q' xs' hq' hc'
  · intro q' xs' hne hq' c hc
    refine hholds.insertBefore_frame ?_ fun hc₀ => H.apart hne.symm hq hq' hc₀ hc
    rintro rfl
    exact hx q' xs' hq' hc

lemma Represents.remove (H : m.Represents s) (hq : s q = some xs) (hx : x ∈ xs) :
    (m.remove x).Represents (Function.update s q (some (xs.erase x))) := by
  have hholds := H.holds hq
  have herase : (m.remove x).Holds q (xs.erase x) := by
    obtain ⟨ys, zs, rfl, hys⟩ : ∃ ys zs, xs = ys ++ x :: zs ∧ x ∉ ys :=
      List.eq_append_cons_of_mem hx
    rw [List.erase_append_right _ hys, List.erase_cons_head]
    exact hholds.remove
  refine H.update herase ?_ ?_
  · intro q' xs' hne hq' c hc hc'
    refine H.apart hne.symm hq hq' ?_ hc'
    exact List.cons_subset_cons q List.erase_subset hc
  · intro q' xs' hne hq' c hc
    exact hholds.remove_frame hx fun hc₀ => H.apart hne.symm hq hq' hc₀ hc

/-- A cell that is taken off its list is on none. -/
lemma Represents.loose_erase (H : m.Represents s) (hq : s q = some xs) (hx : x ∈ xs) :
    Loose (Function.update s q (some (xs.erase x))) x := by
  obtain ⟨hhead, hnodup⟩ := List.nodup_cons.mp (H.holds hq).nodup
  intro p xs' hp
  by_cases hpq : p = q
  · subst hpq
    obtain rfl : xs.erase x = xs' := by simpa using hp
    have hxp : x ≠ p := fun e => hhead (e ▸ hx)
    simp [hxp, hnodup.mem_erase_iff]
  · rw [Function.update_of_ne hpq] at hp
    exact fun hmem => H.apart (Ne.symm hpq) hq hp (List.mem_cons_of_mem q hx) hmem

/-- An empty list at `q`, which may have been a head before, but is not on a list. -/
lemma Represents.fresh (H : m.Represents s)
    (hq : ∀ q' xs', q' ≠ q → s q' = some xs' → q ∉ xs') :
    ((m.setPrev q q).setNext q q).Represents (Function.update s q (some [])) := by
  refine H.update (holds_nil m q) ?_ ?_
  · intro q' xs' hne hq'
    simpa [hne.symm] using hq q' xs' hne hq'
  · intro q' xs' hne hq' c hc
    have hcq : c ≠ q := by
      rintro rfl
      rcases List.mem_cons.mp hc with hc | hc
      · exact hne hc.symm
      · exact hq q' xs' hne hq' hc
    simp [next_setNext, prev_setPrev, hcq]

end Links

end Core
