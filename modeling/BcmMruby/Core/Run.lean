import Mathlib.Tactic

/-!
# Runs of partial labelled steps

A system is a function `step : σ → ε → Option σ`: the label `ε` carries everything the
environment decides, and `none` means that the label is not possible in this state. `run`
executes a list of labels. The two rules every later module uses are `run_invariant`, which
carries a state predicate along a run, and `throughout_iff`, which turns a statement about
every step of a run into one about every way of splitting its labels.
-/

namespace Core

variable {σ ε τ : Type*}

/-- Execute a list of labels; `none` as soon as one of them is not possible. -/
def run (step : σ → ε → Option σ) : σ → List ε → Option σ
  | s, [] => some s
  | s, e :: es => (step s e).bind fun s' => run step s' es

@[simp] lemma run_nil (step : σ → ε → Option σ) (s : σ) : run step s [] = some s := rfl

@[simp] lemma run_cons (step : σ → ε → Option σ) (s : σ) (e : ε) (es : List ε) :
    run step s (e :: es) = (step s e).bind fun s' => run step s' es := rfl

lemma run_append (step : σ → ε → Option σ) (s : σ) (es fs : List ε) :
    run step s (es ++ fs) = (run step s es).bind fun s' => run step s' fs := by
  induction es generalizing s with
  | nil => simp
  | cons e es ih => cases h : step s e <;> simp [h, ih]

/-- Two runs in a row are one run. -/
lemma run_trans {step : σ → ε → Option σ} {s t u : σ} {es fs : List ε}
    (h₁ : run step s es = some t) (h₂ : run step t fs = some u) :
    run step s (es ++ fs) = some u := by
  rw [run_append, h₁]
  exact h₂

lemma run_eq_some_cons {step : σ → ε → Option σ} {s t : σ} {e : ε} {es : List ε} :
    run step s (e :: es) = some t ↔ ∃ s', step s e = some s' ∧ run step s' es = some t := by
  simp [Option.bind_eq_some_iff]

/-- `G` holds of every step a run from `s` takes, the state being the one before the step. -/
def Throughout (step : σ → ε → Option σ) (G : σ → ε → Prop) : σ → List ε → Prop
  | _, [] => True
  | s, e :: es => ∀ s', step s e = some s' → G s e ∧ Throughout step G s' es

@[simp] lemma throughout_nil (step : σ → ε → Option σ) (G : σ → ε → Prop) (s : σ) :
    Throughout step G s [] := trivial

lemma throughout_cons_of_step {step : σ → ε → Option σ} {G : σ → ε → Prop} {s s' : σ} {e : ε}
    {es : List ε} (h : step s e = some s') :
    Throughout step G s (e :: es) ↔ G s e ∧ Throughout step G s' es := by
  simp only [Throughout, h, Option.some.injEq]
  exact ⟨fun H => H s' rfl, fun H t ht => ht ▸ H⟩

instance decidableThroughout {step : σ → ε → Option σ} {G : σ → ε → Prop}
    [∀ s e, Decidable (G s e)] : ∀ s es, Decidable (Throughout step G s es)
  | _, [] => .isTrue trivial
  | s, e :: es =>
    match h : step s e with
    | none => .isTrue (by simp [Throughout, h])
    | some s' =>
      have : Decidable (Throughout step G s' es) := decidableThroughout s' es
      decidable_of_iff (G s e ∧ Throughout step G s' es) (throughout_cons_of_step h).symm

/-- A predicate that steps meeting `G` preserve holds at the end of every run of such steps. -/
theorem run_invariant {step : σ → ε → Option σ} {P : σ → Prop} {G : σ → ε → Prop}
    (hstep : ∀ s e s', P s → G s e → step s e = some s' → P s')
    {s t : σ} {es : List ε} (hs : P s) (hG : Throughout step G s es)
    (hrun : run step s es = some t) : P t := by
  induction es generalizing s with
  | nil => cases hrun; exact hs
  | cons e es ih =>
    obtain ⟨s', hs', hrun'⟩ := run_eq_some_cons.mp hrun
    obtain ⟨hG', hGs⟩ := hG s' hs'
    exact ih (hstep s e s' hs hG' hs') hGs hrun'

/-- The same rule for a predicate that every step preserves. -/
theorem run_invariant_always {step : σ → ε → Option σ} {P : σ → Prop}
    (hstep : ∀ s e s', P s → step s e = some s' → P s')
    {s t : σ} {es : List ε} (hs : P s) (hrun : run step s es = some t) : P t := by
  induction es generalizing s with
  | nil => cases hrun; exact hs
  | cons e es ih =>
    obtain ⟨s', hs', hrun'⟩ := run_eq_some_cons.mp hrun
    exact ih (hstep s e s' hs hs') hrun'

/-- A relation between the state and the labels executed so far, carried along a run. -/
theorem run_history {step : σ → ε → Option σ} {R : List ε → σ → Prop}
    (hstep : ∀ pre s e s', R pre s → step s e = some s' → R (pre ++ [e]) s')
    {pre es : List ε} {s t : σ} (hs : R pre s) (hrun : run step s es = some t) :
    R (pre ++ es) t := by
  induction es generalizing pre s with
  | nil => cases hrun; simpa using hs
  | cons e es ih =>
    obtain ⟨s', hs', hrun'⟩ := run_eq_some_cons.mp hrun
    simpa using ih (hstep pre s e s' hs hs') hrun'

/-- A statement about every step is one about every way of splitting the labels of the run. -/
theorem throughout_iff {step : σ → ε → Option σ} {G : σ → ε → Prop} {s t : σ} {es : List ε}
    (hrun : run step s es = some t) :
    Throughout step G s es ↔
      ∀ pre e post s', es = pre ++ e :: post → run step s pre = some s' → G s' e := by
  induction es generalizing s with
  | nil => simp
  | cons e es ih =>
    obtain ⟨s', hs', hrun'⟩ := run_eq_some_cons.mp hrun
    rw [throughout_cons_of_step hs', ih hrun']
    constructor
    · rintro ⟨hG, hrest⟩ pre f post u hsplit hu
      cases pre with
      | nil =>
        obtain ⟨rfl, -⟩ := List.cons.inj hsplit
        cases hu
        exact hG
      | cons p pre =>
        obtain ⟨rfl, htail⟩ := List.cons.inj hsplit
        simp only [run_cons, hs', Option.bind_some] at hu
        exact hrest pre f post u htail hu
    · intro H
      refine ⟨H [] e es s rfl rfl, ?_⟩
      intro pre f post u hsplit hu
      exact H (e :: pre) f post u (by rw [hsplit]; rfl) (by simpa [hs'] using hu)

/-- What an invariant gives for each step, for an invariant that steps meeting `G` preserve. -/
theorem throughout_of_invariant {step : σ → ε → Option σ} {P : σ → Prop} {G H : σ → ε → Prop}
    (hstep : ∀ s e s', P s → G s e → step s e = some s' → P s') (hH : ∀ s e, P s → H s e)
    {s : σ} {es : List ε} (hs : P s) (hG : Throughout step G s es) : Throughout step H s es := by
  induction es generalizing s with
  | nil => trivial
  | cons e es ih =>
    intro s' hs'
    obtain ⟨hGe, hGes⟩ := hG s' hs'
    exact ⟨hH s e hs, ih (hstep s e s' hs hGe hs') hGes⟩

/-- To show that every step meets `G` one may assume that the steps before it do. -/
theorem throughout_of_forall {step : σ → ε → Option σ} {G : σ → ε → Prop} {s : σ} {es : List ε}
    (h : ∀ pre e post s' s'', es = pre ++ e :: post → Throughout step G s pre →
      run step s pre = some s' → step s' e = some s'' → G s' e) : Throughout step G s es := by
  induction es generalizing s with
  | nil => trivial
  | cons e es ih =>
    intro s₁ hs₁
    have hG : G s e := h [] e es s s₁ rfl trivial rfl hs₁
    refine ⟨hG, ih ?_⟩
    intro pre f post s' s'' hsplit hpre hrun hs'
    refine h (e :: pre) f post s' s'' (by rw [hsplit]; rfl) ?_ (by simpa [hs₁] using hrun) hs'
    exact (throughout_cons_of_step hs₁).mpr ⟨hG, hpre⟩

lemma throughout_append {step : σ → ε → Option σ} {G : σ → ε → Prop} {s s' : σ} {es fs : List ε}
    (hrun : run step s es = some s') :
    Throughout step G s (es ++ fs) ↔ Throughout step G s es ∧ Throughout step G s' fs := by
  induction es generalizing s with
  | nil => cases hrun; simp
  | cons e es ih =>
    obtain ⟨s₁, hs₁, hrun'⟩ := run_eq_some_cons.mp hrun
    rw [List.cons_append, throughout_cons_of_step hs₁, throughout_cons_of_step hs₁, ih hrun',
      and_assoc]

/-- Two properties of steps that agree as long as `P` holds, and that keep `P`, agree on runs. -/
theorem throughout_congr {step : σ → ε → Option σ} {P : σ → Prop} {G H : σ → ε → Prop}
    (h : ∀ s e s', P s → step s e = some s' → (G s e ↔ H s e) ∧ (G s e → P s'))
    {s : σ} {es : List ε} (hs : P s) : Throughout step G s es ↔ Throughout step H s es := by
  induction es generalizing s with
  | nil => simp
  | cons e es ih =>
    apply forall₂_congr
    intro s' hs'
    obtain ⟨hiff, hP⟩ := h s e s' hs hs'
    rw [← hiff]
    exact and_congr_right fun hG => ih (hP hG)

/-- The same in a run whose steps meet `L`. -/
theorem throughout_congr_of_throughout {step : σ → ε → Option σ} {P : σ → Prop}
    {L G H : σ → ε → Prop}
    (h : ∀ s e s', P s → L s e → step s e = some s' → (G s e ↔ H s e) ∧ (G s e → P s'))
    {s : σ} {es : List ε} (hs : P s) (hL : Throughout step L s es) :
    Throughout step G s es ↔ Throughout step H s es := by
  induction es generalizing s with
  | nil => simp
  | cons e es ih =>
    apply forall₂_congr
    intro s' hs'
    obtain ⟨hLe, hLes⟩ := hL s' hs'
    obtain ⟨hiff, hP⟩ := h s e s' hs hLe hs'
    rw [← hiff]
    exact and_congr_right fun hG => ih (hP hG) hLes

/-- If every step that does not meet `G` dooms the run, and only a step that does not meet `E` gets
a doomed run out of that, then a run of steps that meet `E` and that is not doomed at its end meets
`G`. -/
theorem throughout_of_doomed {step : σ → ε → Option σ} {Inv Doomed : σ → Prop}
    {L G E : σ → ε → Prop}
    (hgood : ∀ s e s', Inv s → L s e → G s e → step s e = some s' → Inv s')
    (hbad : ∀ s e s', Inv s → ¬G s e → step s e = some s' → Doomed s')
    (hdoomed : ∀ s e s', Doomed s → E s e → step s e = some s' → Doomed s')
    {s t : σ} {es : List ε} (hs : Inv s) (hL : Throughout step L s es)
    (hrun : run step s es = some t) (ht : ¬Doomed t) (hE : Throughout step E s es) :
    Throughout step G s es := by
  induction es generalizing s with
  | nil => trivial
  | cons e es ih =>
    obtain ⟨s', hs', hrun'⟩ := run_eq_some_cons.mp hrun
    rw [throughout_cons_of_step hs'] at hL hE ⊢
    by_cases hG : G s e
    · exact ⟨hG, ih (hgood s e s' hs hL.1 hG hs') hL.2 hrun' hE.2⟩
    · exact absurd (run_invariant hdoomed (hbad s e s' hs hG hs') hE.2 hrun') ht

/-- `P` holds in every state a run passes through, the first and the last included. -/
def Always (step : σ → ε → Option σ) (P : σ → Prop) (s : σ) (es : List ε) : Prop :=
  ∀ pre post u, es = pre ++ post → run step s pre = some u → P u

/-- What an invariant of the steps implies holds in every state. -/
theorem always_of_invariant {step : σ → ε → Option σ} {Inv P : σ → Prop}
    (hstep : ∀ s e s', Inv s → step s e = some s' → Inv s') (hP : ∀ s, Inv s → P s)
    {s : σ} {es : List ε} (hs : Inv s) : Always step P s es := by
  intro pre post u _ hu
  exact hP u (run_invariant_always hstep hs hu)

/-- The same for steps that meet `G`. -/
theorem always_of_throughout {step : σ → ε → Option σ} {Inv P : σ → Prop} {G : σ → ε → Prop}
    (hstep : ∀ s e s', Inv s → G s e → step s e = some s' → Inv s') (hP : ∀ s, Inv s → P s)
    {s : σ} {es : List ε} (hs : Inv s) (hG : Throughout step G s es) : Always step P s es := by
  intro pre post u hsplit hu
  rw [hsplit, throughout_append hu] at hG
  exact hP u (run_invariant hstep hs hG.1 hu)

lemma always_nil {step : σ → ε → Option σ} {P : σ → Prop} {s : σ} : Always step P s [] ↔ P s := by
  constructor
  · intro h
    exact h [] [] s rfl rfl
  · intro h pre post u hsplit hu
    obtain ⟨rfl, -⟩ := List.append_eq_nil_iff.mp hsplit.symm
    cases hu
    exact h

lemma always_cons_of_step {step : σ → ε → Option σ} {P : σ → Prop} {s s' : σ} {e : ε}
    {es : List ε} (h : step s e = some s') :
    Always step P s (e :: es) ↔ P s ∧ Always step P s' es := by
  constructor
  · intro H
    refine ⟨H [] (e :: es) s rfl rfl, ?_⟩
    intro pre post u hsplit hu
    exact H (e :: pre) post u (by rw [hsplit]; rfl) (by simpa [h] using hu)
  · rintro ⟨hs, H⟩ pre post u hsplit hu
    cases pre with
    | nil =>
      cases hu
      exact hs
    | cons p pre =>
      obtain ⟨rfl, htail⟩ := List.cons.inj hsplit
      simp only [run_cons, h, Option.bind_some] at hu
      exact H pre post u htail hu

/-- A property of all states is one of what each step leads to. -/
lemma Always.throughout {step : σ → ε → Option σ} {P : σ → Prop} {s : σ} {es : List ε}
    (h : Always step P s es) :
    Throughout step (fun s e => ∀ s', step s e = some s' → P s') s es := by
  induction es generalizing s with
  | nil => trivial
  | cons e es ih =>
    intro s' hs'
    have hrest := ((always_cons_of_step hs').mp h).2
    refine ⟨fun u hu => ?_, ih hrest⟩
    obtain rfl : s' = u := Option.some.inj (hs'.symm.trans hu)
    exact hrest [] es s' rfl rfl

/-- Under labels that meet `L`: a property of states fails in a run as soon as one of the steps does
not meet `G`, and not before. -/
theorem always_iff_throughout {step : σ → ε → Option σ} {Inv P : σ → Prop} {L : ε → Prop}
    {G : σ → ε → Prop} (hP : ∀ s, Inv s → P s)
    (hgood : ∀ s e s', Inv s → L e → G s e → step s e = some s' → Inv s')
    (hbad : ∀ s e s', Inv s → L e → step s e = some s' → P s' → G s e)
    {s t : σ} {es : List ε} (hs : Inv s) (hL : ∀ e ∈ es, L e) (hrun : run step s es = some t) :
    Always step P s es ↔ Throughout step G s es := by
  induction es generalizing s with
  | nil => exact always_nil.trans (iff_of_true (hP s hs) trivial)
  | cons e es ih =>
    obtain ⟨s', hs', hrun'⟩ := run_eq_some_cons.mp hrun
    obtain ⟨hLe, hLes⟩ := List.forall_mem_cons.mp hL
    rw [always_cons_of_step hs', throughout_cons_of_step hs']
    constructor
    · rintro ⟨-, H⟩
      have hG := hbad s e s' hs hLe hs' (H [] es s' rfl rfl)
      exact ⟨hG, (ih (hgood s e s' hs hLe hG hs') hLes hrun').mp H⟩
    · rintro ⟨hG, H⟩
      exact ⟨hP s hs, (ih (hgood s e s' hs hLe hG hs') hLes hrun').mpr H⟩

/-- A condition on labels alone. -/
lemma throughout_iff_forall_mem {step : σ → ε → Option σ} {G : ε → Prop} {s t : σ} {es : List ε}
    (hrun : run step s es = some t) : Throughout step (fun _ e => G e) s es ↔ ∀ e ∈ es, G e := by
  induction es generalizing s with
  | nil => simp
  | cons e es ih =>
    obtain ⟨s', hs', hrun'⟩ := run_eq_some_cons.mp hrun
    rw [throughout_cons_of_step hs', ih hrun', List.forall_mem_cons]

/-- Unwinding: if `clean` commutes with the steps that are kept and the others do not change it,
the labels that are kept make a run of their own. -/
theorem run_filter {step : σ → ε → Option σ} {P : σ → Prop} {G : σ → ε → Prop} {clean : σ → σ}
    {keep : ε → Bool} (hP : ∀ s e s', P s → step s e = some s' → P s')
    (hkeep : ∀ s e s', P s → G s e → keep e = true → step s e = some s' →
      step (clean s) e = some (clean s'))
    (herase : ∀ s e s', keep e = false → step s e = some s' → clean s' = clean s)
    {s t : σ} {es : List ε} (hs : P s) (hG : Throughout step G s es)
    (hrun : run step s es = some t) : run step (clean s) (es.filter keep) = some (clean t) := by
  induction es generalizing s with
  | nil => cases hrun; rfl
  | cons e es ih =>
    obtain ⟨s', hs', hrun'⟩ := run_eq_some_cons.mp hrun
    obtain ⟨hGe, hGes⟩ := hG s' hs'
    have hrest := ih (hP s e s' hs hs') hGes hrun'
    cases hk : keep e with
    | true =>
      rw [List.filter_cons_of_pos hk, run_cons, hkeep s e s' hs hGe hk hs']
      exact hrest
    | false =>
      rw [List.filter_cons_of_neg (by simp [hk]), ← herase s e s' hk hs']
      exact hrest

/-- A loop over `lo`, `lo + 1` and so on, whose turns keep a predicate of the count and the
state. -/
theorem run_range' (step : σ → ℕ → Option σ) {P : ℕ → σ → Prop} (lo c : ℕ)
    (hstep : ∀ i s, lo ≤ i → i < lo + c → P i s → ∃ s', step s i = some s' ∧ P (i + 1) s')
    {s : σ} (hs : P lo s) : ∃ t, run step s (List.range' lo c) = some t ∧ P (lo + c) t := by
  induction c generalizing lo s with
  | zero => exact ⟨s, rfl, hs⟩
  | succ c ih =>
    obtain ⟨s', hs', hP⟩ := hstep lo s le_rfl (by omega) hs
    obtain ⟨t, ht, hPt⟩ := ih (lo + 1) (fun i u hlo hi => hstep i u (by omega) (by omega)) hP
    refine ⟨t, by simpa [List.range'_succ, hs'] using ht, ?_⟩
    rwa [Nat.add_right_comm] at hPt

/-- Every prefix of a run is a run. -/
lemma run_split {step : σ → ε → Option σ} {s t : σ} {es fs : List ε}
    (h : run step s (es ++ fs) = some t) :
    ∃ u, run step s es = some u ∧ run step u fs = some t := by
  simpa [run_append, Option.bind_eq_some_iff] using h

end Core
