import BcmMruby.Core.Run
import BcmMruby.Irq.Basic

/-!
# Critical sections of the driver

`CS_ENTER` and `CS_EXIT` are `cfe_disable_irq` and `cfe_enable_irq`. They mask a level, and give it
back as it was, when the level is unmasked exactly at depth 1; `cfe_enable_irq` after
`cfe_request_irq`, a second handler, a handler that has gone, and a request that conflicts all lead
to other depths. `Machine` records the open sections, and what the outermost ones have left.
-/

namespace BcmMruby.Irq

open Core

/-- An open section: its level, and the mask bit that `CS_ENTER` has found. -/
structure Section where
  irq : BitVec 32
  level : ℕ
  unmasked : Bool

/-- The end of the outermost section of a level. -/
structure Exit where
  entry : Section
  unmasked : Bool
  installed : Bool

structure Machine where
  irq : State
  /-- The open sections, the innermost one first. -/
  sections : List Section
  exits : List Exit

def init (sr : BitVec 32) : Machine := ⟨cfeIrqInit sr, [], []⟩

/-- The open sections of a level. -/
def Machine.on (m : Machine) (l : ℕ) : List Section := m.sections.filter (·.level = l)

inductive Event where
  | request (r : Request) (alloc : Bool)
  | free (irq : BitVec 32) (device : ℤ)
  | enable (irq : BitVec 32)
  | enter (irq : BitVec 32)
  | exit (irq : BitVec 32)

/-- A level has a handler. -/
def Level.installed (v : Level) : Bool := v.actions ≠ []

/-- `CS_EXIT` belongs to the innermost section. -/
def step (chip : Chip) (m : Machine) : Event → Option Machine
  | .request r alloc => some { m with irq := (cfeRequestIrq chip m.irq r alloc).2 }
  | .free irq device => some { m with irq := cfeFreeIrq chip m.irq irq device }
  | .enable irq => some { m with irq := cfeEnableIrq chip m.irq irq }
  | .enter irq =>
    let level := mapIrq chip irq
    some { m with
      irq := cfeDisableIrq chip m.irq irq
      sections := ⟨irq, level, (m.irq.level level).unmasked⟩ :: m.sections }
  | .exit irq =>
    match m.sections with
    | [] => none
    | entry :: rest =>
      if entry.irq = irq then
        let s := cfeEnableIrq chip m.irq irq
        let v := s.level entry.level
        some {
          irq := s
          sections := rest
          exits :=
            if rest.any (·.level = entry.level) then m.exits
            else ⟨entry, v.unmasked, v.installed⟩ :: m.exits }
      else none

/-- Inside a section its level is masked; after the outermost section the mask bit is what it was,
and a level that is left unmasked has a handler. -/
structure Sound (m : Machine) : Prop where
  masked : ∀ c ∈ m.sections, c.level < ipLevels → (m.irq.level c.level).unmasked = false
  restored : ∀ x ∈ m.exits, x.entry.level < ipLevels →
    x.unmasked = x.entry.unmasked ∧ (x.unmasked = true → x.installed = true)

/-! ### The condition -/

/-- No section of the level is open, or it was masked before, at a depth other than 0. -/
def Undisturbed (m : Machine) (l : ℕ) : Prop :=
  ∀ c ∈ (m.on l).getLast?, c.unmasked = false ∧ (m.irq.level l).depth + (m.on l).length ≠ 0

/-- `CS_ENTER` finds its level unmasked exactly if the depth is 1, and then with a handler. Inside
a section there is no request or `cfe_enable_irq` on its level that brings the depth to where
`CS_EXIT` unmasks, and the last handler of a level that was unmasked before does not go. -/
def Allowed (chip : Chip) (m : Machine) : Event → Prop
  | .request r alloc => r.handler ≠ none → alloc = true →
    mapIrq chip r.irq < ipLevels ∧ Undisturbed m (mapIrq chip r.irq) ∧
      (m.on (mapIrq chip r.irq) ≠ [] → (m.irq.level (mapIrq chip r.irq)).installed = true)
  | .free irq device => mapIrq chip irq < ipLevels ∧
    ∀ c ∈ (m.on (mapIrq chip irq)).getLast?, c.unmasked = true →
      ((m.irq.level (mapIrq chip irq)).free device).installed = true
  | .enable irq => mapIrq chip irq < ipLevels → Undisturbed m (mapIrq chip irq)
  | .enter irq => mapIrq chip irq < ipLevels →
    ((m.irq.level (mapIrq chip irq)).unmasked = true ↔ (m.irq.level (mapIrq chip irq)).depth = 1) ∧
    ((m.irq.level (mapIrq chip irq)).unmasked = true →
      (m.irq.level (mapIrq chip irq)).installed = true)
  | .exit _ => True

/-! ### One level -/

/-- With `k` sections open, the depth outside them being `outer`: `CS_EXIT` unmasks the level at
the end of the outermost section if it was unmasked before, and at no other end. -/
def Balanced (unmasked : Bool) (outer : ℤ) (k : ℕ) : Prop :=
  (unmasked = true ∧ outer = 1) ∨ (unmasked = false ∧ (outer ≤ 0 ∨ (k : ℤ) < outer))

structure Good (v : Level) (open_ : List Section) : Prop where
  depth : v.unmasked = true → 1 ≤ v.depth
  masked : ∀ c ∈ open_.getLast?, v.unmasked = false
  balanced : ∀ c ∈ open_.getLast?, Balanced c.unmasked (v.depth + open_.length) open_.length
  installed : ∀ c ∈ open_.getLast?, c.unmasked = true → v.installed = true

variable {v : Level} {open_ : List Section} {c : Section}

lemma Good.enter (h : Good v open_) (hv : v.unmasked = true ↔ v.depth = 1)
    (hinstalled : v.unmasked = true → v.installed = true) (hc : c.unmasked = v.unmasked) :
    Good v.disable (c :: open_) := by
  have hoff : v.disable.unmasked = false := by
    simp only [Level.disable, Bool.and_eq_false_iff, decide_eq_false_iff_not, not_not]
    cases hu : v.unmasked with
    | false => exact Or.inl rfl
    | true => exact Or.inr (hv.mp hu)
  have hdepth : v.disable.depth = v.depth - 1 := rfl
  refine ⟨fun hu => absurd (hoff.symm.trans hu) (by decide), fun _ _ => hoff, ?_, ?_⟩
  · intro c' hc'
    rw [hdepth]
    cases open_ with
    | nil =>
      have hcc : c = c' := Option.some.inj hc'
      subst hcc
      rw [hc]
      cases hu : v.unmasked with
      | true => simp [Balanced, hv.mp hu]
      | false =>
        have hne : v.depth ≠ 1 := fun e => by simp [hv.mpr e] at hu
        refine Or.inr ⟨rfl, ?_⟩
        simp only [List.length_singleton]
        omega
    | cons o os =>
      rw [List.getLast?_cons_cons] at hc'
      have hne : v.depth ≠ 1 := fun e => by simp [h.masked c' hc'] at hv; omega
      rcases h.balanced c' hc' with ⟨hu, houter⟩ | ⟨hu, houter⟩
      · refine Or.inl ⟨hu, ?_⟩
        simp only [List.length_cons] at houter ⊢
        omega
      · refine Or.inr ⟨hu, ?_⟩
        simp only [List.length_cons] at houter ⊢
        omega
  · intro c' hc'
    cases open_ with
    | nil =>
      have hcc : c = c' := Option.some.inj hc'
      subst hcc
      rw [hc]
      exact hinstalled
    | cons o os =>
      rw [List.getLast?_cons_cons] at hc'
      exact h.installed c' hc'

/-- The end of the outermost section. -/
lemma Good.exit_last (h : Good v [c]) :
    Good v.enable [] ∧ v.enable.unmasked = c.unmasked ∧
      (v.enable.unmasked = true → v.enable.installed = true) := by
  have hmasked := h.masked c rfl
  have hbal := h.balanced c rfl
  have henable : v.enable.unmasked = c.unmasked := by
    simp only [Level.enable, hmasked, Bool.false_or]
    rcases hbal with ⟨hu, houter⟩ | ⟨hu, houter⟩
    · simp only [List.length_singleton] at houter
      simp only [hu, decide_eq_true_eq]
      omega
    · simp only [List.length_singleton] at houter
      simp only [hu, decide_eq_false_iff_not]
      omega
  refine ⟨⟨?_, by simp, by simp, by simp⟩, henable, ?_⟩
  · intro hu
    simp only [Level.enable, hmasked, Bool.false_or, decide_eq_true_eq] at hu ⊢
    omega
  · intro hu
    exact h.installed c rfl (henable ▸ hu)

/-- The end of an inner section. -/
lemma Good.exit (h : Good v (c :: open_)) (hne : open_ ≠ []) : Good v.enable open_ := by
  obtain ⟨o, os, rfl⟩ := List.exists_cons_of_ne_nil hne
  obtain ⟨c₀, hc₀⟩ : ∃ c₀, (o :: os).getLast? = some c₀ := ⟨_, List.getLast?_cons⟩
  have hlast : (c :: o :: os).getLast? = some c₀ := by rw [List.getLast?_cons_cons, hc₀]
  have hmasked := h.masked c₀ hlast
  have hbal := h.balanced c₀ hlast
  have hdepth : v.depth ≠ 0 := by
    rcases hbal with ⟨-, houter⟩ | ⟨-, houter⟩
    · simp only [List.length_cons] at houter
      omega
    · simp only [List.length_cons] at houter
      omega
  have hoff : v.enable.unmasked = false := by simp [Level.enable, hmasked, hdepth]
  refine ⟨fun hu => absurd (hoff.symm.trans hu) (by decide), fun _ _ => hoff, ?_, ?_⟩
  · intro c' hc'
    have : c' = c₀ := Option.some.inj (hc'.symm.trans hc₀)
    subst this
    rcases hbal with ⟨hu, houter⟩ | ⟨hu, houter⟩
    · refine Or.inl ⟨hu, ?_⟩
      simp only [Level.enable, List.length_cons] at houter ⊢
      omega
    · refine Or.inr ⟨hu, ?_⟩
      simp only [Level.enable, List.length_cons] at houter ⊢
      omega
  · intro c' hc'
    rw [hc₀] at hc'
    exact h.installed c' (hlast.trans hc')

/-- Enabling the level in some other way, while it is masked or no section is open. -/
lemma Good.enable (h : Good v open_)
    (hsafe : ∀ c ∈ open_.getLast?, c.unmasked = false ∧ v.depth + open_.length ≠ 0) :
    Good v.enable open_ := by
  have hoff : ∀ c ∈ open_.getLast?, v.enable.unmasked = false := by
    intro c hc
    have hbal := h.balanced c hc
    have hlen : open_.length ≠ 0 := by
      rintro hzero
      rw [List.length_eq_zero_iff.mp hzero] at hc
      cases hc
    simp only [Balanced, (hsafe c hc).1, Bool.false_eq_true, false_and, true_and, false_or] at hbal
    simp only [Level.enable, h.masked c hc, Bool.false_or, decide_eq_false_iff_not]
    omega
  refine ⟨?_, hoff, ?_, h.installed⟩
  · intro hu
    simp only [Level.enable, Bool.or_eq_true, decide_eq_true_eq] at hu ⊢
    rcases hu with hu | hu
    · have := h.depth hu
      omega
    · omega
  · intro c hc
    have hbal := h.balanced c hc
    obtain ⟨hu, hne⟩ := hsafe c hc
    simp only [Balanced, hu, Bool.false_eq_true, false_and, true_and, false_or,
      Level.enable] at hbal ⊢
    omega

lemma Good.mask (h : Good v open_) : Good { v with unmasked := false } open_ :=
  ⟨by simp, fun _ _ => rfl, h.balanced, h.installed⟩

lemma Good.install (h : Good v open_) (action : Action)
    (hsafe : ∀ c ∈ open_.getLast?, c.unmasked = false ∧ v.depth + open_.length ≠ 0)
    (hfirst : open_ ≠ [] → v.installed = true) : Good (v.install action) open_ := by
  rw [Level.install]
  split_ifs with hnil
  · have hopen : open_ = [] := by
      by_contra hne
      simpa [Level.installed, hnil] using hfirst hne
    subst hopen
    exact ⟨by simp, by simp, by simp, by simp⟩
  · have hv : Good { v with actions := v.actions ++ [action] } open_ :=
      ⟨h.depth, h.masked, h.balanced, fun _ _ _ => by simp [Level.installed]⟩
    exact hv.enable hsafe

lemma Good.free (h : Good v open_) (device : ℤ)
    (hsafe : ∀ c ∈ open_.getLast?, c.unmasked = true → (v.free device).installed = true) :
    Good (v.free device) open_ := by
  have hdepth : (v.free device).depth = v.depth := by
    rw [Level.free]
    split_ifs <;> rfl
  have hunmasked : (v.free device).unmasked = true → v.unmasked = true := by
    rw [Level.free]
    split_ifs
    · simp
    · exact id
  refine ⟨?_, ?_, ?_, hsafe⟩
  · intro hu
    rw [hdepth]
    exact h.depth (hunmasked hu)
  · intro c hc
    have hmasked := h.masked c hc
    cases hu : (v.free device).unmasked with
    | false => rfl
    | true => exact absurd (hmasked.symm.trans (hunmasked hu)) (by decide)
  · rw [hdepth]
    exact h.balanced

/-! ### The machine -/

structure Inv (chip : Chip) (m : Machine) : Prop where
  mapped : ∀ c ∈ m.sections, c.level = mapIrq chip c.irq
  good : ∀ l < ipLevels, Good (m.irq.level l) (m.on l)
  restored : ∀ x ∈ m.exits, x.entry.level < ipLevels →
    x.unmasked = x.entry.unmasked ∧ (x.unmasked = true → x.installed = true)

variable {chip : Chip} {m m' : Machine}

lemma on_cons (l : ℕ) (s : State) (cs : List Section) (xs : List Exit) :
    (Machine.mk s (c :: cs) xs).on l =
      if c.level = l then c :: (Machine.mk s cs xs).on l else (Machine.mk s cs xs).on l := by
  by_cases h : c.level = l
  · simp [Machine.on, h]
  · simp [Machine.on, h]

lemma inv_init (chip : Chip) (sr : BitVec 32) : Inv chip (init sr) := by
  refine ⟨by simp [init], ?_, by simp [init]⟩
  intro l hl
  have hoff : ((init sr).irq.level l).unmasked = false := by
    have hl' : l < 8 := hl
    have hall : ∀ l < 8, (~~~(0x1ff00 : BitVec 32)).getLsbD (8 + l) = false ∧
        (1 : BitVec 32).getLsbD (8 + l) = false := by decide
    obtain ⟨hmask, hone⟩ := hall l hl'
    rw [init, State.level, cfeIrqInit, BitVec.getLsbD_or, BitVec.getLsbD_and, hmask, hone,
      Bool.and_false, Bool.or_false]
  exact ⟨fun hu => absurd (hoff.symm.trans hu) (by decide), by simp [Machine.on, init],
    by simp [Machine.on, init], by simp [Machine.on, init]⟩

lemma Inv.sound (h : Inv chip m) : Sound m := by
  refine ⟨?_, h.restored⟩
  intro c hc hl
  have hmem : c ∈ m.on c.level := by simp [Machine.on, hc]
  obtain ⟨c₀, hc₀⟩ := Option.isSome_iff_exists.mp
    (List.getLast?_isSome.mpr (List.ne_nil_of_mem hmem))
  exact (h.good c.level hl).masked c₀ hc₀

/-- The levels of a machine of which only one is written. -/
lemma Inv.update (h : Inv chip m) (s : State) (level : ℕ)
    (hlevel : level < ipLevels → Good (s.level level) (m.on level))
    (hframe : ∀ l < ipLevels, l ≠ level → s.level l = m.irq.level l) :
    Inv chip { m with irq := s } := by
  refine ⟨h.mapped, ?_, h.restored⟩
  intro l hl
  by_cases heq : l = level
  · subst heq
    exact hlevel hl
  · have hgood := h.good l hl
    rw [← hframe l hl heq] at hgood
    exact hgood

lemma Inv.request (h : Inv chip m) (r : Request) (alloc : Bool)
    (hG : Allowed chip m (.request r alloc)) :
    Inv chip { m with irq := (cfeRequestIrq chip m.irq r alloc).2 } := by
  by_cases hr : r.handler = none ∨ alloc = false
  · have hsame : (cfeRequestIrq chip m.irq r alloc).2 = m.irq := by
      rcases hr with hr | rfl
      · simp [cfeRequestIrq, hr]
      · rw [cfeRequestIrq]
        split <;> rfl
    rw [hsame]
    exact h
  rw [not_or, Bool.not_eq_false] at hr
  obtain ⟨hlevel, hsafe, hfirst⟩ := hG hr.1 hr.2
  have hgood := h.good _ hlevel
  have hrule := RequestRule.of_cfeRequestIrq chip m.irq r alloc
  generalize (cfeRequestIrq chip m.irq r alloc).2 = s at hrule ⊢
  cases hrule with
  | refused => exact h
  | installed s action hs =>
    refine h.update _ (mapIrq chip r.irq) ?_ ?_
    · intro hl
      rw [hs _ hl, if_pos rfl]
      exact hgood.install action hsafe hfirst
    · intro l hl hne
      rw [hs l hl, if_neg hne]
  | conflict s hactions hs =>
    refine ⟨h.mapped, ?_, h.restored⟩
    intro l hl
    show Good (s.level l) (m.on l)
    rw [hs l hl]
    split_ifs with heq
    · subst heq
      exact hgood.mask.enable hsafe
    · exact (h.good l hl).mask

lemma Inv.enter (h : Inv chip m) (irq : BitVec 32) (hG : Allowed chip m (.enter irq)) :
    Inv chip { m with
      irq := cfeDisableIrq chip m.irq irq
      sections := ⟨irq, mapIrq chip irq, (m.irq.level (mapIrq chip irq)).unmasked⟩ ::
        m.sections } := by
  refine ⟨?_, ?_, h.restored⟩
  · rintro c hc
    rcases List.mem_cons.mp hc with rfl | hc
    · rfl
    · exact h.mapped c hc
  · intro l hl
    rw [on_cons, level_cfeDisableIrq hl]
    by_cases heq : mapIrq chip irq = l
    · subst heq
      obtain ⟨hv, hinstalled⟩ := hG hl
      rw [if_pos rfl, if_pos rfl]
      exact (h.good _ hl).enter hv hinstalled rfl
    · rw [if_neg heq, if_neg fun e => heq e.symm]
      exact h.good l hl

lemma Inv.exit (h : Inv chip m) {irq : BitVec 32} (hs : step chip m (.exit irq) = some m') :
    Inv chip m' := by
  obtain ⟨s, sections, exits⟩ := m
  cases sections with
  | nil => cases hs
  | cons entry rest =>
    simp only [step] at hs
    by_cases hirq : entry.irq = irq
    swap
    · rw [if_neg hirq] at hs
      cases hs
    rw [if_pos hirq] at hs
    cases hs
    have hentry : mapIrq chip irq = entry.level := by
      rw [← hirq]
      exact (h.mapped entry List.mem_cons_self).symm
    have hrest : ∀ l, (Machine.mk s rest exits).on l = rest.filter (·.level = l) := fun _ => rfl
    have hgood : ∀ l < ipLevels, Good (s.level l)
        (if entry.level = l then entry :: rest.filter (·.level = l)
          else rest.filter (·.level = l)) := by
      intro l hl
      have := h.good l hl
      rwa [on_cons, hrest] at this
    refine ⟨fun c hc => h.mapped c (List.mem_cons_of_mem _ hc), ?_, ?_⟩
    · intro l hl
      show Good _ (rest.filter (·.level = l))
      have := hgood l hl
      rw [level_cfeEnableIrq hl, hentry]
      by_cases heq : entry.level = l
      · rw [if_pos heq] at this
        rw [if_pos heq.symm]
        by_cases hnil : rest.filter (·.level = l) = []
        · rw [hnil] at this ⊢
          exact this.exit_last.1
        · exact this.exit hnil
      · rw [if_neg heq] at this
        rw [if_neg fun e => heq e.symm]
        exact this
    · intro x hx hl
      by_cases hany : rest.any (·.level = entry.level) = true
      · simp only [hany, if_true] at hx
        exact h.restored x hx hl
      simp only [hany, Bool.false_eq_true, if_false] at hx
      rcases List.mem_cons.mp hx with rfl | hx
      swap
      · exact h.restored x hx hl
      have hnil : rest.filter (·.level = entry.level) = [] := by
        simpa [List.filter_eq_nil_iff] using hany
      have hlast := hgood entry.level hl
      rw [if_pos rfl, hnil] at hlast
      have henable := level_cfeEnableIrq hl chip s irq
      rw [if_pos hentry.symm] at henable
      simp only [henable]
      exact hlast.exit_last.2

lemma Inv.step (h : Inv chip m) (e : Event) (hG : Allowed chip m e)
    (hs : Irq.step chip m e = some m') : Inv chip m' := by
  cases e with
  | request r alloc =>
    cases hs
    exact h.request r alloc hG
  | free irq device =>
    cases hs
    refine h.update _ (mapIrq chip irq) ?_ ?_
    · intro hl
      rw [level_cfeFreeIrq hl, if_pos rfl]
      exact (h.good _ hl).free device hG.2
    · intro l hl hne
      rw [level_cfeFreeIrq hl, if_neg hne]
  | enable irq =>
    cases hs
    refine h.update _ (mapIrq chip irq) ?_ ?_
    · intro hl
      rw [level_cfeEnableIrq hl, if_pos rfl]
      exact (h.good _ hl).enable (hG hl)
    · intro l hl hne
      rw [level_cfeEnableIrq hl, if_neg hne]
  | enter irq =>
    cases hs
    exact h.enter irq hG
  | exit irq => exact h.exit hs

/-! ### Runs -/

/-- Critical sections mask their level and give it back in every run that keeps to the condition. -/
theorem sections_sound (chip : Chip) (sr : BitVec 32) {es : List Event}
    (hG : Throughout (step chip) (Allowed chip) (init sr) es) :
    Always (step chip) Sound (init sr) es :=
  always_of_throughout (fun _ e _ h hG hs => h.step e hG hs) (fun _ h => h.sound)
    (inv_init chip sr) hG

/-- The requests of `timer_init`. -/
def timerInit : List Event := [.request ⟨5, some 1, 0, irqFlagsShared, 0⟩ true, .enable 5]

def bcm5350 : Chip := ⟨true, 0⟩

/-- A handler, and a section on its level. -/
theorem sections_sound_pair :
    Always (step bcm5350) Sound (init 0)
      [.request ⟨2, some 1, 0, irqFlagsShared, 0⟩ true, .enter 2, .exit 2] := by
  refine sections_sound bcm5350 0 ?_
  refine (throughout_cons_of_step rfl).mpr ⟨?_, (throughout_cons_of_step rfl).mpr ⟨?_,
    (throughout_cons_of_step rfl).mpr ⟨trivial, trivial⟩⟩⟩
  · intro _ _
    refine ⟨by decide, ?_, fun hne => absurd rfl hne⟩
    intro c hc
    cases hc
  · intro _
    exact ⟨by decide, by decide⟩

/-- After `timer_init` a section leaves its level unmasked; after the last handler has gone, a
section unmasks the level. -/
theorem sections_unsound :
    (∃ m, run (step bcm5350) (init 0) (timerInit ++ [.enter 5]) = some m ∧ ¬ Sound m) ∧
    ∃ m, run (step bcm5350) (init 0) [.request ⟨2, some 1, 0, irqFlagsShared, 0⟩ true, .free 2 0,
      .enter 2, .exit 2] = some m ∧ ¬ Sound m := by
  refine ⟨⟨_, rfl, ?_⟩, ⟨_, rfl, ?_⟩⟩
  · intro h
    have := h.masked _ List.mem_cons_self (by decide)
    exact absurd this (by decide)
  · intro h
    have := h.restored _ List.mem_cons_self (by decide)
    exact absurd (this.2 (by decide)) (by decide)

end BcmMruby.Irq
