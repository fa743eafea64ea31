import BcmMruby.Irq.Basic

/-!
# Requests that are refused

`cfe_request_irq` returns -1 for a request without a handler, when there is no memory for it, and
when its level has a handler that does not share. In the last case it has already disabled the
interrupts.
-/

namespace BcmMruby.Irq

variable {chip : Chip} {s s' : State} {r : Request} {alloc : Bool}

/-- The chain, depth and status of every level, the mask bits and the interrupt enable bit. -/
structure Unchanged (s s' : State) : Prop where
  desc : ∀ l < ipLevels, s'.desc l = s.desc l
  enables : s'.sr &&& srEnables = s.sr &&& srEnables

/-- The level has a handler, and not both agree to share it. -/
def Conflicts (chip : Chip) (s : State) (r : Request) : Prop :=
  ∃ p ∈ (s.desc (mapIrq chip r.irq)).actions.head?, p.flags &&& r.flags &&& irqFlagsShared = 0

/-- The request comes to the conflict. -/
def Refused (chip : Chip) (s : State) (r : Request) (alloc : Bool) : Prop :=
  r.handler ≠ none ∧ alloc = true ∧ Conflicts chip s r

lemma Unchanged.refl (s : State) : Unchanged s s := ⟨fun _ _ => rfl, rfl⟩

/-- The interrupts are disabled, and the level is enabled from there. -/
lemma cfeRequestIrq_of_refused (h : Refused chip s r alloc) :
    cfeRequestIrq chip s r alloc = (-1, cfeEnableIrq chip (irqDisable s).2 r.irq) := by
  obtain ⟨hhandler, rfl, p, hp, hflags⟩ := h
  obtain ⟨handler, hhandler⟩ := Option.ne_none_iff_exists'.mp hhandler
  obtain ⟨ps, hactions⟩ := List.head?_eq_some_iff.mp hp
  have hactions' : ((irqDisable s).2.desc (mapIrq chip r.irq)).actions = p :: ps := hactions
  simp only [cfeRequestIrq, hhandler, hactions', hflags, if_true]

/-- Any other request that fails is turned down before. -/
lemma eq_of_not_refused (h : ¬ Refused chip s r alloc)
    (hret : (cfeRequestIrq chip s r alloc).1 = -1) : (cfeRequestIrq chip s r alloc).2 = s := by
  rw [cfeRequestIrq] at hret ⊢
  cases hhandler : r.handler with
  | none => rfl
  | some handler =>
    cases alloc with
    | false => rfl
    | true =>
      have hconflict : ¬ Conflicts chip s r := fun hc => h ⟨by simp [hhandler], rfl, hc⟩
      have hactions : ((irqDisable s).2.desc (mapIrq chip r.irq)).actions =
          (s.desc (mapIrq chip r.irq)).actions := rfl
      simp only [hhandler, if_true, hactions] at hret
      cases hchain : (s.desc (mapIrq chip r.irq)).actions with
      | nil =>
        rw [hchain] at hret
        cases hret
      | cons p ps =>
        have hflags : p.flags &&& r.flags &&& irqFlagsShared ≠ 0 :=
          fun hzero => hconflict ⟨p, by rw [hchain]; rfl, hzero⟩
        simp only [hchain, if_neg hflags] at hret
        cases hret

/-- What a refused request changes: its level is one deeper, if there is such a level, and nothing
but that level is left enabled. -/
lemma unchanged_iff_of_refused (h : Refused chip s r alloc) :
    Unchanged s (cfeRequestIrq chip s r alloc).2 ↔
      ipLevels ≤ mapIrq chip r.irq ∧ s.sr &&& srEnables = 0 := by
  rw [cfeRequestIrq_of_refused h]
  constructor
  · intro hsame
    by_cases hlevel : mapIrq chip r.irq < ipLevels
    · have hdepth := congrArg Desc.depth (hsame.desc _ hlevel)
      have henable := congrArg Level.depth
        (level_cfeEnableIrq hlevel chip (irqDisable s).2 r.irq)
      simp only [State.level, if_true, Level.enable, irqDisable] at henable hdepth
      omega
    · refine ⟨Nat.not_lt.mp hlevel, ?_⟩
      have hsr := hsame.enables
      simp only [cfeEnableIrq, if_neg hlevel, irqDisable] at hsr
      rw [← hsr, BitVec.and_assoc, BitVec.and_comm (~~~srEnables)]
      simp
  · rintro ⟨hlevel, hoff⟩
    refine ⟨fun l _ => ?_, ?_⟩
    · simp [cfeEnableIrq, Nat.not_lt.mpr hlevel, irqDisable]
    · simp only [cfeEnableIrq, if_neg (Nat.not_lt.mpr hlevel), irqDisable]
      rw [hoff, BitVec.and_assoc, BitVec.and_comm (~~~srEnables)]
      simp

/-! ### Main result -/

/-- A request that returns -1 leaves everything as it was exactly if it does not come to a conflict,
or comes to one on a level that does not exist while nothing is enabled. -/
theorem unchanged_iff (chip : Chip) (s : State) (r : Request) (alloc : Bool) :
    ((cfeRequestIrq chip s r alloc).1 = -1 → Unchanged s (cfeRequestIrq chip s r alloc).2) ↔
      (Refused chip s r alloc → ipLevels ≤ mapIrq chip r.irq ∧ s.sr &&& srEnables = 0) := by
  by_cases h : Refused chip s r alloc
  · have hret : (cfeRequestIrq chip s r alloc).1 = -1 := by rw [cfeRequestIrq_of_refused h]
    simp only [hret, h, true_imp_iff]
    exact unchanged_iff_of_refused h
  · refine iff_of_true (fun hret => ?_) (fun hrefused => absurd hrefused h)
    rw [eq_of_not_refused h hret]
    exact .refl s

/-- The state after the request of `timer_init`, which shares its level. -/
def timerRequested : State :=
  (cfeRequestIrq ⟨true, 0⟩ (cfeIrqInit 0) ⟨5, some 1, 0, irqFlagsShared, 0⟩ true).2

/-- A second request that does not share returns with all interrupts off and the timer's level a
step deeper. -/
theorem refused_request_disables :
    (cfeRequestIrq ⟨true, 0⟩ timerRequested ⟨5, some 2, 0, 0, 1⟩ true).1 = -1 ∧
      timerRequested.sr &&& srEnables = 0x8001 ∧
      (cfeRequestIrq ⟨true, 0⟩ timerRequested ⟨5, some 2, 0, 0, 1⟩ true).2.sr &&& srEnables = 0 ∧
      ¬ Unchanged timerRequested
        (cfeRequestIrq ⟨true, 0⟩ timerRequested ⟨5, some 2, 0, 0, 1⟩ true).2 := by
  refine ⟨by decide, by decide, by decide, fun h => ?_⟩
  exact absurd h.enables (by decide)

end BcmMruby.Irq
