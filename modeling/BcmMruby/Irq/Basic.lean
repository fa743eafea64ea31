import Mathlib.Tactic

/-!
# Interrupt levels

`bcmcore_irq.c` and the part of `bcmcore_ircpoll.S` that it uses. An interrupt number is mapped to
one of eight levels; a level has a chain of handlers, a depth, and a mask bit in the status
register. `cfe_enable_irq` unmasks a level that it finds at depth 0, `cfe_disable_irq` masks one
that it brings to depth 0.
-/

namespace BcmMruby.Irq

def ipLevels : ℕ := 8

def irqFlagsShared : BitVec 32 := 0x1

/-- `M_SR_IMMASK|M_SR_IE`. -/
def srEnables : BitVec 32 := 0x1ff01

/-- `_MM_MAKEMASK1(S_SR_IMMASK + level)`. -/
def imBit (level : ℕ) : BitVec 32 := BitVec.twoPow 32 (8 + level)

structure Action where
  handler : ℕ
  arg : ℕ
  flags : BitVec 32
  device : ℤ
  deriving DecidableEq

structure Desc where
  actions : List Action
  depth : ℤ
  /-- The status flag `IRQ_DISABLED`. -/
  disabled : Bool
  deriving DecidableEq

structure State where
  sr : BitVec 32
  /-- `irq_desc`; `cfe_request_irq` and `cfe_free_irq` do not look whether an index is below 8. -/
  desc : ℕ → Desc

def State.setDesc (s : State) (level : ℕ) (desc : Desc) : State :=
  { s with desc := Function.update s.desc level desc }

/-! ### Mapping -/

structure Chip where
  isbcm535x : Bool
  /-- The register `R_SBIPSFLAG`: four flags of six bits, in a byte each. -/
  ipsflag : BitVec 32

/-- A flag that is not listed goes to 0, and is set in another register as well. -/
def sbMapIrq (chip : Chip) (flagnum : BitVec 32) : BitVec 32 :=
  if flagnum = chip.ipsflag &&& 0x3f then 1
  else if flagnum = (chip.ipsflag >>> 8) &&& 0x3f then 2
  else if flagnum = (chip.ipsflag >>> 16) &&& 0x3f then 3
  else if flagnum = (chip.ipsflag >>> 24) &&& 0x3f then 4
  else 0

/-- `bcmcore_map_irq`. -/
def mapIrq (chip : Chip) (irq : BitVec 32) : ℕ :=
  if irq = 5 then 7
  else if chip.isbcm535x then (irq + 3).toNat
  else (sbMapIrq chip irq + 2).toNat

/-! ### The status register -/

def irqDisable (s : State) : BitVec 32 × State :=
  (s.sr &&& srEnables, { s with sr := s.sr &&& ~~~srEnables })

def irqEnable (s : State) (mask : BitVec 32) : State :=
  { s with sr := (s.sr &&& ~~~srEnables) ||| (mask &&& srEnables) }

/-- `cfe_irq_init`, with all levels masked and interrupts on. -/
def cfeIrqInit (sr : BitVec 32) : State where
  sr := (sr &&& ~~~(0x1ff00 : BitVec 32)) ||| 1
  desc := fun _ => ⟨[], 0, true⟩

/-! ### Requests -/

def cfeEnableIrq (chip : Chip) (s : State) (irq : BitVec 32) : State :=
  let level := mapIrq chip irq
  if level < ipLevels then
    let (sr, s) := irqDisable s
    let desc := s.desc level
    if desc.depth = 0 then
      irqEnable (s.setDesc level { desc with disabled := false, depth := desc.depth + 1 })
        (sr ||| imBit level)
    else irqEnable (s.setDesc level { desc with depth := desc.depth + 1 }) sr
  else s

def cfeDisableIrq (chip : Chip) (s : State) (irq : BitVec 32) : State :=
  let level := mapIrq chip irq
  if level < ipLevels then
    let (sr, s) := irqDisable s
    let desc := s.desc level
    if desc.depth - 1 = 0 then
      irqEnable (s.setDesc level { desc with disabled := true, depth := desc.depth - 1 })
        (sr &&& ~~~imBit level)
    else irqEnable (s.setDesc level { desc with depth := desc.depth - 1 }) sr
  else s

structure Request where
  irq : BitVec 32
  handler : Option ℕ
  arg : ℕ
  flags : BitVec 32
  device : ℤ
  deriving DecidableEq

/-- The result and the new state; `alloc` says whether `KMALLOC` succeeds. -/
def cfeRequestIrq (chip : Chip) (s : State) (r : Request) (alloc : Bool) : ℤ × State :=
  match r.handler with
  | none => (-1, s)
  | some handler =>
    if alloc then
      let level := mapIrq chip r.irq
      let action : Action := ⟨handler, r.arg, r.flags, r.device⟩
      let (sr, s) := irqDisable s
      let desc := s.desc level
      match desc.actions with
      | [] =>
        let s := irqEnable (s.setDesc level ⟨[action], 0, true⟩) (sr &&& ~~~imBit level)
        (0, cfeEnableIrq chip s r.irq)
      | p :: _ =>
        -- The conflict ends here: `sr` is not restored.
        if p.flags &&& r.flags &&& irqFlagsShared = 0 then (-1, cfeEnableIrq chip s r.irq)
        else
          let s := irqEnable (s.setDesc level { desc with actions := desc.actions ++ [action] }) sr
          (0, cfeEnableIrq chip s r.irq)
    else (-1, s)

/-- Only the mask bit and the status of a level change when its last handler goes. -/
def cfeFreeIrq (chip : Chip) (s : State) (irq : BitVec 32) (device : ℤ) : State :=
  let level := mapIrq chip irq
  let (sr, s) := irqDisable s
  let desc := s.desc level
  let rest := desc.actions.eraseP (·.device = device)
  if desc.actions ≠ [] ∧ rest = [] then
    irqEnable (s.setDesc level { desc with actions := [], disabled := true })
      (sr &&& ~~~imBit level)
  else irqEnable (s.setDesc level { desc with actions := rest }) sr

/-! ### What a level sees -/

/-- A level as a whole. -/
structure Level where
  unmasked : Bool
  depth : ℤ
  actions : List Action

def State.level (s : State) (l : ℕ) : Level :=
  ⟨s.sr.getLsbD (8 + l), (s.desc l).depth, (s.desc l).actions⟩

def Level.enable (v : Level) : Level :=
  { v with unmasked := v.unmasked || v.depth = 0, depth := v.depth + 1 }

def Level.disable (v : Level) : Level :=
  { v with unmasked := v.unmasked && v.depth ≠ 1, depth := v.depth - 1 }

/-- A request that succeeds. -/
def Level.install (v : Level) (action : Action) : Level :=
  if v.actions = [] then ⟨true, 1, [action]⟩
  else { v with actions := v.actions ++ [action] }.enable

def Level.free (v : Level) (device : ℤ) : Level :=
  let rest := v.actions.eraseP (·.device = device)
  if v.actions ≠ [] ∧ rest = [] then { v with unmasked := false, actions := [] }
  else { v with actions := rest }

section

variable {l : ℕ}

lemma getLsbD_srEnables (hl : l < ipLevels) : srEnables.getLsbD (8 + l) = true := by
  have hall : ∀ l < ipLevels, srEnables.getLsbD (8 + l) = true := by decide
  exact hall l hl

lemma getLsbD_or_imBit (hl : l < ipLevels) (mask : BitVec 32) (level : ℕ) :
    (mask ||| imBit level).getLsbD (8 + l) = (mask.getLsbD (8 + l) || decide (level = l)) := by
  have hl' : l < 8 := hl
  rw [BitVec.getLsbD_or, imBit, BitVec.getLsbD_twoPow]
  by_cases h : level = l
  · have h32 : 8 + l < 32 := by omega
    simp [h, h32]
  · simp [h]

lemma getLsbD_and_not_imBit (hl : l < ipLevels) (mask : BitVec 32) (level : ℕ) :
    (mask &&& ~~~imBit level).getLsbD (8 + l) = (mask.getLsbD (8 + l) && decide (level ≠ l)) := by
  have hl' : l < 8 := hl
  have h32 : 8 + l < 32 := by omega
  rw [BitVec.getLsbD_and, BitVec.getLsbD_not, imBit, BitVec.getLsbD_twoPow]
  by_cases h : level = l
  · simp [h, h32]
  · simp [h, h32]

lemma getLsbD_irqEnable (hl : l < ipLevels) (s : State) (mask : BitVec 32) :
    (irqEnable s mask).sr.getLsbD (8 + l) = mask.getLsbD (8 + l) := by
  simp only [irqEnable, BitVec.getLsbD_or, BitVec.getLsbD_and, BitVec.getLsbD_not,
    getLsbD_srEnables hl, Bool.not_true, Bool.and_false, Bool.and_true, Bool.false_or]

lemma getLsbD_irqDisable (hl : l < ipLevels) (s : State) :
    (irqDisable s).1.getLsbD (8 + l) = s.sr.getLsbD (8 + l) := by
  rw [irqDisable, BitVec.getLsbD_and, getLsbD_srEnables hl, Bool.and_true]

/-- With interrupts disabled every level is masked. -/
lemma level_irqDisable (hl : l < ipLevels) (s : State) :
    (irqDisable s).2.level l = { s.level l with unmasked := false } := by
  simp only [State.level, irqDisable, BitVec.getLsbD_and, BitVec.getLsbD_not,
    getLsbD_srEnables hl, Bool.not_true, Bool.and_false]

/-- A level after its descriptor and the status register have been written. -/
lemma level_irqEnable_setDesc (hl : l < ipLevels) (s : State) (level : ℕ) (desc : Desc)
    (mask : BitVec 32) :
    (irqEnable (s.setDesc level desc) mask).level l =
      ⟨mask.getLsbD (8 + l), if l = level then desc.depth else (s.desc l).depth,
        if l = level then desc.actions else (s.desc l).actions⟩ := by
  rw [State.level, getLsbD_irqEnable hl]
  by_cases h : l = level
  · simp [irqEnable, State.setDesc, h]
  · simp [irqEnable, State.setDesc, h]

/-! ### The functions, level by level -/

lemma level_cfeEnableIrq (hl : l < ipLevels) (chip : Chip) (s : State) (irq : BitVec 32) :
    (cfeEnableIrq chip s irq).level l =
      if l = mapIrq chip irq then (s.level l).enable else s.level l := by
  rw [cfeEnableIrq]
  generalize mapIrq chip irq = level
  by_cases hlevel : level < ipLevels
  swap
  · have hne : l ≠ level := by omega
    simp [hlevel, hne]
  rw [if_pos hlevel]
  by_cases hdepth : (s.desc level).depth = 0
  · have hdepth' : ((irqDisable s).2.desc level).depth = 0 := hdepth
    simp only [hdepth', if_true, level_irqEnable_setDesc hl, getLsbD_or_imBit hl,
      getLsbD_irqDisable hl]
    by_cases h : l = level
    · subst h
      simp [State.level, Level.enable, irqDisable, hdepth]
    · have hne : level ≠ l := fun e => h e.symm
      simp [State.level, irqDisable, h, hne]
  · have hdepth' : ((irqDisable s).2.desc level).depth ≠ 0 := hdepth
    simp only [hdepth', if_false, level_irqEnable_setDesc hl, getLsbD_irqDisable hl]
    by_cases h : l = level
    · subst h
      simp [State.level, Level.enable, irqDisable, hdepth]
    · simp [State.level, irqDisable, h]

lemma level_cfeDisableIrq (hl : l < ipLevels) (chip : Chip) (s : State) (irq : BitVec 32) :
    (cfeDisableIrq chip s irq).level l =
      if l = mapIrq chip irq then (s.level l).disable else s.level l := by
  rw [cfeDisableIrq]
  generalize mapIrq chip irq = level
  by_cases hlevel : level < ipLevels
  swap
  · have hne : l ≠ level := by omega
    simp [hlevel, hne]
  rw [if_pos hlevel]
  by_cases hdepth : (s.desc level).depth - 1 = 0
  · have hdepth' : ((irqDisable s).2.desc level).depth - 1 = 0 := hdepth
    have hone : (s.desc level).depth = 1 := by omega
    simp only [hdepth', if_true, level_irqEnable_setDesc hl, getLsbD_and_not_imBit hl,
      getLsbD_irqDisable hl]
    by_cases h : l = level
    · subst h
      simp [State.level, Level.disable, irqDisable, hone]
    · have hne : level ≠ l := fun e => h e.symm
      simp [State.level, irqDisable, h, hne]
  · have hdepth' : ((irqDisable s).2.desc level).depth - 1 ≠ 0 := hdepth
    have hone : (s.desc level).depth ≠ 1 := by omega
    simp only [hdepth', if_false, level_irqEnable_setDesc hl, getLsbD_irqDisable hl]
    by_cases h : l = level
    · subst h
      simp [State.level, Level.disable, irqDisable, hone]
    · simp [State.level, irqDisable, h]

lemma level_cfeFreeIrq (hl : l < ipLevels) (chip : Chip) (s : State) (irq : BitVec 32)
    (device : ℤ) :
    (cfeFreeIrq chip s irq device).level l =
      if l = mapIrq chip irq then (s.level l).free device else s.level l := by
  rw [cfeFreeIrq]
  generalize mapIrq chip irq = level
  dsimp only
  by_cases hlast : (s.desc level).actions ≠ [] ∧
      (s.desc level).actions.eraseP (·.device = device) = []
  · rw [if_pos (by exact hlast), level_irqEnable_setDesc hl, getLsbD_and_not_imBit hl,
      getLsbD_irqDisable hl]
    by_cases h : l = level
    · subst h
      rw [if_pos rfl, if_pos rfl, if_pos rfl, Level.free, if_pos (by exact hlast)]
      simp [State.level, irqDisable]
    · have hne : level ≠ l := fun e => h e.symm
      simp [State.level, irqDisable, h, hne]
  · rw [if_neg (by exact hlast), level_irqEnable_setDesc hl, getLsbD_irqDisable hl]
    by_cases h : l = level
    · subst h
      rw [if_pos rfl, if_pos rfl, if_pos rfl, Level.free, if_neg (by exact hlast)]
      rfl
    · rw [if_neg h, if_neg h, if_neg h]
      rfl

/-- What a request does. -/
inductive RequestRule (chip : Chip) (s : State) (r : Request) : State → Prop where
  | refused : RequestRule chip s r s
  | installed (s' : State) (action : Action)
      (hlevel : ∀ l < ipLevels, s'.level l =
        if l = mapIrq chip r.irq then (s.level l).install action else s.level l) :
      RequestRule chip s r s'
  | conflict (s' : State) (hactions : (s.desc (mapIrq chip r.irq)).actions ≠ [])
      (hlevel : ∀ l < ipLevels, s'.level l =
        if l = mapIrq chip r.irq then { s.level l with unmasked := false }.enable
        else { s.level l with unmasked := false }) :
      RequestRule chip s r s'

lemma RequestRule.of_cfeRequestIrq (chip : Chip) (s : State) (r : Request) (alloc : Bool) :
    RequestRule chip s r (cfeRequestIrq chip s r alloc).2 := by
  rw [cfeRequestIrq]
  split
  · exact .refused
  · next handler hhandler =>
    cases alloc with
    | false => exact .refused
    | true =>
      dsimp only
      rw [if_pos rfl]
      split
      · next hactions =>
        have hnil : (s.desc (mapIrq chip r.irq)).actions = [] := hactions
        refine .installed _ ⟨handler, r.arg, r.flags, r.device⟩ ?_
        intro l hl
        rw [level_cfeEnableIrq hl, level_irqEnable_setDesc hl, getLsbD_and_not_imBit hl,
          getLsbD_irqDisable hl]
        by_cases h : l = mapIrq chip r.irq
        · subst h
          simp [Level.enable, Level.install, State.level, hnil]
        · have hne : mapIrq chip r.irq ≠ l := fun e => h e.symm
          simp [State.level, irqDisable, h, hne]
      · next p ps hactions =>
        have hcons : (s.desc (mapIrq chip r.irq)).actions = p :: ps := hactions
        split_ifs
        · refine .conflict _ (by simp [hcons]) ?_
          intro l hl
          rw [level_cfeEnableIrq hl, level_irqDisable hl]
        · refine .installed _ ⟨handler, r.arg, r.flags, r.device⟩ ?_
          intro l hl
          rw [level_cfeEnableIrq hl, level_irqEnable_setDesc hl, getLsbD_irqDisable hl]
          by_cases h : l = mapIrq chip r.irq
          · subst h
            simp [Level.install, State.level, irqDisable, hcons]
          · rw [if_neg h, if_neg h, if_neg h, if_neg h]
            rfl

end

end BcmMruby.Irq
