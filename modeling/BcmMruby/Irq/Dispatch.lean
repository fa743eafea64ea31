import BcmMruby.Core.Run
import BcmMruby.Irq.Basic

/-!
# Dispatching interrupts

`bcmcore_irq_demux` and `bcmcore_dispatch_pending` of `bcmcore_irq.c`, and `cfe_irq_setvector`. The
processor takes an interrupt as long as a level is pending that is not masked; the levels that were
pending then are served from the highest to the lowest, and a level that nobody serves is masked.
`Machine` puts devices, requests and interrupts together. The handlers of the firmware serve their
devices and leave the chains and the mask alone, and so do those of `Handlers`.
-/

namespace BcmMruby.Irq.Dispatch

open Core

/-- What the code of the handlers does to the devices. -/
structure Handlers (W : Type) where
  /-- An `ip_handler_t` is called with its level. -/
  ip : ℕ → ℕ → W → W
  /-- A handler of a chain is called with its argument. -/
  action : ℕ → ℕ → W → W

structure Cpu (W : Type) where
  world : W
  irq : State
  /-- `ip_handler`. -/
  ipHandler : ℕ → Option ℕ

variable {W : Type}

def updateSr (s : State) (clear set : BitVec 32) : State :=
  { s with sr := (s.sr &&& ~~~clear) ||| set }

def dispatchIrqs (H : Handlers W) (actions : List Action) (w : W) : W :=
  actions.foldl (fun w a => H.action a.handler a.arg w) w

/-- One turn of the loop in `bcmcore_irq_demux`. -/
def demuxLevel (H : Handlers W) (pending mask : BitVec 32) (i : ℕ) (c : Cpu W) : Cpu W :=
  if pending &&& mask ≠ 0 then
    match c.ipHandler i with
    | some h => { c with world := H.ip h i c.world }
    | none =>
      if (c.irq.desc i).actions ≠ [] then
        { c with world := dispatchIrqs H (c.irq.desc i).actions c.world }
      else { c with irq := updateSr c.irq mask 0 }
  else c

/-- The loop, with the levels below `n` to come. -/
def demuxLoop (H : Handlers W) (pending : BitVec 32) : ℕ → BitVec 32 → Cpu W → Cpu W
  | 0, _, c => c
  | n + 1, mask, c => demuxLoop H pending n (mask >>> 1) (demuxLevel H pending mask n c)

def bcmcoreDispatchPending (H : Handlers W) (pending : BitVec 32) (c : Cpu W) : Cpu W :=
  demuxLoop H pending ipLevels (imBit (ipLevels - 1)) c

/-- `info[XCP0_CAUSE]` and `info[XCP0_SR]` are what the registers were. -/
def bcmcoreIrqDemux (H : Handlers W) (cause sr : BitVec 32) (c : Cpu W) : Cpu W :=
  bcmcoreDispatchPending H (cause &&& sr) c

def cfeIrqSetvector (c : Cpu W) (index : ℤ) (handler : Option ℕ) : Cpu W :=
  if 0 ≤ index ∧ index < ipLevels then
    let (sr, s) := irqDisable c.irq
    let sr := match handler with
      | none => sr &&& ~~~imBit index.toNat
      | some _ => sr ||| imBit index.toNat
    { c with
      irq := irqEnable s sr
      ipHandler := Function.update c.ipHandler index.toNat handler }
  else c

/-! ### What the loop does -/

/-- Somebody serves the level. -/
def Cpu.Handled (c : Cpu W) (l : ℕ) : Prop := c.ipHandler l ≠ none ∨ (c.irq.desc l).actions ≠ []

instance (c : Cpu W) (l : ℕ) : Decidable (c.Handled l) :=
  inferInstanceAs (Decidable (c.ipHandler l ≠ none ∨ (c.irq.desc l).actions ≠ []))

/-- An `ip_handler_t` has the level to itself. -/
def Cpu.serve (H : Handlers W) (c : Cpu W) (l : ℕ) (w : W) : W :=
  match c.ipHandler l with
  | some h => H.ip h l w
  | none => dispatchIrqs H (c.irq.desc l).actions w

/-- The levels below `n` that are served, in this order. -/
def Cpu.served (c : Cpu W) (pending : BitVec 32) (n : ℕ) : List ℕ :=
  (List.range n).reverse.filter fun l => pending.getLsbD (8 + l) ∧ c.Handled l

lemma imBit_shift {n : ℕ} (hn : n + 1 < ipLevels) : imBit (n + 1) >>> 1 = imBit n := by
  have hall : ∀ n < 7, imBit (n + 1) >>> 1 = imBit n := by decide
  have hn' : n + 1 < 8 := hn
  exact hall n (by omega)

lemma and_imBit_ne_zero {l : ℕ} (pending : BitVec 32) :
    pending &&& imBit l ≠ 0 ↔ 8 + l < 32 ∧ pending.getLsbD (8 + l) = true := by
  rw [imBit, BitVec.and_twoPow]
  by_cases h : 8 + l < 32
  · have hne : BitVec.twoPow 32 (8 + l) ≠ 0 := by
      intro hzero
      have hbit := congrArg (·.getLsbD (8 + l)) hzero
      simp [h] at hbit
    cases hp : pending.getLsbD (8 + l)
    · simp
    · simpa [h] using hne
  · have hp : pending.getLsbD (8 + l) = false := BitVec.getLsbD_of_ge _ _ (by omega)
    simp [hp]

lemma getLsbD_updateSr {l b : ℕ} (hl : l < ipLevels) (s : State) :
    (updateSr s (imBit l) 0).sr.getLsbD b = (s.sr.getLsbD b && decide (b ≠ 8 + l)) := by
  have hl' : l < 8 := hl
  have hor : (updateSr s (imBit l) 0).sr = s.sr &&& ~~~imBit l := BitVec.or_zero
  rw [hor, BitVec.getLsbD_and, BitVec.getLsbD_not, imBit, BitVec.getLsbD_twoPow]
  by_cases hb : b < 32
  · by_cases h : b = 8 + l
    · have h32 : 8 + l < 32 := by omega
      simp [h, h32]
    · have h' : 8 + l ≠ b := fun e => h e.symm
      simp [h, h', hb]
  · have hs : s.sr.getLsbD b = false := BitVec.getLsbD_of_ge _ _ (by omega)
    simp [hs]

/-- The levels below `n` are served, and those among them that nobody serves are masked. -/
structure Dispatched (H : Handlers W) (pending : BitVec 32) (n : ℕ) (c c' : Cpu W) : Prop where
  world : c'.world = (c.served pending n).foldl (fun w l => c.serve H l w) c.world
  desc : c'.irq.desc = c.irq.desc
  ipHandler : c'.ipHandler = c.ipHandler
  sr : ∀ b, c'.irq.sr.getLsbD b = true ↔ c.irq.sr.getLsbD b = true ∧
    ∀ l < n, b = 8 + l → pending.getLsbD b = true → c.Handled l

section

variable {H : Handlers W} {pending : BitVec 32} {n : ℕ} {c : Cpu W}

lemma demuxLevel_of_not_pending (hp : pending.getLsbD (8 + n) = false) :
    demuxLevel H pending (imBit n) n c = c := by
  have hmask : ¬ pending &&& imBit n ≠ 0 := by
    rw [and_imBit_ne_zero, hp]
    simp
  rw [demuxLevel, if_neg hmask]

lemma demuxLevel_of_handled (hn : n < ipLevels) (hp : pending.getLsbD (8 + n) = true)
    (hc : c.Handled n) :
    demuxLevel H pending (imBit n) n c = { c with world := c.serve H n c.world } := by
  have hn' : n < 8 := hn
  rw [demuxLevel, if_pos ((and_imBit_ne_zero pending).mpr ⟨by omega, hp⟩), Cpu.serve]
  cases hip : c.ipHandler n with
  | some h => rfl
  | none =>
    have hactions : (c.irq.desc n).actions ≠ [] := hc.resolve_left (not_not.mpr hip)
    simp only [if_pos hactions]

lemma demuxLevel_of_not_handled (hn : n < ipLevels) (hp : pending.getLsbD (8 + n) = true)
    (hc : ¬ c.Handled n) :
    demuxLevel H pending (imBit n) n c = { c with irq := updateSr c.irq (imBit n) 0 } := by
  have hn' : n < 8 := hn
  obtain ⟨hip, hactions⟩ := not_or.mp hc
  rw [demuxLevel, if_pos ((and_imBit_ne_zero pending).mpr ⟨by omega, hp⟩), not_not.mp hip]
  simp only [if_neg hactions]

lemma served_succ (c : Cpu W) (pending : BitVec 32) (n : ℕ) :
    c.served pending (n + 1) =
      if pending.getLsbD (8 + n) ∧ c.Handled n then n :: c.served pending n
      else c.served pending n := by
  rw [Cpu.served, List.range_succ, List.reverse_append, List.reverse_singleton,
    List.singleton_append, List.filter_cons]
  simp only [decide_eq_true_eq]
  rfl

lemma handled_congr {c₁ : Cpu W} (hdesc : c₁.irq.desc = c.irq.desc)
    (hip : c₁.ipHandler = c.ipHandler) : c₁.Handled = c.Handled := by
  funext l
  rw [Cpu.Handled, Cpu.Handled, hdesc, hip]

lemma serve_congr {c₁ : Cpu W} (hdesc : c₁.irq.desc = c.irq.desc)
    (hip : c₁.ipHandler = c.ipHandler) : c₁.serve H = c.serve H := by
  funext l w
  rw [Cpu.serve, Cpu.serve, hdesc, hip]

lemma served_congr {c₁ : Cpu W} (hdesc : c₁.irq.desc = c.irq.desc)
    (hip : c₁.ipHandler = c.ipHandler) : c₁.served pending n = c.served pending n := by
  simp only [Cpu.served, handled_congr hdesc hip]

/-- One turn, as far as the chains, the handlers and the mask go. -/
lemma demuxLevel_keeps (hn : n < ipLevels) (c : Cpu W) :
    (demuxLevel H pending (imBit n) n c).irq.desc = c.irq.desc ∧
      (demuxLevel H pending (imBit n) n c).ipHandler = c.ipHandler ∧
      ∀ b, (demuxLevel H pending (imBit n) n c).irq.sr.getLsbD b = true ↔
        c.irq.sr.getLsbD b = true ∧
          (b = 8 + n → pending.getLsbD b = true → c.Handled n) := by
  cases hp : pending.getLsbD (8 + n) with
  | false =>
    rw [demuxLevel_of_not_pending hp]
    refine ⟨rfl, rfl, fun b => (and_iff_left ?_).symm⟩
    rintro rfl hb
    rw [hp] at hb
    cases hb
  | true =>
    by_cases hc : c.Handled n
    · rw [demuxLevel_of_handled hn hp hc]
      exact ⟨rfl, rfl, fun b => (and_iff_left fun _ _ => hc).symm⟩
    · rw [demuxLevel_of_not_handled hn hp hc]
      refine ⟨rfl, rfl, fun b => ?_⟩
      rw [getLsbD_updateSr hn, Bool.and_eq_true, decide_eq_true_eq]
      refine and_congr_right fun _ => ⟨fun hne heq _ => absurd heq hne, fun h heq => ?_⟩
      exact hc (h heq (heq ▸ hp))

/-- By induction on the levels that are left; a turn changes neither the chains nor the handlers. -/
lemma demuxLoop_dispatched (H : Handlers W) (pending : BitVec 32) (hn : n ≤ ipLevels) (c : Cpu W) :
    Dispatched H pending n c (demuxLoop H pending n (imBit (n - 1)) c) := by
  induction n generalizing c with
  | zero => exact ⟨rfl, rfl, rfl, fun b => by simp [demuxLoop]⟩
  | succ n ih =>
    obtain ⟨hdesc, hip, hsr⟩ : (demuxLevel H pending (imBit n) n c).irq.desc = c.irq.desc ∧ _ :=
      demuxLevel_keeps hn c
    set c₁ := demuxLevel H pending (imBit n) n c
    have hloop : demuxLoop H pending (n + 1) (imBit (n + 1 - 1)) c =
        demuxLoop H pending n (imBit (n - 1)) c₁ := by
      cases n with
      | zero => rfl
      | succ k => rw [Nat.add_sub_cancel, demuxLoop, imBit_shift hn, Nat.add_sub_cancel]
    rw [hloop]
    obtain ⟨hworld, hdesc', hip', hsr'⟩ := ih (Nat.le_of_succ_le hn) c₁
    refine ⟨?_, hdesc'.trans hdesc, hip'.trans hip, ?_⟩
    · rw [hworld, served_congr hdesc hip, serve_congr hdesc hip, served_succ]
      cases hp : pending.getLsbD (8 + n) with
      | false =>
        rw [show c₁ = c from demuxLevel_of_not_pending hp]
        simp
      | true =>
        by_cases hc : c.Handled n
        · rw [show c₁ = _ from demuxLevel_of_handled hn hp hc]
          simp [hc]
        · rw [show c₁ = _ from demuxLevel_of_not_handled hn hp hc]
          simp [hc]
    · intro b
      rw [hsr', hsr, handled_congr hdesc hip, Nat.forall_lt_succ_right, and_assoc,
        and_comm (a := b = 8 + n → _)]

/-- What an interrupt does. -/
lemma bcmcoreDispatchPending_dispatched (H : Handlers W) (pending : BitVec 32) (c : Cpu W) :
    Dispatched H pending ipLevels c (bcmcoreDispatchPending H pending c) :=
  demuxLoop_dispatched H pending le_rfl c

end

/-! ### Interrupts in a run -/

structure Machine (W : Type) where
  cpu : Cpu W
  /-- The interrupts taken so far, with the processor before and after. -/
  taken : List (Cpu W × Cpu W)

inductive Event (W : Type) where
  | device (w : W)
  | request (r : Request) (alloc : Bool)
  | free (irq : BitVec 32) (device : ℤ)
  | enable (irq : BitVec 32)
  | disable (irq : BitVec 32)
  | setvector (index : ℤ) (handler : Option ℕ)
  | interrupt

/-- The interrupt bits of the cause register, and what the handlers do. -/
structure Board (W : Type) where
  chip : Chip
  cause : W → BitVec 32
  handlers : Handlers W

/-- The level is pending and not masked. -/
def Board.Raised (B : Board W) (c : Cpu W) (l : ℕ) : Prop :=
  (B.cause c.world &&& c.irq.sr).getLsbD (8 + l) = true

instance (B : Board W) (c : Cpu W) (l : ℕ) : Decidable (B.Raised c l) :=
  inferInstanceAs (Decidable (_ = true))

/-- An interrupt is taken when they are enabled and a level is pending that is not masked. -/
def step (B : Board W) (m : Machine W) : Event W → Option (Machine W)
  | .device w => some { m with cpu := { m.cpu with world := w } }
  | .request r alloc =>
    some { m with cpu := { m.cpu with irq := (cfeRequestIrq B.chip m.cpu.irq r alloc).2 } }
  | .free irq device =>
    some { m with cpu := { m.cpu with irq := cfeFreeIrq B.chip m.cpu.irq irq device } }
  | .enable irq => some { m with cpu := { m.cpu with irq := cfeEnableIrq B.chip m.cpu.irq irq } }
  | .disable irq => some { m with cpu := { m.cpu with irq := cfeDisableIrq B.chip m.cpu.irq irq } }
  | .setvector index handler => some { m with cpu := cfeIrqSetvector m.cpu index handler }
  | .interrupt =>
    if m.cpu.irq.sr.getLsbD 0 ∧ ∃ l < ipLevels, B.Raised m.cpu l then
      let c := bcmcoreIrqDemux B.handlers (B.cause m.cpu.world) m.cpu.irq.sr m.cpu
      some ⟨c, (m.cpu, c) :: m.taken⟩
    else none

/-- As `cfe_irq_init` leaves it. -/
def start (sr : BitVec 32) (w : W) : Machine W := ⟨⟨w, cfeIrqInit sr, fun _ => none⟩, []⟩

/-- The levels that were raised have been served, from the highest to the lowest, and none of them
or of the others is raised any more; nothing was masked. -/
structure Settled (B : Board W) (c c' : Cpu W) : Prop where
  world : c'.world = ((List.range ipLevels).reverse.filter fun l => B.Raised c l).foldl
    (fun w l => c.serve B.handlers l w) c.world
  irq : ∀ l < ipLevels, c'.irq.level l = c.irq.level l
  quiet : ∀ l < ipLevels, ¬ B.Raised c' l

structure Served (B : Board W) (m : Machine W) : Prop where
  handled : ∀ l < ipLevels, (m.cpu.irq.level l).unmasked = true → m.cpu.Handled l
  settled : ∀ t ∈ m.taken, Settled B t.1 t.2

/-- Serving the level takes its request back and raises no other. -/
def Quiets (B : Board W) (c : Cpu W) (l : ℕ) : Prop :=
  ∀ w, ∀ k < ipLevels, (B.cause (c.serve B.handlers l w)).getLsbD (8 + k) = true →
    k ≠ l ∧ (B.cause w).getLsbD (8 + k) = true

/-- A level is not enabled unless somebody serves it, and the handlers serve their devices. -/
def Allowed (B : Board W) (m : Machine W) : Event W → Prop
  | .enable irq => mapIrq B.chip irq < ipLevels → m.cpu.Handled (mapIrq B.chip irq)
  | .interrupt => ∀ l < ipLevels, B.Raised m.cpu l → Quiets B m.cpu l
  | _ => True

lemma raised_iff {B : Board W} {c : Cpu W} {l : ℕ} :
    B.Raised c l ↔ (B.cause c.world).getLsbD (8 + l) = true ∧ (c.irq.level l).unmasked = true := by
  rw [Board.Raised, BitVec.getLsbD_and, Bool.and_eq_true, State.level]

/-- What remains after serving some levels in a row. -/
lemma cause_foldl_serve {B : Board W} {c : Cpu W} {ls : List ℕ} (hls : ∀ l ∈ ls, Quiets B c l)
    {w : W} {k : ℕ} (hk : k < ipLevels)
    (h : (B.cause (ls.foldl (fun w l => c.serve B.handlers l w) w)).getLsbD (8 + k) = true) :
    k ∉ ls ∧ (B.cause w).getLsbD (8 + k) = true := by
  induction ls generalizing w with
  | nil => exact ⟨List.not_mem_nil, h⟩
  | cons l ls ih =>
    obtain ⟨hl, hls'⟩ := List.forall_mem_cons.mp hls
    obtain ⟨hnot, hcause⟩ := ih hls' h
    obtain ⟨hne, hcause'⟩ := hl w k hk hcause
    exact ⟨by simp [hne, hnot], hcause'⟩

lemma settled_of_interrupt {B : Board W} {c : Cpu W}
    (hhandled : ∀ l < ipLevels, (c.irq.level l).unmasked = true → c.Handled l)
    (hquiets : ∀ l < ipLevels, B.Raised c l → Quiets B c l) :
    Settled B c (bcmcoreIrqDemux B.handlers (B.cause c.world) c.irq.sr c) := by
  rw [bcmcoreIrqDemux]
  obtain ⟨hworld, hdesc, hip, hsr⟩ :=
    bcmcoreDispatchPending_dispatched B.handlers (B.cause c.world &&& c.irq.sr) c
  set c' := bcmcoreDispatchPending B.handlers (B.cause c.world &&& c.irq.sr) c
  have hraised : ∀ l < ipLevels, (B.cause c.world &&& c.irq.sr).getLsbD (8 + l) = true →
      c.Handled l := fun l hl h => hhandled l hl (raised_iff.mp h).2
  have hserved : c.served (B.cause c.world &&& c.irq.sr) ipLevels =
      (List.range ipLevels).reverse.filter fun l => B.Raised c l := by
    refine List.filter_congr fun l hl => ?_
    rw [List.mem_reverse, List.mem_range] at hl
    exact decide_eq_decide.mpr (and_iff_left_of_imp (hraised l hl))
  rw [hserved] at hworld
  have hlevel : ∀ l < ipLevels, c'.irq.level l = c.irq.level l := by
    intro l hl
    have hbit : c'.irq.sr.getLsbD (8 + l) = c.irq.sr.getLsbD (8 + l) := by
      rw [Bool.eq_iff_iff, hsr]
      refine and_iff_left_of_imp fun _ k _ hk hpending => ?_
      obtain rfl : l = k := by omega
      exact hraised l hl hpending
    rw [State.level, State.level, hbit, hdesc]
  refine ⟨hworld, hlevel, ?_⟩
  intro l hl h
  obtain ⟨hcause, hunmasked⟩ := raised_iff.mp h
  rw [hworld] at hcause
  obtain ⟨hnot, hbefore⟩ := cause_foldl_serve (fun k hk => by
    obtain ⟨hk, hraised⟩ := List.mem_filter.mp hk
    rw [List.mem_reverse, List.mem_range] at hk
    exact hquiets k hk (of_decide_eq_true hraised)) hl hcause
  rw [hlevel l hl] at hunmasked
  refine hnot (List.mem_filter.mpr ⟨?_, decide_eq_true (raised_iff.mpr ⟨hbefore, hunmasked⟩)⟩)
  rwa [List.mem_reverse, List.mem_range]

lemma handled_iff {c : Cpu W} {l : ℕ} :
    c.Handled l ↔ c.ipHandler l ≠ none ∨ (c.irq.level l).actions ≠ [] := Iff.rfl

/-- What `cfe_irq_setvector` does to a level. -/
lemma level_cfeIrqSetvector {l : ℕ} (hl : l < ipLevels) (c : Cpu W) (index : ℤ)
    (handler : Option ℕ) :
    (cfeIrqSetvector c index handler).irq.level l =
        (if (l : ℤ) = index then { c.irq.level l with unmasked := handler.isSome }
          else c.irq.level l) ∧
      (cfeIrqSetvector c index handler).ipHandler l =
        if (l : ℤ) = index then handler else c.ipHandler l := by
  rw [cfeIrqSetvector]
  by_cases hindex : 0 ≤ index ∧ index < ipLevels
  swap
  · have hne : (l : ℤ) ≠ index := by
      rintro rfl
      exact hindex ⟨Int.natCast_nonneg l, Int.ofNat_lt.mpr hl⟩
    rw [if_neg hindex, if_neg hne, if_neg hne]
    exact ⟨rfl, rfl⟩
  obtain ⟨i, rfl⟩ := Int.eq_ofNat_of_zero_le hindex.1
  have hset : ∀ mask : BitVec 32, (irqEnable (irqDisable c.irq).2 mask).level l =
      { c.irq.level l with unmasked := mask.getLsbD (8 + l) } := by
    intro mask
    rw [State.level, getLsbD_irqEnable hl]
    rfl
  rw [if_pos hindex]
  simp only [hset, Int.toNat_natCast, Function.update_apply, Int.natCast_inj, and_true]
  cases handler with
  | none =>
    rw [getLsbD_and_not_imBit hl, getLsbD_irqDisable hl]
    by_cases h : l = i
    · simp [h]
    · have hne : i ≠ l := fun e => h e.symm
      simp [h, hne, State.level]
  | some handler =>
    rw [getLsbD_or_imBit hl, getLsbD_irqDisable hl]
    by_cases h : l = i
    · simp [h]
    · have hne : i ≠ l := fun e => h e.symm
      simp [h, hne, State.level]

/-- Every level that is not masked is served by somebody. -/
def AllHandled (c : Cpu W) : Prop :=
  ∀ l < ipLevels, (c.irq.level l).unmasked = true → c.Handled l

section

variable {B : Board W} {c : Cpu W}

/-- A change of one level that leaves the vectors alone. -/
lemma AllHandled.update (h : AllHandled c) (s : State) (level : ℕ) (v : Level)
    (hlevel : ∀ l < ipLevels, s.level l = if l = level then v else c.irq.level l)
    (hv : level < ipLevels → v.unmasked = true → c.ipHandler level ≠ none ∨ v.actions ≠ []) :
    AllHandled { c with irq := s } := by
  intro l hl hunmasked
  rw [handled_iff]
  simp only [hlevel l hl] at hunmasked ⊢
  by_cases heq : l = level
  · subst heq
    rw [if_pos rfl] at hunmasked ⊢
    exact hv hl hunmasked
  · rw [if_neg heq] at hunmasked ⊢
    exact h l hl hunmasked

lemma AllHandled.request (h : AllHandled c) (chip : Chip) (r : Request) (alloc : Bool) :
    AllHandled { c with irq := (cfeRequestIrq chip c.irq r alloc).2 } := by
  have hrule := RequestRule.of_cfeRequestIrq chip c.irq r alloc
  generalize (cfeRequestIrq chip c.irq r alloc).2 = s at hrule ⊢
  cases hrule with
  | refused => exact h
  | installed _ action hlevel =>
    intro l hl hunmasked
    rw [handled_iff]
    simp only [hlevel l hl] at hunmasked ⊢
    by_cases heq : l = mapIrq chip r.irq
    · rw [if_pos heq]
      right
      rw [Level.install]
      split_ifs <;> simp [Level.enable]
    · rw [if_neg heq] at hunmasked ⊢
      exact h l hl hunmasked
  | conflict _ hactions hlevel =>
    intro l hl hunmasked
    rw [handled_iff]
    simp only [hlevel l hl] at hunmasked ⊢
    by_cases heq : l = mapIrq chip r.irq
    · subst heq
      rw [if_pos rfl]
      exact .inr hactions
    · rw [if_neg heq] at hunmasked
      cases hunmasked

lemma AllHandled.free (h : AllHandled c) (chip : Chip) (irq : BitVec 32) (device : ℤ) :
    AllHandled { c with irq := cfeFreeIrq chip c.irq irq device } := by
  refine h.update _ (mapIrq chip irq) ((c.irq.level (mapIrq chip irq)).free device) ?_ ?_
  · intro l hl
    rw [level_cfeFreeIrq hl]
    by_cases heq : l = mapIrq chip irq
    · subst heq
      rw [if_pos rfl]
    · rw [if_neg heq, if_neg heq]
  · intro hl hunmasked
    rw [Level.free] at hunmasked ⊢
    by_cases hlast : (c.irq.level (mapIrq chip irq)).actions ≠ [] ∧
        (c.irq.level (mapIrq chip irq)).actions.eraseP (·.device = device) = []
    · rw [if_pos hlast] at hunmasked
      cases hunmasked
    · rw [if_neg hlast] at hunmasked ⊢
      exact (h _ hl hunmasked).imp_right fun hactions hnil => hlast ⟨hactions, hnil⟩

lemma AllHandled.enable (h : AllHandled c) (chip : Chip) (irq : BitVec 32)
    (hc : mapIrq chip irq < ipLevels → c.Handled (mapIrq chip irq)) :
    AllHandled { c with irq := cfeEnableIrq chip c.irq irq } := by
  refine h.update _ (mapIrq chip irq) (c.irq.level (mapIrq chip irq)).enable ?_ fun hl _ => hc hl
  intro l hl
  rw [level_cfeEnableIrq hl]
  by_cases heq : l = mapIrq chip irq
  · subst heq
    rw [if_pos rfl]
  · rw [if_neg heq, if_neg heq]

lemma AllHandled.disable (h : AllHandled c) (chip : Chip) (irq : BitVec 32) :
    AllHandled { c with irq := cfeDisableIrq chip c.irq irq } := by
  refine h.update _ (mapIrq chip irq) (c.irq.level (mapIrq chip irq)).disable ?_ ?_
  · intro l hl
    rw [level_cfeDisableIrq hl]
    by_cases heq : l = mapIrq chip irq
    · subst heq
      rw [if_pos rfl]
    · rw [if_neg heq, if_neg heq]
  · intro hl hunmasked
    exact h _ hl (Bool.and_eq_true_iff.mp hunmasked).1

lemma AllHandled.setvector (h : AllHandled c) (index : ℤ) (handler : Option ℕ) :
    AllHandled (cfeIrqSetvector c index handler) := by
  intro l hl hunmasked
  obtain ⟨hlevel, hip⟩ := level_cfeIrqSetvector hl c index handler
  rw [handled_iff]
  rw [hlevel] at hunmasked ⊢
  rw [hip]
  by_cases heq : (l : ℤ) = index
  · rw [if_pos heq] at hunmasked ⊢
    exact .inl (Option.isSome_iff_ne_none.mp hunmasked)
  · rw [if_neg heq] at hunmasked ⊢
    rw [if_neg heq]
    exact h l hl hunmasked

lemma step_served {m m' : Machine W} {e : Event W} (h : Served B m)
    (hG : Allowed B m e) (hs : step B m e = some m') : Served B m' := by
  cases e with
  | device w => cases hs; exact ⟨h.handled, h.settled⟩
  | request r alloc => cases hs; exact ⟨AllHandled.request h.handled B.chip r alloc, h.settled⟩
  | free irq device => cases hs; exact ⟨AllHandled.free h.handled B.chip irq device, h.settled⟩
  | enable irq => cases hs; exact ⟨AllHandled.enable h.handled B.chip irq hG, h.settled⟩
  | disable irq => cases hs; exact ⟨AllHandled.disable h.handled B.chip irq, h.settled⟩
  | setvector index handler =>
    cases hs
    exact ⟨AllHandled.setvector h.handled index handler, h.settled⟩
  | interrupt =>
    rw [step] at hs
    split_ifs at hs
    cases hs
    have hsettled := settled_of_interrupt h.handled hG
    have hdispatched := bcmcoreDispatchPending_dispatched B.handlers
      (B.cause m.cpu.world &&& m.cpu.irq.sr) m.cpu
    refine ⟨?_, List.forall_mem_cons.mpr ⟨hsettled, h.settled⟩⟩
    intro l hl hunmasked
    rw [hsettled.irq l hl] at hunmasked
    rw [Cpu.Handled, bcmcoreIrqDemux, hdispatched.desc, hdispatched.ipHandler]
    exact h.handled l hl hunmasked

end

lemma served_start (B : Board W) (sr : BitVec 32) (w : W) : Served B (start sr w) := by
  refine ⟨?_, fun t ht => absurd ht List.not_mem_nil⟩
  intro l hl hunmasked
  have hmasked : ((cfeIrqInit sr).level l).unmasked = false := by
    have hzero : (1 : BitVec 32).getLsbD (8 + l) = false := by
      have hall : ∀ l < ipLevels, (1 : BitVec 32).getLsbD (8 + l) = false := by decide
      exact hall l hl
    have hmask : (0x1ff00 : BitVec 32).getLsbD (8 + l) = true := by
      have hall : ∀ l < ipLevels, (0x1ff00 : BitVec 32).getLsbD (8 + l) = true := by decide
      exact hall l hl
    simp only [State.level, cfeIrqInit, BitVec.getLsbD_or, BitVec.getLsbD_and, BitVec.getLsbD_not,
      hzero, hmask, Bool.not_true, Bool.and_false, Bool.or_false]
  rw [show ((start sr w).cpu.irq.level l).unmasked = false from hmasked] at hunmasked
  cases hunmasked

/-- In every run in which levels are enabled only for a handler, and the handlers serve their
devices, an interrupt serves the levels that raised it, from the highest to the lowest, and leaves
no level raised and the mask as it was: the firmware never takes two interrupts in a row without a
device or the main program in between. -/
theorem interrupts_settle (B : Board W) (sr : BitVec 32) (w : W) (es : List (Event W))
    (hG : Throughout (step B) (Allowed B) (start sr w) es) :
    Always (step B) (Served B) (start sr w) es :=
  always_of_throughout (fun _ _ _ h hG hs => step_served h hG hs) (fun _ h => h)
    (served_start B sr w) hG

/-- The lines are the world; a handler takes back the line that its argument names. -/
def linesBoard : Board (BitVec 32) where
  chip := ⟨true, 0⟩
  cause := id
  handlers := ⟨fun _ l w => w &&& ~~~imBit l, fun _ arg w => w &&& ~~~imBit arg⟩

lemma quiets_linesBoard {c : Cpu (BitVec 32)} {l : ℕ}
    (hc : ∀ w, c.serve linesBoard.handlers l w = w &&& ~~~imBit l) : Quiets linesBoard c l := by
  intro w k hk h
  rw [hc] at h
  have hbit := getLsbD_and_not_imBit hk w l
  rw [show (w &&& ~~~imBit l).getLsbD (8 + k) = true from h, eq_comm, Bool.and_eq_true,
    decide_eq_true_eq] at hbit
  exact ⟨fun e => hbit.2 e.symm, hbit.1⟩

/-- A handler on level 7, and an interrupt there. -/
theorem interrupts_settle_line :
    Always (step linesBoard) (Served linesBoard) (start 0 0)
      [.request ⟨5, some 1, 7, irqFlagsShared, 0⟩ true, .device (imBit 7), .interrupt] := by
  refine interrupts_settle linesBoard 0 0 _ ?_
  refine (throughout_cons_of_step rfl).mpr ⟨trivial, (throughout_cons_of_step rfl).mpr
    ⟨trivial, fun m hm => ⟨?_, trivial⟩⟩⟩
  intro l hl hraised
  obtain rfl : l = 7 := by
    have hall : ∀ l < ipLevels, (imBit 7).getLsbD (8 + l) = true → l = 7 := by decide
    exact hall l hl (raised_iff.mp hraised).1
  exact quiets_linesBoard fun w => rfl

/-! ### Levels that nobody serves -/

/-- The event does not unmask the level. -/
def Leaves (B : Board W) (l : ℕ) : Event W → Prop
  | .request r _ => mapIrq B.chip r.irq ≠ l
  | .enable irq => mapIrq B.chip irq ≠ l
  | .setvector index handler => index ≠ l ∨ handler = none
  | _ => True

lemma step_masked {B : Board W} {m m' : Machine W} {e : Event W} {l : ℕ} (hl : l < ipLevels)
    (h : (m.cpu.irq.level l).unmasked = false) (hG : Leaves B l e) (hs : step B m e = some m') :
    (m'.cpu.irq.level l).unmasked = false := by
  cases e with
  | device w => cases hs; exact h
  | request r alloc =>
    cases hs
    have hrule := RequestRule.of_cfeRequestIrq B.chip m.cpu.irq r alloc
    have hne : l ≠ mapIrq B.chip r.irq := fun e => hG e.symm
    generalize (cfeRequestIrq B.chip m.cpu.irq r alloc).2 = s at hrule ⊢
    cases hrule with
    | refused => exact h
    | installed _ action hlevel => rwa [hlevel l hl, if_neg hne]
    | conflict _ hactions hlevel => rw [hlevel l hl, if_neg hne]
  | free irq device =>
    cases hs
    rw [level_cfeFreeIrq hl]
    split_ifs with heq
    · rw [Level.free]
      split_ifs
      · rfl
      · exact h
    · exact h
  | enable irq =>
    cases hs
    rwa [level_cfeEnableIrq hl, if_neg fun e => hG e.symm]
  | disable irq =>
    cases hs
    rw [level_cfeDisableIrq hl]
    split_ifs with heq
    · rw [Level.disable, h, Bool.false_and]
    · exact h
  | setvector index handler =>
    cases hs
    rw [(level_cfeIrqSetvector hl m.cpu index handler).1]
    split_ifs with heq
    · rw [hG.resolve_left fun hne => hne heq.symm]
      rfl
    · exact h
  | interrupt =>
    rw [step] at hs
    split_ifs at hs
    cases hs
    have hdispatched := bcmcoreDispatchPending_dispatched B.handlers
      (B.cause m.cpu.world &&& m.cpu.irq.sr) m.cpu
    rw [← Bool.not_eq_true] at h ⊢
    exact fun hunmasked => h ((hdispatched.sr (8 + l)).mp hunmasked).1

/-- A level that nobody serves raises one interrupt: that masks it, whatever the other handlers do,
until it is requested, enabled or given a vector again. -/
theorem orphan_masked (B : Board W) {m m' : Machine W} {l : ℕ} (hl : l < ipLevels)
    (hraised : B.Raised m.cpu l) (horphan : ¬ m.cpu.Handled l)
    (hs : step B m .interrupt = some m') {es : List (Event W)} (hes : ∀ e ∈ es, Leaves B l e)
    {t : Machine W} (hrun : run (step B) m' es = some t) :
    Always (step B) (fun m => ¬ B.Raised m.cpu l) m' es := by
  have hmasked : (m'.cpu.irq.level l).unmasked = false := by
    rw [step] at hs
    split_ifs at hs
    cases hs
    have hdispatched := bcmcoreDispatchPending_dispatched B.handlers
      (B.cause m.cpu.world &&& m.cpu.irq.sr) m.cpu
    rw [← Bool.not_eq_true]
    exact fun hunmasked => horphan (((hdispatched.sr (8 + l)).mp hunmasked).2 l hl rfl hraised)
  refine always_of_throughout (fun _ _ _ h hG hs => step_masked hl h hG hs) (fun m h => ?_) hmasked
    ((throughout_iff_forall_mem hrun).mpr hes)
  rw [raised_iff, h]
  simp

/-- Level 3 is pending and not masked, and has no handler. -/
def orphaned : Machine (BitVec 32) where
  cpu := ⟨imBit 3, ⟨imBit 3 ||| 1, fun _ => ⟨[], 0, true⟩⟩, fun _ => none⟩
  taken := []

theorem orphan_masked_line : ∃ m', step linesBoard orphaned .interrupt = some m' ∧
    Always (step linesBoard) (fun m => ¬ linesBoard.Raised m.cpu 3) m' [.device (imBit 3)] :=
  ⟨_, rfl, orphan_masked linesBoard (m := orphaned) (by decide) (by decide) (by decide) rfl
    (by simp [Leaves]) rfl⟩

end BcmMruby.Irq.Dispatch
