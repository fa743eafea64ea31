import BcmMruby.Core.Run
import BcmMruby.I2c.Basic

/-!
# Framing

START and STOP are the changes of SDA while SCL is high. `At` says what the master drives between
two accesses; each function of `i2c.c` is followed from one such state to the next, as long as the
slave changes SDA only while SCL is low.
-/

namespace BcmMruby.I2c

open Core

/-- Not a change of SDA while SCL is high. -/
def Edge.quiet : Edge → Bool
  | .sclRise _ | .sclFall _ | .data _ => true
  | .start | .stop | .both => false

/-- START first and STOP last, each if it is due, and SDA does not change while SCL is high
otherwise. -/
def Framed (start stop : Bool) (es : List Edge) : Prop :=
  ∃ mid, es = (if start then [.start] else []) ++ mid ++ (if stop then [.stop] else []) ∧
    ∀ e ∈ mid, e.quiet = true

/-! ### Runs -/

structure Record where
  start : Bool
  stop : Bool
  edges : List Edge

structure Machine where
  bus : Bus
  calls : List Record
  /-- An `i2c_read` still waits for the slave. -/
  waiting : Bool

inductive Call where
  | write (ch : BitVec 8) (start stop : ℤ) (schedule : ℕ → List Outside)
  | read (stop : ℤ) (polls : ℕ) (schedule : ℕ → List Outside)

def Bus.begin (s : Bus) (schedule : ℕ → List Outside) : Bus :=
  { s with schedule := schedule, accesses := 0, rude := false, edges := [] }

variable (pins : Pins)

def step (m : Machine) (call : Call) : Option Machine :=
  if m.waiting then none
  else match call with
    | .write ch start stop schedule =>
      let r := i2cWrite pins ch start stop (m.bus.begin schedule)
      some { m with
        bus := r.2
        calls := ⟨start ≠ 0, stop ≠ 0 ∨ r.1 = false, r.2.edges⟩ :: m.calls }
    | .read stop polls schedule =>
      let r := i2cRead pins stop polls (m.bus.begin schedule)
      some {
        bus := r.2
        calls := ⟨false, stop ≠ 0 ∧ r.1 ≠ none, r.2.edges⟩ :: m.calls
        waiting := r.1 = none }

/-- The machine after `i2c_init`. -/
def init (s : Bus) (schedule : ℕ → List Outside) : Machine :=
  let s := i2cInit pins (s.begin schedule)
  ⟨s, [⟨false, false, s.edges⟩], false⟩

/-- Every call so far has its START and its STOP, and SDA has changed at no other moment while SCL
was high. -/
def Sound (m : Machine) : Prop := ∀ r ∈ m.calls, Framed r.start r.stop r.edges

/-- The last bit of what is written is set, START is due only while SCL is high, `i2c_read` is not
to stop, and the slave changes SDA only while SCL is low. -/
def Allowed (m : Machine) : Call → Prop
  | .write ch start stop schedule =>
    ch.getLsbD 0 = true ∧ (start ≠ 0 → (m.bus.level pins).scl = true) ∧
      (i2cWrite pins ch start stop (m.bus.begin schedule)).2.rude = false
  | .read stop polls schedule =>
    stop = 0 ∧ (i2cRead pins stop polls (m.bus.begin schedule)).2.rude = false

/-! ### Edges -/

@[simp] lemma edge_self (a : Level) : edge a a = [] := by simp [edge]

/-- A change of SCL alone, or of SDA while SCL is low. -/
lemma quiet_of_mem_edge {a b : Level}
    (h : a.sda = b.sda ∨ a.scl = false ∧ b.scl = false) :
    ∀ e ∈ edge a b, e.quiet = true := by
  obtain ⟨ascl, asda⟩ := a
  obtain ⟨bscl, bsda⟩ := b
  revert h
  cases ascl <;> cases asda <;> cases bscl <;> cases bsda <;> decide

/-- A property of what has happened that later quiet edges do not change. -/
def Closed (E : List Edge → Prop) : Prop :=
  ∀ es fs, E es → (∀ e ∈ fs, e.quiet = true) → E (es ++ fs)

def After (base es : List Edge) : Prop := ∃ mid, es = base ++ mid ∧ ∀ e ∈ mid, e.quiet = true

lemma closed_after (base : List Edge) : Closed (After base) := by
  rintro es fs ⟨mid, rfl, hmid⟩ hfs
  refine ⟨mid ++ fs, List.append_assoc _ _ _, ?_⟩
  intro e he
  rcases List.mem_append.mp he with he | he
  · exact hmid e he
  · exact hfs e he

lemma after_self (base : List Edge) : After base base := ⟨[], by simp, by simp⟩

/-! ### States of the bus -/

/-- The slave has been rude, or `P` holds. -/
def Ok (P : Bus → Prop) (s : Bus) : Prop := s.rude = true ∨ P s

lemma Ok.map {P Q : Bus → Prop} {s : Bus} (h : Ok P s) (hPQ : ∀ s, P s → Q s) : Ok Q s :=
  h.imp id (hPQ s)

/-- `f` does not undo rudeness. -/
def Sticky (f : Bus → Bus) : Prop := ∀ s : Bus, s.rude = true → (f s).rude = true

lemma Ok.bind {P Q : Bus → Prop} {f : Bus → Bus} {s : Bus} (h : Ok P s) (hf : Sticky f)
    (hPQ : ∀ s, P s → Ok Q (f s)) : Ok Q (f s) := by
  rcases h with hrude | hP
  · exact Or.inl (hf s hrude)
  · exact hPQ s hP

/-- SCL is driven; SDA is driven to `sda`, or is an input. -/
structure At (E : List Edge → Prop) (scl : Bool) (sda : Option Bool) (s : Bus) : Prop where
  sclDir : s.dir.getLsbD pins.scl = true
  sclOut : s.out.getLsbD pins.scl = scl
  sclLow : s.outside.sclLow = false
  sdaDir : s.dir.getLsbD pins.sda = sda.isSome
  sdaOut : ∀ b ∈ sda, s.out.getLsbD pins.sda = b ∧ s.outside.sdaLow = false
  edges : E s.edges

/-- Both lines are inputs. -/
structure Released (E : List Edge → Prop) (latch : Bool) (s : Bus) : Prop where
  sclDir : s.dir.getLsbD pins.scl = false
  sclOut : s.out.getLsbD pins.scl = latch
  sdaDir : s.dir.getLsbD pins.sda = false
  edges : E s.edges

variable {pins} {E : List Edge → Prop} {scl : Bool} {sda : Option Bool} {s : Bus}

lemma At.level (h : At pins E scl sda s) :
    s.level pins = ⟨scl, sda.getD (!s.outside.sdaLow)⟩ := by
  rw [Bus.level, h.sclDir, h.sdaDir]
  cases hsda : sda with
  | none => simp [h.sclOut]
  | some b => simp [h.sclOut, (h.sdaOut b (by simp [hsda])).1]

/-! ### What happens between accesses -/

lemma edges_slaveMove (s : Bus) (x : Outside) : (slaveMove pins s x).edges =
    s.edges ++ edge (s.level pins) ((s.moved pins x).level pins) := rfl

lemma rude_slaveMove (s : Bus) (x : Outside)
    (hsda : (s.level pins).sda ≠ ((s.moved pins x).level pins).sda)
    (hscl : (s.level pins).scl = true ∨ ((s.moved pins x).level pins).scl = true) :
    (slaveMove pins s x).rude = true := by
  show (s.rude || _) = true
  rcases hscl with hscl | hscl
  · simp [hsda, hscl]
  · simp [hsda, hscl]

lemma sticky_slaveMove (x : Outside) : Sticky (slaveMove pins · x) := by
  intro s hs
  simp [slaveMove, Bus.becomes, hs]

lemma sticky_await : Sticky (Bus.await pins) := by
  intro s hs
  rw [Bus.await]
  have hfold : ∀ (xs : List Outside) (t : Bus), t.rude = true →
      (xs.foldl (slaveMove pins) t).rude = true := by
    intro xs
    induction xs with
    | nil => exact fun t ht => ht
    | cons x xs ih => exact fun t ht => ih _ (sticky_slaveMove x t ht)
  exact hfold _ _ hs

/-- Only rudeness of the slave can end `P` between accesses. -/
structure Stable (pins : Pins) (P : Bus → Prop) : Prop where
  move : ∀ s x, P s → Ok P (slaveMove pins s x)
  count : ∀ (s : Bus) n, P s → P { s with accesses := n }

lemma Stable.await {P : Bus → Prop} (hP : Stable pins P) {s : Bus} (h : P s) :
    Ok P (s.await pins) := by
  have hfold : ∀ (xs : List Outside) (t : Bus), Ok P t → Ok P (xs.foldl (slaveMove pins) t) := by
    intro xs
    induction xs with
    | nil => exact fun t ht => ht
    | cons x xs ih =>
      intro t ht
      exact ih _ (ht.bind (sticky_slaveMove x) fun s hs => hP.move s x hs)
  exact hfold _ _ (Or.inr (hP.count s _ h))

/-- A register is read and then written; both times the slave may have moved. -/
lemma Stable.await_await {P : Bus → Prop} (hP : Stable pins P) {s : Bus} (h : P s) :
    Ok (fun t => P (s.await pins) ∧ P t) ((s.await pins).await pins) := by
  rcases hP.await h with hrude | h₁
  · exact Or.inl (sticky_await _ hrude)
  · exact (hP.await h₁).map fun _ h₂ => ⟨h₁, h₂⟩

lemma At.moved (h : At pins E scl sda s) (x : Outside) :
    At pins (fun _ => True) scl sda (s.moved pins x) := by
  refine ⟨h.sclDir, h.sclOut, ?_, h.sdaDir, ?_, trivial⟩
  · simp [Bus.moved, Outside.restrict, h.sclDir]
  · intro b hb
    refine ⟨(h.sdaOut b hb).1, ?_⟩
    simp [Bus.moved, Outside.restrict, h.sdaDir, Option.mem_def.mp hb]

/-- With other edges. -/
lemma At.of_edges {E' : List Edge → Prop} {s' : Bus} (h : At pins E scl sda s)
    (hs' : s'.dir = s.dir ∧ s'.out = s.out ∧ s'.outside = s.outside) (hE : E' s'.edges) :
    At pins E' scl sda s' := by
  obtain ⟨hdir, hout, houtside⟩ := hs'
  exact ⟨hdir ▸ h.sclDir, hout ▸ h.sclOut, houtside ▸ h.sclLow, hdir ▸ h.sdaDir,
    fun b hb => ⟨hout ▸ (h.sdaOut b hb).1, houtside ▸ (h.sdaOut b hb).2⟩, hE⟩

/-- A move of the slave that is not rude. -/
lemma quiet_slaveMove {x : Outside} (h : (slaveMove pins s x).rude ≠ true) :
    ∀ e ∈ edge (s.level pins) ((s.moved pins x).level pins), e.quiet = true := by
  apply quiet_of_mem_edge
  by_contra hnot
  rw [not_or, not_and_or, Bool.not_eq_false, Bool.not_eq_false] at hnot
  exact h (rude_slaveMove s x hnot.1 hnot.2)

lemma stable_at (hE : sda.isSome = true ∨ Closed E) : Stable pins (At pins E scl sda) := by
  constructor
  · intro s x h
    by_cases hrude : (slaveMove pins s x).rude = true
    · exact Or.inl hrude
    refine Or.inr ((h.moved x).of_edges ⟨rfl, rfl, rfl⟩ ?_)
    rw [edges_slaveMove]
    rcases hE with hsome | hclosed
    · obtain ⟨b, rfl⟩ := Option.isSome_iff_exists.mp hsome
      rw [h.level, (h.moved x).level, Option.getD_some, Option.getD_some, edge_self,
        List.append_nil]
      exact h.edges
    · exact hclosed _ _ h.edges (quiet_slaveMove hrude)
  · intro s n h
    exact h.of_edges ⟨rfl, rfl, rfl⟩ h.edges

lemma stable_released {latch : Bool} (hE : Closed E) : Stable pins (Released pins E latch) := by
  constructor
  · intro s x h
    by_cases hrude : (slaveMove pins s x).rude = true
    · exact Or.inl hrude
    refine Or.inr ⟨h.sclDir, h.sclOut, h.sdaDir, ?_⟩
    rw [edges_slaveMove]
    exact hE _ _ h.edges (quiet_slaveMove hrude)
  · intro s n h
    exact ⟨h.sclDir, h.sclOut, h.sdaDir, h.edges⟩

/-! ### Accesses -/

lemma sticky_gpioGetdat : Sticky fun s => (gpioGetdat pins s).2 := fun s hs => sticky_await s hs

lemma sticky_gpioSetdat (val : BitVec 32) : Sticky (gpioSetdat pins val) :=
  fun s hs => sticky_await s hs

lemma sticky_setscl (val : Bool) : Sticky (setscl pins val) :=
  fun s hs => sticky_gpioSetdat _ _ (sticky_gpioGetdat s hs)

lemma sticky_setsda (val : Bool) : Sticky (setsda pins val) :=
  fun s hs => sticky_gpioSetdat _ _ (sticky_gpioGetdat s hs)

lemma sticky_readsda : Sticky fun s => (readsda pins s).2 := sticky_gpioGetdat

lemma sticky_readscl : Sticky fun s => (readscl pins s).2 := sticky_gpioGetdat

lemma sticky_setdir (val : Bool) : Sticky (setdir pins val) :=
  fun s hs => sticky_await _ (sticky_await s hs)

lemma sticky_setscldir (val : Bool) : Sticky (setscldir pins val) :=
  fun s hs => sticky_await _ (sticky_await s hs)

/-- What `GPIOIN` says about the two pins. -/
lemma gpioGetdat_spec (s : Bus) :
    (gpioGetdat pins s).1.getLsbD pins.scl = ((s.await pins).level pins).scl ∧
      (gpioGetdat pins s).1.getLsbD pins.sda = ((s.await pins).level pins).sda := by
  rw [gpioGetdat]
  simp only [getLsbD_put _ pins.sda_lt, getLsbD_put _ pins.scl_lt, pins.ne, if_false, if_true,
    and_self]

/-- `GPIOOUT` is written. -/
lemma At.out {E' : List Edge → Prop} {scl' : Bool} {sda' : Option Bool} {val : BitVec 32}
    (h : At pins E scl sda s) (hsome : sda'.isSome = sda.isSome)
    (hscl : val.getLsbD pins.scl = scl') (hsda : ∀ b ∈ sda', val.getLsbD pins.sda = b)
    (hE : E' (s.edges ++ edge ⟨scl, sda.getD (!s.outside.sdaLow)⟩
      ⟨scl', sda'.getD (!s.outside.sdaLow)⟩)) :
    At pins E' scl' sda' (s.becomes pins { s with out := val }) := by
  have hnew : At pins (fun _ => True) scl' sda' { s with out := val } := by
    refine ⟨h.sclDir, hscl, h.sclLow, h.sdaDir.trans hsome.symm, ?_, trivial⟩
    intro b hb
    have hold : sda.isSome = true := by simp [← hsome, Option.mem_def.mp hb]
    obtain ⟨b', hb'⟩ := Option.isSome_iff_exists.mp hold
    exact ⟨hsda b hb, (h.sdaOut b' hb').2⟩
  refine hnew.of_edges ⟨rfl, rfl, rfl⟩ ?_
  show E' (s.edges ++ edge (s.level pins) (Bus.level pins { s with out := val }))
  rw [h.level, hnew.level]
  exact hE

lemma setscl_ok (hE : Closed E) (v : Bool) (h : At pins E scl sda s) :
    Ok (At pins E v sda) (setscl pins v s) := by
  have hstable : Stable pins (At pins E scl sda) := stable_at (Or.inr hE)
  rcases hstable.await_await h with hrude | ⟨h₁, h₂⟩
  · exact Or.inl hrude
  refine Or.inr (h₂.out rfl ?_ ?_ (hE _ _ h₂.edges (quiet_of_mem_edge (Or.inl rfl))))
  · rw [scl_put_scl]
  · intro b hb
    rw [sda_put_scl]
    refine (gpioGetdat_spec s).2.trans ?_
    rw [h₁.level, Option.mem_def.mp hb, Option.getD_some]

/-- SDA is driven from `b` to `v`. -/
lemma setsda_ok {b : Bool} (v : Bool) (h : At pins E scl (some b) s) :
    Ok (At pins (fun es => ∃ es₀, E es₀ ∧ es = es₀ ++ edge ⟨scl, b⟩ ⟨scl, v⟩) scl (some v))
      (setsda pins v s) := by
  have hstable : Stable pins (At pins E scl (some b)) := stable_at (Or.inl rfl)
  rcases hstable.await_await h with hrude | ⟨h₁, h₂⟩
  · exact Or.inl hrude
  refine Or.inr (h₂.out rfl ?_ ?_ ⟨_, h₂.edges, rfl⟩)
  · rw [scl_put_sda]
    refine (gpioGetdat_spec s).1.trans ?_
    rw [h₁.level]
  · intro b' hb'
    rw [sda_put_sda]
    exact Option.some.inj hb'

lemma setsda_low_ok (hE : Closed E) {b : Bool} (v : Bool) (h : At pins E false (some b) s) :
    Ok (At pins E false (some v)) (setsda pins v s) := by
  refine (setsda_ok v h).map fun s hs => hs.of_edges ⟨rfl, rfl, rfl⟩ ?_
  obtain ⟨es₀, hes₀, heq⟩ := hs.edges
  rw [heq]
  exact hE _ _ hes₀ (quiet_of_mem_edge (Or.inr ⟨rfl, rfl⟩))

/-- `GPIOOUTEN` is written. -/
lemma At.dir {E' : List Edge → Prop} {sda' : Option Bool} {val : BitVec 32}
    (h : At pins E scl sda s) (hscl : val.getLsbD pins.scl = true)
    (hsda : val.getLsbD pins.sda = sda'.isSome) (hout : ∀ b ∈ sda', s.out.getLsbD pins.sda = b)
    (hE : E' (s.edges ++ edge ⟨scl, sda.getD (!s.outside.sdaLow)⟩
      ⟨scl, sda'.getD (!(s.outside.sdaLow && !sda'.isSome))⟩)) :
    At pins E' scl sda'
      (s.becomes pins { s with dir := val, outside := s.outside.restrict pins val }) := by
  have hnew : At pins (fun _ => True) scl sda'
      { s with dir := val, outside := s.outside.restrict pins val } := by
    refine ⟨hscl, h.sclOut, ?_, hsda, ?_, trivial⟩
    · simp [Outside.restrict, hscl]
    · intro b hb
      refine ⟨hout b hb, ?_⟩
      simp [Outside.restrict, hsda, Option.mem_def.mp hb]
  refine hnew.of_edges ⟨rfl, rfl, rfl⟩ ?_
  show E' (s.edges ++ edge (s.level pins) (Bus.level pins
    { s with dir := val, outside := s.outside.restrict pins val }))
  rw [h.level, hnew.level]
  simpa [Outside.restrict, hsda] using hE

/-- The direction of SDA is read and written, between which the slave may move. -/
lemma setdir_ok {P : Bus → Prop} (v : Bool) (hstable : Stable pins (At pins E scl sda))
    (h : At pins E scl sda s)
    (hP : ∀ t val, At pins E scl sda t → val.getLsbD pins.scl = true →
      val.getLsbD pins.sda = v →
      P (t.becomes pins { t with dir := val, outside := t.outside.restrict pins val })) :
    Ok P (setdir pins v s) := by
  rcases hstable.await_await h with hrude | ⟨h₁, h₂⟩
  · exact Or.inl hrude
  refine Or.inr (hP _ _ h₂ ?_ ?_)
  · rw [scl_put_sda]
    exact h₁.sclDir
  · rw [sda_put_sda]

/-- SDA becomes an output while SCL is low. -/
lemma setdir_out_ok (hE : Closed E) (h : At pins E false sda s) :
    Ok (fun t => ∃ b, At pins E false (some b) t) (setdir pins true s) := by
  refine setdir_ok true (stable_at (Or.inr hE)) h fun t val ht hscl hsda => ?_
  refine ⟨_, ht.dir hscl hsda (fun b hb => Option.some.inj hb) ?_⟩
  exact hE _ _ ht.edges (quiet_of_mem_edge (Or.inr ⟨rfl, rfl⟩))

/-- SDA is an output already. -/
lemma setdir_out_high_ok {b : Bool} (h : At pins E scl (some b) s) :
    Ok (At pins E scl (some b)) (setdir pins true s) := by
  refine setdir_ok true (stable_at (Or.inl rfl)) h fun t val ht hscl hsda => ?_
  refine ht.dir hscl hsda (fun b' hb' => ?_) ?_
  · exact (ht.sdaOut b rfl).1.trans (Option.some.inj hb')
  · simpa using ht.edges

/-- SDA becomes an input while SCL is low. -/
lemma setdir_in_ok (hE : Closed E) (h : At pins E false sda s) :
    Ok (At pins E false none) (setdir pins false s) := by
  refine setdir_ok false (stable_at (Or.inr hE)) h fun t val ht hscl hsda => ?_
  refine ht.dir hscl hsda (by simp) ?_
  exact hE _ _ ht.edges (quiet_of_mem_edge (Or.inr ⟨rfl, rfl⟩))

/-- SDA becomes an input while it is driven high: the pull-up holds it there. -/
lemma setdir_in_high_ok (h : At pins E scl (some true) s) :
    Ok (At pins E scl none) (setdir pins false s) := by
  refine setdir_ok false (stable_at (Or.inl rfl)) h fun t val ht hscl hsda => ?_
  refine ht.dir hscl hsda (by simp) ?_
  simpa [(ht.sdaOut true rfl).2] using ht.edges

/-- SCL is let go; the slave may hold it. -/
lemma setscldir_in_ok (hE : Closed E) (h : At pins E scl none s) :
    Ok (Released pins E scl) (setscldir pins false s) := by
  have hstable : Stable pins (At pins E scl none) := stable_at (Or.inr hE)
  rcases hstable.await_await h with hrude | ⟨h₁, h₂⟩
  · exact Or.inl hrude
  have hscl : (put (s.await pins).dir pins.scl false).getLsbD pins.scl = false := by
    rw [scl_put_scl]
  have hsda : (put (s.await pins).dir pins.scl false).getLsbD pins.sda = false := by
    rw [sda_put_scl]
    exact h₁.sdaDir
  refine Or.inr ⟨hscl, h₂.sclOut, hsda, hE _ _ h₂.edges (quiet_of_mem_edge (Or.inl ?_))⟩
  have hdir : ((s.await pins).await pins).dir.getLsbD pins.sda = false := h₂.sdaDir
  simp [Bus.level, hdir, hsda, Outside.restrict]

/-- SCL is driven to the level that was written last. -/
lemma setscldir_out_ok {latch : Bool} (hE : Closed E) (h : Released pins E latch s) :
    Ok (At pins E latch none) (setscldir pins true s) := by
  have hstable : Stable pins (Released pins E latch) := stable_released hE
  rcases hstable.await_await h with hrude | ⟨h₁, h₂⟩
  · exact Or.inl hrude
  have hscl : (put (s.await pins).dir pins.scl true).getLsbD pins.scl = true := by
    rw [scl_put_scl]
  have hsda : (put (s.await pins).dir pins.scl true).getLsbD pins.sda = false := by
    rw [sda_put_scl]
    exact h₁.sdaDir
  refine Or.inr ⟨hscl, h₂.sclOut, ?_, hsda, by simp,
    hE _ _ h₂.edges (quiet_of_mem_edge (Or.inl ?_))⟩
  · show (((s.await pins).await pins).outside.sclLow &&
      !(put (s.await pins).dir pins.scl true).getLsbD pins.scl) = false
    rw [hscl, Bool.not_true, Bool.and_false]
  · have hdir : ((s.await pins).await pins).dir.getLsbD pins.sda = false := h₂.sdaDir
    simp [Bus.level, hdir, hsda, Outside.restrict]

/-! ### Loops -/

lemma sticky_waitAck (n : ℕ) : Sticky fun s => (waitAck pins n s).2 := by
  induction n with
  | zero => exact fun s hs => hs
  | succ n ih =>
    intro s hs
    have hread : (readsda pins s).2.rude = true := sticky_readsda s hs
    simp only [waitAck]
    split_ifs
    · exact ih _ hread
    · exact hread

lemma waitAck_ok {P : Bus → Prop} (hP : Stable pins P) (n : ℕ) (h : P s) :
    Ok P (waitAck pins n s).2 := by
  induction n generalizing s with
  | zero => exact Or.inr h
  | succ n ih =>
    have hread : Ok P (readsda pins s).2 := hP.await h
    simp only [waitAck]
    split_ifs
    · exact hread.bind (sticky_waitAck n) fun s hs => ih hs
    · exact hread

lemma sticky_waitScl (n : ℕ) : Sticky fun s => (waitScl pins n s).2 := by
  induction n with
  | zero => exact fun s hs => hs
  | succ n ih =>
    intro s hs
    have hread : (readscl pins s).2.rude = true := sticky_readscl s hs
    simp only [waitScl]
    split_ifs
    · exact hread
    · exact ih _ hread

lemma waitScl_ok {P : Bus → Prop} (hP : Stable pins P) (n : ℕ) (h : P s) :
    Ok P (waitScl pins n s).2 := by
  induction n generalizing s with
  | zero => exact Or.inr h
  | succ n ih =>
    have hread : Ok P (readscl pins s).2 := hP.await h
    simp only [waitScl]
    split_ifs
    · exact hread
    · exact hread.bind (sticky_waitScl n) fun s hs => ih hs

lemma sticky_writeBit (bit : Bool) : Sticky (writeBit pins · bit) :=
  fun s hs => sticky_setscl _ _ (sticky_setsda _ _ (sticky_setscl _ s hs))

lemma writeBit_ok (hE : Closed E) {b : Bool} (bit : Bool) (h : At pins E scl (some b) s) :
    Ok (At pins E true (some bit)) (writeBit pins s bit) := by
  have h₁ := setscl_ok hE false h
  have h₂ := h₁.bind (sticky_setsda bit) fun _ h => setsda_low_ok hE bit h
  exact h₂.bind (sticky_setscl true) fun _ h => setscl_ok hE true h

lemma sticky_writeBits (bs : List Bool) : Sticky (bs.foldl (writeBit pins)) := by
  induction bs with
  | nil => exact fun s hs => hs
  | cons b bs ih => exact fun s hs => ih _ (sticky_writeBit b s hs)

/-- After the bits SCL is high, and SDA is driven to the last one. -/
lemma writeBits_ok (hE : Closed E) {b : Bool} (bs : List Bool) (last : Bool)
    (h : At pins E scl (some b) s) :
    Ok (At pins E true (some last)) ((bs ++ [last]).foldl (writeBit pins) s) := by
  induction bs generalizing s scl b with
  | nil => exact writeBit_ok hE last h
  | cons c bs ih => exact (writeBit_ok hE c h).bind (sticky_writeBits _) fun _ h => ih h

lemma sticky_readBit (ch : BitVec 8) (i : ℕ) : Sticky fun s => (readBit pins (ch, s) i).2 :=
  fun s hs => sticky_readsda _ (sticky_setscl _ _ (sticky_setscl _ s hs))

lemma sticky_readBits (is : List ℕ) (ch : BitVec 8) :
    Sticky fun s => (is.foldl (readBit pins) (ch, s)).2 := by
  induction is generalizing ch with
  | nil => exact fun s hs => hs
  | cons i is ih => exact fun s hs => ih _ _ (sticky_readBit ch i s hs)

lemma readBits_ok (hE : Closed E) (is : List ℕ) (ch : BitVec 8) (h : At pins E scl none s) :
    Ok (fun t => ∃ scl', At pins E scl' none t) (is.foldl (readBit pins) (ch, s)).2 := by
  induction is generalizing s scl ch with
  | nil => exact Or.inr ⟨scl, h⟩
  | cons i is ih =>
    have h₁ := setscl_ok hE false h
    have h₂ := h₁.bind (sticky_setscl true) fun _ h => setscl_ok hE true h
    have h₃ : Ok (At pins E true none) (readBit pins (ch, s) i).2 :=
      h₂.bind sticky_readsda fun _ h => (stable_at (Or.inr hE)).await h
    exact h₃.bind (sticky_readBits is _) fun _ h => ih _ h

/-! ### Transfers -/

/-- The bus between two calls: both lines are driven high, or SCL is low. -/
inductive Rest (pins : Pins) (s : Bus) : Prop where
  | high (h : At pins (fun _ => True) true (some true) s)
  | low (sda : Option Bool) (h : At pins (fun _ => True) false sda s)

lemma Rest.of_at_high (h : At pins E true (some true) s) : Rest pins s :=
  .high (h.of_edges ⟨rfl, rfl, rfl⟩ trivial)

lemma Rest.of_at_low (h : At pins E false sda s) : Rest pins s :=
  .low sda (h.of_edges ⟨rfl, rfl, rfl⟩ trivial)

lemma framed_of_after {start : Bool} {es : List Edge}
    (h : After (if start then [.start] else []) es) : Framed start false es := by
  obtain ⟨mid, rfl, hmid⟩ := h
  exact ⟨mid, by simp, hmid⟩

lemma framed_of_stop {start : Bool} {es es₀ : List Edge}
    (h : After (if start then [.start] else []) es₀) (hes : es = es₀ ++ [.stop]) :
    Framed start true es := by
  obtain ⟨mid, rfl, hmid⟩ := h
  exact ⟨mid, by simp [hes], hmid⟩

/-- The beginning of `i2c_write`, with a START or without. -/
lemma begin_ok (schedule : ℕ → List Outside) (start : ℤ) (h : Rest pins s)
    (hstart : start ≠ 0 → (s.level pins).scl = true) :
    Ok (fun t => ∃ scl b, At pins (After (if start ≠ 0 then [.start] else [])) scl (some b) t)
      (if start ≠ 0 then setsda pins false (setdir pins true (s.begin schedule))
        else setdir pins true (s.begin schedule)) := by
  have hrest : After [] ([] : List Edge) := after_self []
  cases h with
  | high h =>
    have hbegin : At pins (· = []) true (some true) (s.begin schedule) :=
      h.of_edges ⟨rfl, rfl, rfl⟩ rfl
    have hdir := setdir_out_high_ok hbegin
    by_cases hs : start ≠ 0
    · rw [if_pos hs, if_pos hs]
      refine (hdir.bind (sticky_setsda false) fun _ h => setsda_ok false h).map fun t ht => ?_
      refine ⟨true, false, ht.of_edges ⟨rfl, rfl, rfl⟩ ?_⟩
      obtain ⟨es₀, hes₀, heq⟩ := ht.edges
      rw [heq, hes₀]
      exact after_self [.start]
    · rw [if_neg hs, if_neg hs]
      refine hdir.map fun t ht => ⟨true, true, ht.of_edges ⟨rfl, rfl, rfl⟩ ?_⟩
      rw [ht.edges]
      exact hrest
  | low sda h =>
    have hs : ¬start ≠ 0 := by
      intro hne
      have hscl := hstart hne
      rw [h.level] at hscl
      cases hscl
    have hbegin : At pins (After []) false sda (s.begin schedule) :=
      h.of_edges ⟨rfl, rfl, rfl⟩ hrest
    rw [if_neg hs, if_neg hs]
    exact (setdir_out_ok (closed_after []) hbegin).map fun t ⟨b, ht⟩ => ⟨false, b, ht⟩

lemma sticky_stopCondition : Sticky (stopCondition pins) := fun s hs =>
  sticky_setsda _ _ (sticky_setscl _ _ (sticky_setsda _ _ (sticky_setdir _ s hs)))

lemma stopCondition_ok (hE : Closed E) (h : At pins E false sda s) :
    Ok (At pins (fun es => ∃ es₀, E es₀ ∧ es = es₀ ++ [.stop]) true (some true))
      (stopCondition pins s) := by
  have h₁ := setdir_out_ok hE h
  have h₂ := h₁.bind (sticky_setsda false) fun _ ⟨b, h⟩ => setsda_low_ok hE false h
  have h₃ := h₂.bind (sticky_setscl true) fun _ h => setscl_ok hE true h
  rw [stopCondition]
  exact h₃.bind (sticky_setsda true) fun _ h => setsda_ok true h

/-- `i2c_write` of a byte whose last bit is set. -/
lemma i2cWrite_ok {ch : BitVec 8} (hch : ch.getLsbD 0 = true) (start stop : ℤ)
    (schedule : ℕ → List Outside) (h : Rest pins s)
    (hstart : start ≠ 0 → (s.level pins).scl = true) :
    Ok (fun t => Framed (start ≠ 0)
        (stop ≠ 0 ∨ (i2cWrite pins ch start stop (s.begin schedule)).1 = false) t.edges ∧
        Rest pins t)
      (i2cWrite pins ch start stop (s.begin schedule)).2 := by
  have hclosed := closed_after (if start ≠ 0 then [.start] else [])
  obtain ⟨bs, hbits⟩ : ∃ bs, bits ch = bs ++ [true] := ⟨(List.range 7).map _, by
    rw [bits, List.range_succ, List.map_append, List.map_singleton, Nat.sub_self, hch]⟩
  have h₁ := begin_ok schedule start h hstart
  rw [i2cWrite, hbits]
  dsimp only
  generalize (if start ≠ 0 then setsda pins false (setdir pins true (s.begin schedule))
    else setdir pins true (s.begin schedule)) = s₁ at h₁ ⊢
  have h₂ := h₁.bind (sticky_writeBits (bs ++ [true])) fun t ⟨scl, b, ht⟩ =>
    writeBits_ok hclosed bs true ht
  have h₃ := h₂.bind (sticky_setdir false) fun _ h => setdir_in_high_ok h
  have h₄ := h₃.bind (sticky_setscl false) fun _ h => setscl_ok hclosed false h
  have h₅ := h₄.bind (sticky_setscl true) fun _ h => setscl_ok hclosed true h
  generalize setscl pins true _ = s₅ at h₅ ⊢
  have h₆ : Ok (At pins _ true none) (waitAck pins 1000 s₅).2 :=
    h₅.bind (sticky_waitAck 1000) fun _ h => waitAck_ok (stable_at (Or.inr hclosed)) 1000 h
  generalize waitAck pins 1000 s₅ = r at h₆ ⊢
  obtain ⟨res, s₆⟩ := r
  have h₇ : Ok (At pins _ false none) (setscl pins false s₆) :=
    h₆.bind (sticky_setscl false) fun _ h => setscl_ok hclosed false h
  dsimp only
  split_ifs with hstop
  · refine (h₇.bind sticky_stopCondition fun _ h => stopCondition_ok hclosed h).map fun t ht => ?_
    obtain ⟨es₀, hes₀, heq⟩ := ht.edges
    refine ⟨?_, .of_at_high ht⟩
    rw [decide_eq_true hstop]
    exact framed_of_stop (by simpa using hes₀) heq
  · refine h₇.map fun t ht => ⟨?_, .of_at_low ht⟩
    rw [decide_eq_false hstop]
    exact framed_of_after (by simpa using ht.edges)

/-- `i2c_read` without a STOP. -/
lemma i2cRead_ok (polls : ℕ) (schedule : ℕ → List Outside) (h : Rest pins s) :
    Ok (fun t => Framed false false t.edges ∧
        ((i2cRead pins 0 polls (s.begin schedule)).1 = none ∨ Rest pins t))
      (i2cRead pins 0 polls (s.begin schedule)).2 := by
  have hclosed := closed_after []
  have h₁ : Ok (fun t => ∃ scl, At pins (After []) scl none t)
      (setdir pins false (s.begin schedule)) := by
    cases h with
    | high h =>
      have hbegin : At pins (After []) true (some true) (s.begin schedule) :=
        h.of_edges ⟨rfl, rfl, rfl⟩ (after_self [])
      exact (setdir_in_high_ok hbegin).map fun _ h => ⟨true, h⟩
    | low sda h =>
      have hbegin : At pins (After []) false sda (s.begin schedule) :=
        h.of_edges ⟨rfl, rfl, rfl⟩ (after_self [])
      exact (setdir_in_ok hclosed hbegin).map fun _ h => ⟨false, h⟩
  rw [i2cRead]
  dsimp only
  generalize setdir pins false (s.begin schedule) = s₁ at h₁ ⊢
  have h₂ : Ok (fun t => ∃ latch, Released pins (After []) latch t) (setscldir pins false s₁) :=
    h₁.bind (sticky_setscldir false) fun _ ⟨scl, h⟩ =>
      (setscldir_in_ok hclosed h).map fun _ h => ⟨scl, h⟩
  have h₃ : Ok (fun t => ∃ latch, Released pins (After []) latch t)
      (waitScl pins polls (setscldir pins false s₁)).2 :=
    h₂.bind (sticky_waitScl polls) fun _ ⟨latch, h⟩ =>
      (waitScl_ok (stable_released hclosed) polls h).map fun _ h => ⟨latch, h⟩
  generalize waitScl pins polls (setscldir pins false s₁) = r at h₃ ⊢
  obtain ⟨ready, s₃⟩ := r
  cases ready with
  | false => exact h₃.map fun t ⟨latch, ht⟩ => ⟨framed_of_after ht.edges, Or.inl rfl⟩
  | true =>
    have h₄ : Ok (fun t => ∃ latch, Released pins (After []) latch t) (readsda pins s₃).2 :=
      h₃.bind sticky_readsda fun _ ⟨latch, h⟩ =>
        ((stable_released hclosed).await h).map fun _ h => ⟨latch, h⟩
    generalize readsda pins s₃ = r at h₄ ⊢
    obtain ⟨sda, s₄⟩ := r
    have h₅ : Ok (fun t => ∃ scl, At pins (After []) scl none t) (setscldir pins true s₄) :=
      h₄.bind (sticky_setscldir true) fun _ ⟨latch, h⟩ =>
        (setscldir_out_ok hclosed h).map fun _ h => ⟨latch, h⟩
    -- the loop does not matter, only that it is one
    generalize (if sda then BitVec.twoPow 8 7 else 0) = first, List.range' 1 7 = is
    have h₆ : Ok (fun t => ∃ scl, At pins (After []) scl none t)
        (is.foldl (readBit pins) (first, setscldir pins true s₄)).2 :=
      h₅.bind (sticky_readBits is first) fun _ ⟨scl, h⟩ => readBits_ok hclosed is first h
    generalize is.foldl (readBit pins) (first, setscldir pins true s₄) = r at h₆ ⊢
    obtain ⟨ch, s₆⟩ := r
    have h₇ : Ok (At pins (After []) false none) (setscl pins false s₆) :=
      h₆.bind (sticky_setscl false) fun _ ⟨scl, h⟩ => setscl_ok hclosed false h
    have h₈ := h₇.bind (sticky_setdir true) fun _ h => setdir_out_ok hclosed h
    have h₉ := h₈.bind (sticky_setsda false) fun _ ⟨b, h⟩ => setsda_low_ok hclosed false h
    have h₁₀ := h₉.bind (sticky_setscl true) fun _ h => setscl_ok hclosed true h
    have h₁₁ := h₁₀.bind (sticky_setscl false) fun _ h => setscl_ok hclosed false h
    simp only [ne_eq, not_true_eq_false, decide_false, if_true, if_false]
    exact h₁₁.map fun t ht => ⟨framed_of_after ht.edges, Or.inr (.of_at_low ht)⟩

/-! ### Initialisation -/

/-- Nobody pulls a line low. -/
structure Idle (pins : Pins) (s : Bus) : Prop where
  level : s.level pins = ⟨true, true⟩
  sdaLow : s.outside.sdaLow = false
  sclLow : s.outside.sclLow = false

/-- SDA is high, and the slave does not pull it; `R` holds of the registers. -/
structure Free (pins : Pins) (R : BitVec 32 → BitVec 32 → Prop) (s : Bus) : Prop where
  regs : R s.dir s.out
  sda : (s.level pins).sda = true
  sdaLow : s.outside.sdaLow = false
  sclLow : s.dir.getLsbD pins.scl = true → s.outside.sclLow = false
  free : ∀ n, ∀ x ∈ s.schedule n, x.sdaLow = false
  rude : s.rude = false
  edges : After [] s.edges

variable {R : BitVec 32 → BitVec 32 → Prop}

lemma Free.move (h : Free pins R s) {x : Outside} (hx : x.sdaLow = false) :
    Free pins R (slaveMove pins s x) := by
  have hlow : (x.restrict pins s.dir).sdaLow = false := by simp [Outside.restrict, hx]
  have hsda : ((s.moved pins x).level pins).sda = true := by
    have hold := h.sda
    simp only [Bus.level, h.sdaLow] at hold
    simp only [Bus.level, Bus.moved, hlow]
    exact hold
  refine ⟨h.regs, hsda, hlow, ?_, h.free, ?_, ?_⟩
  · intro hdir
    have hdir' : s.dir.getLsbD pins.scl = true := hdir
    show (x.sclLow && !s.dir.getLsbD pins.scl) = false
    rw [hdir', Bool.not_true, Bool.and_false]
  · show (s.rude || _) = false
    simp [h.rude, h.sda, hsda]
  · rw [edges_slaveMove]
    exact closed_after [] _ _ h.edges (quiet_of_mem_edge (Or.inl (h.sda.trans hsda.symm)))

lemma Free.await (h : Free pins R s) : Free pins R (s.await pins) := by
  have hfold : ∀ (xs : List Outside) (t : Bus), (∀ x ∈ xs, x.sdaLow = false) → Free pins R t →
      Free pins R (xs.foldl (slaveMove pins) t) := by
    intro xs
    induction xs with
    | nil => exact fun t _ ht => ht
    | cons x xs ih =>
      intro t hxs ht
      exact ih _ (fun y hy => hxs y (List.mem_cons_of_mem _ hy))
        (ht.move (hxs x List.mem_cons_self))
  exact hfold _ _ (h.free s.accesses) ⟨h.regs, h.sda, h.sdaLow, h.sclLow, h.free, h.rude, h.edges⟩

lemma Free.gpioSetdir (h : Free pins R s) {R' : BitVec 32 → BitVec 32 → Prop} {val : BitVec 32}
    (hval : val.getLsbD pins.sda = true → (s.await pins).out.getLsbD pins.sda = true)
    (hR : ∀ dir out, R dir out → R' val out) : Free pins R' (gpioSetdir pins val s) := by
  have h₁ := h.await
  have hsda : (Bus.level pins { s.await pins with
      dir := val, outside := (s.await pins).outside.restrict pins val }).sda = true := by
    simp only [Bus.level, Outside.restrict, h₁.sdaLow]
    split_ifs with hd
    · exact hval hd
    · rfl
  refine ⟨hR _ _ h₁.regs, hsda, ?_, ?_, h₁.free, h₁.rude, ?_⟩
  · show ((s.await pins).outside.sdaLow && _) = false
    rw [h₁.sdaLow, Bool.false_and]
  · intro hdir
    have hdir' : val.getLsbD pins.scl = true := hdir
    show ((s.await pins).outside.sclLow && !val.getLsbD pins.scl) = false
    rw [hdir', Bool.not_true, Bool.and_false]
  · exact closed_after [] _ _ h₁.edges (quiet_of_mem_edge (Or.inl (h₁.sda.trans hsda.symm)))

lemma Free.gpioSetdat (h : Free pins R s) {R' : BitVec 32 → BitVec 32 → Prop} {val : BitVec 32}
    (hval : val.getLsbD pins.sda = true) (hR : ∀ dir out, R dir out → R' dir val) :
    Free pins R' (gpioSetdat pins val s) := by
  have h₁ := h.await
  have hsda : (Bus.level pins { s.await pins with out := val }).sda = true := by
    simp only [Bus.level, h₁.sdaLow, hval]
    split_ifs <;> rfl
  exact ⟨hR _ _ h₁.regs, hsda, h₁.sdaLow, h₁.sclLow, h₁.free, h₁.rude,
    closed_after [] _ _ h₁.edges (quiet_of_mem_edge (Or.inl (h₁.sda.trans hsda.symm)))⟩

lemma await_regs (s : Bus) : (s.await pins).dir = s.dir ∧ (s.await pins).out = s.out := by
  have hfold : ∀ (xs : List Outside) (t : Bus),
      (xs.foldl (slaveMove pins) t).dir = t.dir ∧ (xs.foldl (slaveMove pins) t).out = t.out := by
    intro xs
    induction xs with
    | nil => exact fun t => ⟨rfl, rfl⟩
    | cons x xs ih => exact fun t => ih _
  exact hfold _ _

/-- The bits that `i2c_init` sets one after the other. -/
def Driven (pins : Pins) (sda : Bool) (dir out : BitVec 32) : Prop :=
  dir.getLsbD pins.scl = true ∧ out.getLsbD pins.scl = true ∧ out.getLsbD pins.sda = true ∧
    (sda = true → dir.getLsbD pins.sda = true)

lemma Free.setscldir (h : Free pins (fun _ _ => True) s) :
    Free pins (fun dir _ => dir.getLsbD pins.scl = true) (setscldir pins true s) := by
  refine h.await.gpioSetdir ?_ fun dir out _ => ?_
  · intro hdir
    rw [sda_put_scl] at hdir
    have hsda := h.await.await.sda
    rw [Bus.level, (await_regs _).1, if_pos hdir] at hsda
    exact hsda
  · rw [scl_put_scl]

lemma Free.setscl (h : Free pins (fun dir _ => dir.getLsbD pins.scl = true) s) :
    Free pins (Driven pins false) (setscl pins true s) := by
  refine h.await.gpioSetdat ?_ fun dir out hdir => ⟨hdir, ?_, ?_, by simp⟩
  · rw [sda_put_scl]
    exact (gpioGetdat_spec s).2.trans h.await.sda
  · rw [scl_put_scl]
  · rw [sda_put_scl]
    exact (gpioGetdat_spec s).2.trans h.await.sda

lemma Free.setdir (h : Free pins (Driven pins false) s) :
    Free pins (Driven pins true) (setdir pins true s) := by
  have hdir := h.await.regs
  refine h.await.gpioSetdir (fun _ => h.await.await.regs.2.2.1) fun dir out hregs =>
    ⟨?_, hregs.2.1, hregs.2.2.1, fun _ => ?_⟩
  · rw [scl_put_sda]
    exact hdir.1
  · rw [sda_put_sda]

lemma Free.setsda (h : Free pins (Driven pins true) s) :
    Free pins (Driven pins true) (setsda pins true s) := by
  refine h.await.gpioSetdat ?_ fun dir out hregs => ⟨hregs.1, ?_, ?_, hregs.2.2.2⟩
  · rw [sda_put_sda]
  · rw [scl_put_sda]
    refine (gpioGetdat_spec s).1.trans ?_
    rw [Bus.level, h.await.regs.1, if_pos rfl, h.await.regs.2.1]
  · rw [sda_put_sda]

/-- `i2c_init` raises both lines, and SDA does not change. -/
lemma i2cInit_ok {schedule : ℕ → List Outside} (h : Idle pins s)
    (hfree : ∀ n, ∀ x ∈ schedule n, x.sdaLow = false) :
    At pins (After []) true (some true) (i2cInit pins (s.begin schedule)) := by
  have h₀ : Free pins (fun _ _ => True) (s.begin schedule) :=
    ⟨trivial, by rw [show Bus.level pins (s.begin schedule) = _ from h.level], h.sdaLow,
      fun _ => h.sclLow, hfree, rfl, after_self []⟩
  obtain ⟨s₁, hs₁, hinit⟩ : ∃ s₁, Free pins (fun _ _ => True) s₁ ∧ i2cInit pins (s.begin schedule) =
      I2c.setsda pins true (I2c.setdir pins true
        (I2c.setscl pins true (I2c.setscldir pins true s₁))) := by
    have h₁ := h₀.await.await
    refine ⟨_, ?_, rfl⟩
    exact ⟨trivial, h₁.sda, h₁.sdaLow, h₁.sclLow, h₁.free, h₁.rude, h₁.edges⟩
  have h₂ := hs₁.setscldir.setscl.setdir.setsda
  rw [hinit]
  obtain ⟨hscl, hsclOut, hsdaOut, hsda⟩ := h₂.regs
  exact ⟨hscl, hsclOut, h₂.sclLow hscl, hsda rfl,
    fun b hb => ⟨hsdaOut.trans (Option.some.inj hb), h₂.sdaLow⟩, h₂.edges⟩

/-! ### Runs -/

structure Inv (pins : Pins) (m : Machine) : Prop where
  sound : Sound m
  rest : m.waiting = true ∨ Rest pins m.bus

lemma Inv.step {m m' : Machine} (h : Inv pins m) (call : Call) (hG : Allowed pins m call)
    (hs : I2c.step pins m call = some m') : Inv pins m' := by
  unfold I2c.step at hs
  by_cases hwaiting : m.waiting = true
  · rw [if_pos hwaiting] at hs
    cases hs
  rw [if_neg hwaiting] at hs
  have hrest := h.rest.resolve_left hwaiting
  cases call with
  | write ch start stop schedule =>
    obtain ⟨hch, hstart, hpolite⟩ := hG
    have hok := i2cWrite_ok hch start stop schedule hrest hstart
    dsimp only at hs
    generalize i2cWrite pins ch start stop (m.bus.begin schedule) = r at hpolite hok hs
    cases hs
    rcases hok with hrude | ⟨hframed, hrest'⟩
    · exact absurd (hpolite.symm.trans hrude) (by decide)
    · exact ⟨List.forall_mem_cons.mpr ⟨hframed, h.sound⟩, Or.inr hrest'⟩
  | read stop polls schedule =>
    obtain ⟨rfl, hpolite⟩ := hG
    have hok := i2cRead_ok polls schedule hrest
    dsimp only at hs
    generalize i2cRead pins 0 polls (m.bus.begin schedule) = r at hpolite hok hs
    cases hs
    rcases hok with hrude | ⟨hframed, hrest'⟩
    · exact absurd (hpolite.symm.trans hrude) (by decide)
    · refine ⟨List.forall_mem_cons.mpr ⟨by simpa using hframed, h.sound⟩, ?_⟩
      exact hrest'.imp (fun hnone => by simp [hnone]) id

/-- From an idle bus on, `i2c_init` and the calls that keep to the condition are framed. -/
theorem framing (pins : Pins) {s : Bus} {schedule : ℕ → List Outside} (hidle : Idle pins s)
    (hfree : ∀ n, ∀ x ∈ schedule n, x.sdaLow = false) {calls : List Call}
    (hG : Throughout (step pins) (Allowed pins) (init pins s schedule) calls) :
    Always (step pins) Sound (init pins s schedule) calls := by
  have hat := i2cInit_ok hidle hfree
  have hinit : Inv pins (init pins s schedule) := by
    refine ⟨?_, Or.inr (.of_at_high hat)⟩
    intro r hr
    rw [init, List.mem_singleton] at hr
    subst hr
    exact framed_of_after (by simpa using hat.edges)
  exact always_of_throughout (fun _ call _ h hG hs => h.step call hG hs) (fun _ h => h.sound)
    hinit hG

/-- A framed call has no other START and no other STOP. -/
lemma Framed.count {start stop : Bool} {es : List Edge} (h : Framed start stop es) :
    es.count .start = start.toNat ∧ es.count .stop = stop.toNat := by
  obtain ⟨mid, rfl, hmid⟩ := h
  have hnone : ∀ e : Edge, e.quiet = false → mid.count e = 0 := by
    intro e he
    refine List.count_eq_zero.mpr fun hmem => ?_
    rw [hmid e hmem] at he
    cases he
  cases start <;> cases stop <;> simp [hnone .start rfl, hnone .stop rfl]

def quietBus : Bus := ⟨0, 0, 0, ⟨false, false, 0⟩, fun _ => [], 0, false, []⟩

/-- The slave acknowledges an `i2c_write` with a START. -/
def acknowledge (n : ℕ) : List Outside := if n = 56 then [⟨true, false, 0⟩] else []

lemma idle_quietBus : Idle firstPins quietBus := ⟨by decide, rfl, rfl⟩

/-- A byte with its last bit set is written and acknowledged, and another one read. -/
theorem framing_write_read :
    Always (step firstPins) Sound (init firstPins quietBus fun _ => [])
      [.write 0xa1 1 0 acknowledge, .read 0 1 fun _ => []] := by
  refine framing firstPins idle_quietBus (by simp) ?_
  refine (throughout_cons_of_step rfl).mpr ⟨⟨by decide, fun _ => by decide, by decide +kernel⟩,
    (throughout_cons_of_step rfl).mpr ⟨⟨rfl, by decide +kernel⟩, trivial⟩⟩

/-- A byte whose last bit is clear has a STOP before it is acknowledged; a second START without a
STOP in between is missing; and so is the STOP of `i2c_read`. -/
theorem framing_fails :
    (∃ m, run (step firstPins) (init firstPins quietBus fun _ => [])
      [.write 0xa0 1 1 acknowledge] = some m ∧ ¬Sound m) ∧
    (∃ m, run (step firstPins) (init firstPins quietBus fun _ => [])
      [.write 0xa1 1 0 acknowledge, .write 0xa1 1 1 acknowledge] = some m ∧ ¬Sound m) ∧
    ∃ m, run (step firstPins) (init firstPins quietBus fun _ => [])
      [.write 0xa1 1 0 acknowledge, .read 1 1 fun _ => []] = some m ∧ ¬Sound m := by
  refine ⟨⟨_, rfl, fun h => ?_⟩, ⟨_, rfl, fun h => ?_⟩, ⟨_, rfl, fun h => ?_⟩⟩
  · have hcount := (h _ List.mem_cons_self).count.2
    exact absurd hcount (by decide +kernel)
  · have hcount := (h _ List.mem_cons_self).count.1
    exact absurd hcount (by decide +kernel)
  · have hcount := (h _ List.mem_cons_self).count.2
    exact absurd hcount (by decide +kernel)

end BcmMruby.I2c
