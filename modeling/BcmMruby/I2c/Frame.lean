import BcmMruby.I2c.Program

/-!
# The other pins

`setscl` and `setsda` read `GPIOIN` and write `GPIOOUT`: what is written for a pin that is neither
SCL nor SDA is the level on it.
-/

namespace BcmMruby.I2c

open Core

variable (pins : Pins)

/-- The registers have the same bits for the other pins. -/
def Kept (s t : Port) : Prop :=
  ∀ i, i ≠ pins.scl → i ≠ pins.sda → t.ctl.getLsbD i = s.ctl.getLsbD i ∧
    t.dir.getLsbD i = s.dir.getLsbD i ∧ t.out.getLsbD i = s.out.getLsbD i

/-- Where `setscl` or `setsda` reads `GPIOIN`, each other pin has the level that is its bit of
`GPIOOUT`. -/
def Undisturbed (m : Port × Program Unit) (e : Moves) : Prop :=
  ∀ line val k, m.2 = .call (.set line val) k → ∀ i, i ≠ pins.scl → i ≠ pins.sda →
    (m.1.await pins e.before).outside.others.getLsbD i = m.1.out.getLsbD i

variable {pins}

lemma getLsbD_put_pin (reg : BitVec 32) {i : ℕ} (hscl : i ≠ pins.scl) (hsda : i ≠ pins.sda)
    (line : Line) (val : Bool) :
    (put reg (pins.pin line) val).getLsbD i = reg.getLsbD i := by
  cases line
  · rw [Pins.pin, getLsbD_put _ pins.scl_lt, if_neg hscl]
  · rw [Pins.pin, getLsbD_put _ pins.sda_lt, if_neg hsda]

lemma getLsbD_gpioin (s : Port) {i : ℕ} (hscl : i ≠ pins.scl) (hsda : i ≠ pins.sda) :
    (s.gpioin pins).getLsbD i = s.outside.others.getLsbD i := by
  rw [Port.gpioin, getLsbD_put _ pins.sda_lt, if_neg hsda, getLsbD_put _ pins.scl_lt, if_neg hscl]

lemma getLsbD_clear (reg : BitVec 32) {i : ℕ} (hscl : i ≠ pins.scl) (hsda : i ≠ pins.sda) :
    (reg &&& ~~~(BitVec.twoPow 32 pins.scl ||| BitVec.twoPow 32 pins.sda)).getLsbD i =
      reg.getLsbD i := by
  by_cases hi : i < 32
  · simp [hi, hscl, hsda]
  · rw [BitVec.getLsbD_of_ge _ _ (not_lt.mp hi), BitVec.getLsbD_of_ge _ _ (not_lt.mp hi)]

/-- What an access makes of the bits of another pin. -/
lemma operate_others (o : Op) (e : Moves) (s : Port) {i : ℕ} (hscl : i ≠ pins.scl)
    (hsda : i ≠ pins.sda) :
    (operate pins o e s).2.ctl.getLsbD i = s.ctl.getLsbD i ∧
      (operate pins o e s).2.dir.getLsbD i = s.dir.getLsbD i ∧
      (operate pins o e s).2.out.getLsbD i = match o with
        | .set _ _ => (s.await pins e.before).outside.others.getLsbD i
        | _ => s.out.getLsbD i := by
  cases o with
  | ctl => simp [operate, getLsbD_clear _ hscl hsda]
  | dir line val => simp [operate, getLsbD_put_pin _ hscl hsda]
  | set line val => simp [operate, getLsbD_put_pin _ hscl hsda, getLsbD_gpioin _ hscl hsda]
  | get line => cases line <;> simp [operate]

/-- A step that is not disturbed keeps the bits. -/
lemma Kept.step {s : Port} {m m' : Port × Program Unit} {e : Moves} (h : Kept pins s m.1)
    (hG : Undisturbed pins m e) (hs : Prog.step (operate pins) m e = some m') :
    Kept pins s m'.1 := by
  obtain ⟨t, p⟩ := m
  cases p with
  | ret a => cases hs
  | call o k =>
    cases hs
    intro i hscl hsda
    obtain ⟨hctl, hdir, hout⟩ := h i hscl hsda
    obtain ⟨hctl', hdir', hout'⟩ := operate_others o e t hscl hsda
    refine ⟨hctl'.trans hctl, hdir'.trans hdir, hout'.trans ?_⟩
    cases o with
    | set line val => exact (hG line val k rfl i hscl hsda).trans hout
    | ctl | dir | get => exact hout

/-- A step that is disturbed does not. -/
lemma Kept.undisturbed {s : Port} {m m' : Port × Program Unit} {e : Moves}
    (h : Kept pins s m.1) (hs : Prog.step (operate pins) m e = some m')
    (h' : Kept pins s m'.1) : Undisturbed pins m e := by
  obtain ⟨t, p⟩ := m
  rintro line val k rfl i hscl hsda
  cases hs
  exact (operate_others _ e t hscl hsda).2.2.symm.trans
    ((h' i hscl hsda).2.2.trans (h i hscl hsda).2.2.symm)

/-- In every sequence of calls, with any levels on the other pins at any time, their bits of the
registers keep their values exactly if, whenever `setscl` or `setsda` reads `GPIOIN`, the levels on
them are their bits of `GPIOOUT`. -/
theorem others_kept_iff (pins : Pins) (cs : List Program.Call) (s : Port) {es : List Moves}
    {m : Port × Program Unit}
    (hrun : run (Prog.step (operate pins)) (s, Program.calls cs) es = some m) :
    Always (Prog.step (operate pins)) (fun m => Kept pins s m.1) (s, Program.calls cs) es ↔
      Throughout (Prog.step (operate pins)) (Undisturbed pins) (s, Program.calls cs) es := by
  have hstart : Kept pins s s := fun _ _ _ => ⟨rfl, rfl, rfl⟩
  have hgood : ∀ m e m', Kept pins s m.1 → True → Undisturbed pins m e →
      Prog.step (operate pins) m e = some m' → Kept pins s m'.1 :=
    fun _ _ _ h _ hG hs => h.step hG hs
  have hbad : ∀ m e m', Kept pins s m.1 → True → Prog.step (operate pins) m e = some m' →
      Kept pins s m'.1 → Undisturbed pins m e := fun _ _ _ h _ hs h' => h.undisturbed hs h'
  exact always_iff_throughout (fun _ h => h) hgood hbad hstart (fun _ _ => trivial) hrun

/-- `i2c_init`, with nothing happening outside. -/
theorem others_kept_iff_init :
    Always (Prog.step (operate firstPins)) (fun m => Kept firstPins (inputs 0) m.1)
        (inputs 0, Program.calls [.init]) (List.replicate 5 ⟨[], []⟩) ↔
      Throughout (Prog.step (operate firstPins)) (Undisturbed firstPins)
        (inputs 0, Program.calls [.init]) (List.replicate 5 ⟨[], []⟩) :=
  others_kept_iff firstPins [.init] (inputs 0) rfl

/-- `i2c_init` clears the bit of `GPIOOUT` for a pin that is low. -/
theorem others_lost :
    ¬ Always (Prog.step (operate firstPins)) (fun m => Kept firstPins (inputs 4) m.1)
      (inputs 4, Program.calls [.init]) (List.replicate 5 ⟨[], []⟩) := by
  intro h
  have hkept := h (List.replicate 5 ⟨[], []⟩) [] _ rfl rfl
  exact absurd (hkept 2 (by decide) (by decide)).2.2 (by decide)

end BcmMruby.I2c
