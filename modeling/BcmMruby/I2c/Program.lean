import BcmMruby.Core.Prog
import BcmMruby.I2c.Basic

/-!
# The text of `i2c.c`

The functions of `i2c.c` as programs over the accesses to the pins, and what the pins make of them.
Unlike in `Bus`, the slave may hold SCL low already when the master lets go of it; an output pin has
the level that is driven.
-/

namespace BcmMruby.I2c

inductive Line where
  | scl
  | sda
  deriving DecidableEq

def Pins.pin (pins : Pins) : Line → ℕ
  | .scl => pins.scl
  | .sda => pins.sda

/-- Each reads a register, and all but `get` write one after that. -/
inductive Op where
  /-- `GPIOCTRL` in `i2c_init`. -/
  | ctl
  | dir (line : Line) (val : Bool)
  | set (line : Line) (val : Bool)
  | get (line : Line)
  deriving DecidableEq

abbrev Program (α : Type) := Core.Prog Op Bool α

namespace Program

def perform (o : Op) : Program Unit := .call o fun _ => .ret ()

def setscl (val : Bool) : Program Unit := perform (.set .scl val)

def setsda (val : Bool) : Program Unit := perform (.set .sda val)

def readsda : Program Bool := .call (.get .sda) .ret

def readscl : Program Bool := .call (.get .scl) .ret

/-- `true` is `OUT`. -/
def setdir (val : Bool) : Program Unit := perform (.dir .sda val)

def setscldir (val : Bool) : Program Unit := perform (.dir .scl val)

def i2cInit : Program Unit := do
  perform .ctl
  setscldir true
  setscl true
  setdir true
  setsda true

/-- A bit of `i2c_write`. -/
def writeBit (bit : Bool) : Program Unit := do
  setscl false
  setsda bit
  setscl true

/-- The samples of the ninth clock, `n` of them at most. -/
def waitAck : ℕ → Program Bool
  | 0 => pure false
  | n + 1 => do
    let sda ← readsda
    if sda then waitAck n else pure true

def startCondition (start : ℤ) : Program Unit :=
  if start ≠ 0 then setsda false else pure ()

/-- The end of an `i2c_write` that is to stop or is not acknowledged. -/
def stopCondition (stop : ℤ) (res : Bool) : Program Unit :=
  if stop ≠ 0 ∨ res = false then do
    setdir true
    setsda false
    setscl true
    setsda true
  else pure ()

def i2cWrite (ch : BitVec 8) (start stop : ℤ) : Program Bool := do
  setdir true
  startCondition start
  (bits ch).foldlM (fun _ bit => writeBit bit) ()
  setdir false
  setscl false
  setscl true
  let res ← waitAck 1000
  setscl false
  stopCondition stop res
  pure res

/-- The loop that waits for the slave, for `polls` turns: `false` if SCL is still low. -/
def waitScl : ℕ → Program Bool
  | 0 => pure false
  | polls + 1 => do
    let scl ← readscl
    if scl then pure true else waitScl polls

/-- Bit `7 - i` of `i2c_read`, for `i` from 1 on. -/
def readBit (ch : BitVec 8) (i : ℕ) : Program (BitVec 8) := do
  setscl false
  setscl true
  let sda ← readsda
  pure (ch ||| if sda then BitVec.twoPow 8 (7 - i) else 0)

/-- `i2c_read` from the first bit on. -/
def receive (stop : ℤ) : Program (BitVec 8) := do
  let sda ← readsda
  setscldir true
  let ch ← (List.range' 1 7).foldlM readBit (if sda then BitVec.twoPow 8 7 else 0)
  setscl false
  setdir true
  setsda (stop ≠ 0)
  setscl true
  setscl false
  if stop ≠ 0 then do
    setscl true
    setsda true
    pure ch
  else pure ch

/-- `none` if the slave has held SCL for all of the `polls`. -/
def i2cRead (stop : ℤ) (polls : ℕ) : Program (Option (BitVec 8)) := do
  setdir false
  setscldir false
  let ready ← waitScl polls
  if ready then do
    let ch ← receive stop
    pure (some ch)
  else pure none

inductive Call where
  | init
  | write (ch : BitVec 8) (start stop : ℤ)
  | read (stop : ℤ) (polls : ℕ)
  deriving DecidableEq

/-- One call after the other, up to an `i2c_read` that still waits. -/
def calls : List Call → Program Unit
  | [] => pure ()
  | .init :: cs => do
    i2cInit
    calls cs
  | .write ch start stop :: cs => do
    let _ ← i2cWrite ch start stop
    calls cs
  | .read stop polls :: cs => do
    let ch ← i2cRead stop polls
    if ch = none then pure () else calls cs

end Program

/-! ### The pins -/

/-- One `readsda`. -/
structure Sample where
  /-- The levels of the call, up to the one that is read. -/
  levels : List Level
  /-- Whether the slave pulls SDA. -/
  low : Bool
  deriving DecidableEq

structure Port where
  ctl : BitVec 32
  dir : BitVec 32
  out : BitVec 32
  outside : Outside
  /-- The levels from the beginning of the call on, after each access and each move outside. -/
  levels : List Level
  /-- The samples of SDA in the call. -/
  samples : List Sample

variable (pins : Pins)

def Port.level (s : Port) : Level where
  scl := if s.dir.getLsbD pins.scl then s.out.getLsbD pins.scl else !s.outside.sclLow
  sda := if s.dir.getLsbD pins.sda then s.out.getLsbD pins.sda else !s.outside.sdaLow

def Port.look (s : Port) : Port := { s with levels := s.levels ++ [s.level pins] }

def Port.begin (s : Port) : Port := { s with levels := [s.level pins], samples := [] }

def Port.move (s : Port) (x : Outside) : Port := Port.look pins { s with outside := x }

def Port.await (s : Port) (xs : List Outside) : Port := xs.foldl (Port.move pins) s

/-- `GPIOIN` has the levels of all pins. -/
def Port.gpioin (s : Port) : BitVec 32 :=
  put (put s.outside.others pins.scl (s.level pins).scl) pins.sda (s.level pins).sda

/-- What happens outside before the first access, and behind it. -/
structure Moves where
  before : List Outside
  behind : List Outside

section

variable {pins} (s : Port)

@[simp] lemma Port.look_ctl : (s.look pins).ctl = s.ctl := rfl

@[simp] lemma Port.look_dir : (s.look pins).dir = s.dir := rfl

@[simp] lemma Port.look_out : (s.look pins).out = s.out := rfl

@[simp] lemma Port.look_samples : (s.look pins).samples = s.samples := rfl

lemma Port.await_regs (xs : List Outside) :
    (s.await pins xs).ctl = s.ctl ∧ (s.await pins xs).dir = s.dir ∧
      (s.await pins xs).out = s.out := by
  induction xs generalizing s with
  | nil => exact ⟨rfl, rfl, rfl⟩
  | cons x xs ih => exact ih (s.move pins x)

@[simp] lemma Port.await_samples (xs : List Outside) :
    (s.await pins xs).samples = s.samples := by
  induction xs generalizing s with
  | nil => rfl
  | cons x xs ih => exact ih (s.move pins x)

@[simp] lemma Port.await_ctl (xs : List Outside) : (s.await pins xs).ctl = s.ctl :=
  (s.await_regs xs).1

@[simp] lemma Port.await_dir (xs : List Outside) : (s.await pins xs).dir = s.dir :=
  (s.await_regs xs).2.1

@[simp] lemma Port.await_out (xs : List Outside) : (s.await pins xs).out = s.out :=
  (s.await_regs xs).2.2

end

def operate (o : Op) (e : Moves) (s : Port) : Bool × Port :=
  let s := s.await pins e.before
  let t := (s.look pins).await pins e.behind
  match o with
  | .ctl =>
    (false, Port.look pins
      { t with ctl := s.ctl &&& ~~~(BitVec.twoPow 32 pins.scl ||| BitVec.twoPow 32 pins.sda) })
  | .dir line val => (false, Port.look pins { t with dir := put s.dir (pins.pin line) val })
  | .set line val =>
    (false, Port.look pins { t with out := put (s.gpioin pins) (pins.pin line) val })
  | .get .scl => ((s.gpioin pins).getLsbD pins.scl, t)
  | .get .sda =>
    ((s.gpioin pins).getLsbD pins.sda,
      { t with samples := s.samples ++ [⟨(s.look pins).levels, s.outside.sdaLow⟩] })

/-- All other pins are inputs and low, with these bits in `GPIOOUT`. -/
def inputs (out : BitVec 32) : Port := ⟨0, 0, out, ⟨false, false, 0⟩, [], []⟩

/-! ### The functions on `Bus` -/

/-- The accesses, on `Bus`. -/
def onBus : Op → Bus → Bool × Bus
  | .ctl, s =>
    let (reg, s) := gpioGetctl pins s
    (false, gpioSetctl pins
      (reg &&& ~~~(BitVec.twoPow 32 pins.scl ||| BitVec.twoPow 32 pins.sda)) s)
  | .dir .scl val, s => (false, setscldir pins val s)
  | .dir .sda val, s => (false, setdir pins val s)
  | .set .scl val, s => (false, setscl pins val s)
  | .set .sda val, s => (false, setsda pins val s)
  | .get .scl, s => readscl pins s
  | .get .sda, s => readsda pins s

namespace Program

lemma eval_i2cInit (s : Bus) : i2cInit.eval (onBus pins) s = ((), I2c.i2cInit pins s) := rfl

section

variable (s : Bus) (val : Bool)

@[simp] lemma eval_pure {α : Type} (a : α) :
    (pure a : Program α).eval (onBus pins) s = (a, s) := rfl

@[simp] lemma eval_setscl :
    (setscl val).eval (onBus pins) s = ((), I2c.setscl pins val s) := rfl

@[simp] lemma eval_setsda :
    (setsda val).eval (onBus pins) s = ((), I2c.setsda pins val s) := rfl

@[simp] lemma eval_setscldir :
    (setscldir val).eval (onBus pins) s = ((), I2c.setscldir pins val s) := rfl

@[simp] lemma eval_setdir :
    (setdir val).eval (onBus pins) s = ((), I2c.setdir pins val s) := rfl

@[simp] lemma eval_readscl : readscl.eval (onBus pins) s = I2c.readscl pins s := rfl

@[simp] lemma eval_readsda : readsda.eval (onBus pins) s = I2c.readsda pins s := rfl

end

lemma eval_waitAck (n : ℕ) (s : Bus) :
    (waitAck n).eval (onBus pins) s = I2c.waitAck pins n s := by
  induction n generalizing s with
  | zero => rfl
  | succ n ih =>
    rw [waitAck, I2c.waitAck, Core.Prog.bind_eq, Core.Prog.eval_bind]
    cases hsda : I2c.readsda pins s with
    | mk sda s' =>
      rw [eval_readsda, hsda]
      cases sda with
      | false => rfl
      | true => exact ih s'

lemma eval_waitScl (n : ℕ) (s : Bus) :
    (waitScl n).eval (onBus pins) s = I2c.waitScl pins n s := by
  induction n generalizing s with
  | zero => rfl
  | succ n ih =>
    rw [waitScl, I2c.waitScl, Core.Prog.bind_eq, Core.Prog.eval_bind]
    cases hscl : I2c.readscl pins s with
    | mk scl s' =>
      rw [eval_readscl, hscl]
      cases scl with
      | false => exact ih s'
      | true => rfl

lemma eval_writeBits (data : List Bool) (s : Bus) :
    (data.foldlM (fun _ bit => writeBit bit) ()).eval (onBus pins) s =
      ((), data.foldl (I2c.writeBit pins) s) := by
  induction data generalizing s with
  | nil => rfl
  | cons bit data ih =>
    rw [List.foldlM_cons, Core.Prog.bind_eq, Core.Prog.eval_bind]
    exact ih (I2c.writeBit pins s bit)

lemma eval_readBits (is : List ℕ) (ch : BitVec 8) (s : Bus) :
    (is.foldlM readBit ch).eval (onBus pins) s = is.foldl (I2c.readBit pins) (ch, s) :=
  Core.Prog.eval_foldlM (fun _ _ _ => rfl) is ch s

lemma eval_startCondition (start : ℤ) (s : Bus) :
    (startCondition start).eval (onBus pins) s =
      ((), if start ≠ 0 then I2c.setsda pins false s else s) := by
  rw [startCondition]
  split_ifs <;> rfl

lemma eval_stopCondition (stop : ℤ) (res : Bool) (s : Bus) :
    (stopCondition stop res).eval (onBus pins) s =
      ((), if stop ≠ 0 ∨ res = false then I2c.stopCondition pins s else s) := by
  rw [stopCondition]
  split_ifs <;> rfl

theorem eval_i2cWrite (ch : BitVec 8) (start stop : ℤ) (s : Bus) :
    (i2cWrite ch start stop).eval (onBus pins) s = I2c.i2cWrite pins ch start stop s := by
  simp only [i2cWrite, I2c.i2cWrite, Core.Prog.bind_eq, Core.Prog.eval_bind, eval_setscl,
    eval_setdir, eval_startCondition, eval_writeBits, eval_waitAck, eval_stopCondition]
  rfl

theorem eval_i2cRead (stop : ℤ) (polls : ℕ) (s : Bus) :
    (i2cRead stop polls).eval (onBus pins) s = I2c.i2cRead pins stop polls s := by
  rw [i2cRead, I2c.i2cRead]
  simp only [Core.Prog.bind_eq, Core.Prog.eval_bind, eval_setdir, eval_setscldir, eval_waitScl]
  cases I2c.waitScl pins polls (I2c.setscldir pins false (I2c.setdir pins false s)) with
  | mk ready s' =>
    cases ready with
    | false => rfl
    | true =>
      cases hsda : I2c.readsda pins s' with
      | mk sda t =>
        simp only [if_true, receive, Core.Prog.bind_eq, Core.Prog.eval_bind, eval_readsda, hsda,
          eval_setscldir, eval_readBits, eval_setscl, eval_setdir, eval_setsda]
        split_ifs <;> simp only [Core.Prog.eval_bind, eval_setscl, eval_setsda, eval_pure]

end Program

end BcmMruby.I2c
