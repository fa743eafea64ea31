import Mathlib.Tactic

/-!
# I2C on two GPIO pins

`i2c.c` over the registers of `bcm_gpio.c`. A pin that is an output drives its bit of `GPIOOUT`; a
pin that is an input is pulled up, unless the slave pulls it low. The slave acts between any two
accesses to the registers, `DELAY` or not, and lets go of a pin that becomes an output.
-/

namespace BcmMruby.I2c

/-- `sclpin` and `sdapin`. -/
structure Pins where
  scl : ℕ
  sda : ℕ
  scl_lt : scl < 32
  sda_lt : sda < 32
  ne : scl ≠ sda

/-- SCL and SDA on the first two pins. -/
def firstPins : Pins := ⟨0, 1, by decide, by decide, by decide⟩

/-- What the slave pulls low, and the levels on the other pins. -/
structure Outside where
  sdaLow : Bool
  sclLow : Bool
  others : BitVec 32

structure Level where
  scl : Bool
  sda : Bool
  deriving DecidableEq

/-- A change on the lines. -/
inductive Edge where
  | sclRise (sda : Bool)
  | sclFall (sda : Bool)
  /-- SDA falls while SCL is high. -/
  | start
  /-- SDA rises while SCL is high. -/
  | stop
  /-- SDA changes while SCL is low. -/
  | data (sda : Bool)
  | both
  deriving DecidableEq

def edge (a b : Level) : List Edge :=
  if a.scl = b.scl then
    if a.sda = b.sda then []
    else if b.scl then [if b.sda then .stop else .start]
    else [.data b.sda]
  else if a.sda = b.sda then [if b.scl then .sclRise b.sda else .sclFall b.sda]
  else [.both]

structure Bus where
  ctl : BitVec 32
  dir : BitVec 32
  out : BitVec 32
  outside : Outside
  /-- What happens outside before each access. -/
  schedule : ℕ → List Outside
  accesses : ℕ
  /-- The slave has changed SDA while SCL was high. -/
  rude : Bool
  edges : List Edge

variable (pins : Pins)

def Bus.level (s : Bus) : Level where
  scl := if s.dir.getLsbD pins.scl then s.out.getLsbD pins.scl else !s.outside.sclLow
  sda := if s.dir.getLsbD pins.sda then s.out.getLsbD pins.sda else !s.outside.sdaLow

/-- `s` turns into `s'`, which may change the lines. -/
def Bus.becomes (s s' : Bus) : Bus :=
  { s' with edges := s.edges ++ edge (s.level pins) (s'.level pins) }

/-- The slave does not pull a pin that is an output. -/
def Outside.restrict (x : Outside) (dir : BitVec 32) : Outside :=
  { x with
    sdaLow := x.sdaLow && !dir.getLsbD pins.sda
    sclLow := x.sclLow && !dir.getLsbD pins.scl }

def Bus.moved (s : Bus) (x : Outside) : Bus := { s with outside := x.restrict pins s.dir }

def slaveMove (s : Bus) (x : Outside) : Bus :=
  let a := s.level pins
  let b := (s.moved pins x).level pins
  s.becomes pins
    { s.moved pins x with rude := s.rude || (a.sda != b.sda && (a.scl || b.scl)) }

/-- What happens before an access. -/
def Bus.await (s : Bus) : Bus :=
  (s.schedule s.accesses).foldl (slaveMove pins) { s with accesses := s.accesses + 1 }

/-! ### Registers -/

def gpioGetctl (s : Bus) : BitVec 32 × Bus :=
  let s := s.await pins
  (s.ctl, s)

def gpioSetctl (val : BitVec 32) (s : Bus) : Bus :=
  let s := s.await pins
  { s with ctl := val }

def gpioGetdir (s : Bus) : BitVec 32 × Bus :=
  let s := s.await pins
  (s.dir, s)

def gpioSetdir (val : BitVec 32) (s : Bus) : Bus :=
  let s := s.await pins
  s.becomes pins { s with dir := val, outside := s.outside.restrict pins val }

/-- `(reg & ~(1 << pin)) | (val << pin)`. -/
def put (reg : BitVec 32) (pin : ℕ) (val : Bool) : BitVec 32 :=
  (reg &&& ~~~BitVec.twoPow 32 pin) ||| if val then BitVec.twoPow 32 pin else 0

/-- `GPIOIN` has the levels of all pins. -/
def gpioGetdat (s : Bus) : BitVec 32 × Bus :=
  let s := s.await pins
  (put (put s.outside.others pins.scl (s.level pins).scl) pins.sda (s.level pins).sda, s)

def gpioSetdat (val : BitVec 32) (s : Bus) : Bus :=
  let s := s.await pins
  s.becomes pins { s with out := val }

/-! ### Lines -/

def setscl (val : Bool) (s : Bus) : Bus :=
  let (reg, s) := gpioGetdat pins s
  gpioSetdat pins (put reg pins.scl val) s

def setsda (val : Bool) (s : Bus) : Bus :=
  let (reg, s) := gpioGetdat pins s
  gpioSetdat pins (put reg pins.sda val) s

def readsda (s : Bus) : Bool × Bus :=
  let (reg, s) := gpioGetdat pins s
  (reg.getLsbD pins.sda, s)

def readscl (s : Bus) : Bool × Bus :=
  let (reg, s) := gpioGetdat pins s
  (reg.getLsbD pins.scl, s)

/-- `true` is `OUT`. -/
def setdir (val : Bool) (s : Bus) : Bus :=
  let (reg, s) := gpioGetdir pins s
  gpioSetdir pins (put reg pins.sda val) s

def setscldir (val : Bool) (s : Bus) : Bus :=
  let (reg, s) := gpioGetdir pins s
  gpioSetdir pins (put reg pins.scl val) s

/-! ### Transfers -/

def i2cInit (s : Bus) : Bus :=
  let (reg, s) := gpioGetctl pins s
  let s := gpioSetctl pins
    (reg &&& ~~~(BitVec.twoPow 32 pins.scl ||| BitVec.twoPow 32 pins.sda)) s
  let (reg, s) := gpioGetdir pins s
  let s := gpioSetdir pins (put reg pins.scl true) s
  let s := setscl pins true s
  let s := setdir pins true s
  setsda pins true s

/-- A bit of `i2c_write`. -/
def writeBit (s : Bus) (bit : Bool) : Bus :=
  let s := setscl pins false s
  let s := setsda pins bit s
  setscl pins true s

/-- The samples of the ninth clock, `n` of them at most. -/
def waitAck : ℕ → Bus → Bool × Bus
  | 0, s => (false, s)
  | n + 1, s =>
    let (sda, s) := readsda pins s
    if sda then waitAck n s else (true, s)

/-- `ch` from the most significant bit on. -/
def bits (ch : BitVec 8) : List Bool := (List.range 8).map fun i => ch.getLsbD (7 - i)

/-- The end of an `i2c_write` that is to stop or is not acknowledged. -/
def stopCondition (s : Bus) : Bus :=
  let s := setdir pins true s
  let s := setsda pins false s
  let s := setscl pins true s
  setsda pins true s

def i2cWrite (ch : BitVec 8) (start stop : ℤ) (s : Bus) : Bool × Bus :=
  let s := setdir pins true s
  let s := if start ≠ 0 then setsda pins false s else s
  let s := (bits ch).foldl (writeBit pins) s
  let s := setdir pins false s
  let s := setscl pins false s
  let s := setscl pins true s
  let (res, s) := waitAck pins 1000 s
  let s := setscl pins false s
  (res, if stop ≠ 0 ∨ res = false then stopCondition pins s else s)

/-- The loop that waits for the slave, for `polls` turns: `false` if SCL is still low. -/
def waitScl : ℕ → Bus → Bool × Bus
  | 0, s => (false, s)
  | polls + 1, s =>
    let (scl, s) := readscl pins s
    if scl then (true, s) else waitScl polls s

/-- Bit `7 - i` of `i2c_read`, for `i` from 1 on. -/
def readBit (r : BitVec 8 × Bus) (i : ℕ) : BitVec 8 × Bus :=
  let s := setscl pins false r.2
  let s := setscl pins true s
  let (sda, s) := readsda pins s
  (r.1 ||| if sda then BitVec.twoPow 8 (7 - i) else 0, s)

/-- `none` if the slave has held SCL for all of the `polls`. -/
def i2cRead (stop : ℤ) (polls : ℕ) (s : Bus) : Option (BitVec 8) × Bus :=
  let s := setdir pins false s
  let s := setscldir pins false s
  let (ready, s) := waitScl pins polls s
  if ready then
    let (sda, s) := readsda pins s
    let s := setscldir pins true s
    let (ch, s) := (List.range' 1 7).foldl (readBit pins)
      (if sda then BitVec.twoPow 8 7 else 0, s)
    let s := setscl pins false s
    let s := setdir pins true s
    let s := setsda pins (stop ≠ 0) s
    let s := setscl pins true s
    let s := setscl pins false s
    if stop ≠ 0 then
      let s := setscl pins true s
      (some ch, setsda pins true s)
    else (some ch, s)
  else (none, s)

/-! ### Bits -/

lemma getLsbD_put (reg : BitVec 32) {pin i : ℕ} (hpin : pin < 32) (val : Bool) :
    (put reg pin val).getLsbD i = if i = pin then val else reg.getLsbD i := by
  rw [put, BitVec.getLsbD_or, BitVec.getLsbD_and, BitVec.getLsbD_not, BitVec.getLsbD_twoPow]
  by_cases hi : i = pin
  · subst hi
    cases val <;> simp [hpin]
  · have hne : pin ≠ i := fun e => hi e.symm
    cases val
    · by_cases h32 : i < 32
      · simp [hi, hne, h32]
      · simp [hi, BitVec.getLsbD_of_ge _ _ (not_lt.mp h32)]
    · by_cases h32 : i < 32
      · simp [hi, hne, h32]
      · simp [hi, hne, BitVec.getLsbD_of_ge _ _ (not_lt.mp h32)]

section

variable {pins} (reg : BitVec 32) (val : Bool)

lemma scl_put_scl : (put reg pins.scl val).getLsbD pins.scl = val := by
  rw [getLsbD_put _ pins.scl_lt, if_pos rfl]

lemma sda_put_scl : (put reg pins.scl val).getLsbD pins.sda = reg.getLsbD pins.sda := by
  rw [getLsbD_put _ pins.scl_lt, if_neg fun e => pins.ne e.symm]

lemma sda_put_sda : (put reg pins.sda val).getLsbD pins.sda = val := by
  rw [getLsbD_put _ pins.sda_lt, if_pos rfl]

lemma scl_put_sda : (put reg pins.sda val).getLsbD pins.scl = reg.getLsbD pins.scl := by
  rw [getLsbD_put _ pins.sda_lt, if_neg pins.ne]

end

end BcmMruby.I2c
