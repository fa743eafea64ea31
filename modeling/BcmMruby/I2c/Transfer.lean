import BcmMruby.I2c.Program

/-!
# Bytes on the bus

What is seen on the lines during a call are its clocks: for each time that SCL rises, the levels of
SDA from then on until SCL falls. `Clocked` says what the master drives and what has been seen; each
function of `i2c.c` is a triple from one such assertion to the next.
-/

namespace BcmMruby.I2c.Program

open Core

/-! ### Clocks -/

structure Scope where
  high : Bool
  /-- The last clock first. -/
  clocks : List (List Bool)

/-- The last clock goes on, if one has begun. -/
def extend (cs : List (List Bool)) (sda : Bool) : List (List Bool) :=
  match cs with
  | [] => []
  | c :: cs => (c ++ [sda]) :: cs

def Scope.see (o : Scope) (l : Level) : Scope :=
  if l.scl then
    if o.high then ⟨true, extend o.clocks l.sda⟩ else ⟨true, [l.sda] :: o.clocks⟩
  else ⟨false, o.clocks⟩

def clocks : List Level → List (List Bool)
  | [] => []
  | l :: ls => (ls.foldl Scope.see ⟨l.scl, []⟩).clocks.reverse

/-! ### What is promised -/

/-- Whether the slave pulls SDA at each of the samples: all 1000 of them are high, or the first low
one is the last. -/
def Polled (res : Bool) (lows : List Bool) : Prop :=
  if res then ∃ k < 1000, lows = List.replicate k false ++ [true]
  else lows = List.replicate 1000 false

/-- Eight clocks that begin with the bits of the byte, one in which it is acknowledged or not, and
the one of the stop sequence, if there is one. -/
structure Written (ch : BitVec 8) (stop : ℤ) (res : Bool) (s : Port) (data : List (List Bool))
    (ack : List Bool) (rest : List (List Bool)) : Prop where
  clocks : clocks s.levels = data ++ ack :: rest
  bits : data.map List.head? = (bits ch).map some
  stop : rest.length = if stop ≠ 0 ∨ res = false then 1 else 0
  few : s.samples.length ≤ 1000
  /-- Each sample is of a level of the ninth clock. -/
  ninth : ∀ x ∈ s.samples, ∃ c, c <+: ack ∧ Program.clocks x.levels = data ++ [c] ∧
    x.levels.getLast? = some ⟨true, !x.low⟩
  acked : res = true ↔ ∃ x ∈ s.samples, x.low = true
  polled : Polled res (s.samples.map Sample.low)

/-- Eight clocks that have the bits of the byte, and one in which SDA is low if another byte is to
follow. -/
structure Received (stop : ℤ) (ch : BitVec 8) (s : Port) (data : List (List Bool))
    (ack : List Bool) (rest : List (List Bool)) : Prop where
  clocks : clocks s.levels = data ++ ack :: rest
  bits : List.Forall₂ (· ∈ ·) (bits ch) data
  ack : ack ≠ [] ∧ ∀ sda ∈ ack, sda = decide (stop ≠ 0)
  stop : rest.length = if stop ≠ 0 then 1 else 0

variable (pins : Pins)

/-- Where runs of calls lead after `i2c_init`. -/
inductive AfterInit : Port → Prop
  | init {s t : Port} {es : List Moves} (h : Prog.Ends (operate pins) i2cInit s es () t) :
    AfterInit t
  | write {s t : Port} {ch : BitVec 8} {start stop : ℤ} {res : Bool} {es : List Moves}
    (hs : AfterInit s)
    (h : Prog.Ends (operate pins) (i2cWrite ch start stop) (s.begin pins) es res t) : AfterInit t
  | read {s t : Port} {stop : ℤ} {polls : ℕ} {ch : BitVec 8} {es : List Moves}
    (hs : AfterInit s)
    (h : Prog.Ends (operate pins) (i2cRead stop polls) (s.begin pins) es (some ch) t) :
    AfterInit t

/-- `i2c_write` ends, and every run of it is as promised. -/
def WriteCorrect (s : Port) : Prop :=
  ∀ ch start stop,
    (∀ f : ℕ → Moves, ∃ n res t,
      Prog.Ends (operate pins) (i2cWrite ch start stop) (s.begin pins) (Prog.upTo f n) res t) ∧
    ∀ es res t, Prog.Ends (operate pins) (i2cWrite ch start stop) (s.begin pins) es res t →
      ∃ data ack rest, Written ch stop res t data ack rest

/-- The slave holds SCL or lets go of it, but does not begin to pull it. -/
abbrev Stretching (xs : List Outside) : Prop :=
  xs.IsChain fun x y => y.sclLow = true → x.sclLow = true

/-- While SCL is an input the slave stretches the clock at most. -/
def Stretches (s : Port) (e : Moves) : Prop :=
  s.dir.getLsbD pins.scl = false → Stretching (s.outside :: (e.before ++ e.behind))

/-- What is outside at the first access of a label. -/
def outsideAt (s : Port) (f : ℕ → Moves) (n : ℕ) : Outside :=
  ((Prog.upTo f n).flatMap (fun e => e.before ++ e.behind) ++ (f n).before).getLastD s.outside

/-- `i2c_read` ends if the slave does not hold SCL at one of the polls, of which the first is the
third access to a pin; and every run of it in which SCL is only held is as promised. -/
def ReadCorrect (s : Port) : Prop :=
  ∀ stop,
    (∀ f : ℕ → Moves, (∃ n, (outsideAt s f (n + 2)).sclLow = false) → ∃ polls n ch t,
      Prog.Ends (operate pins) (i2cRead stop polls) (s.begin pins) (Prog.upTo f n) (some ch) t) ∧
    ∀ polls es ch t,
      Throughout (Prog.step (operate pins)) (fun m e => Stretches pins m.1 e)
        (s.begin pins, i2cRead stop polls) es →
      Prog.Ends (operate pins) (i2cRead stop polls) (s.begin pins) es (some ch) t →
      ∃ data ack rest, Received stop ch t data ack rest

/-! ### Assertions -/

/-- The lines have been seen so. -/
def Seen (levels : List Level) (o : Scope) : Prop :=
  ∃ l ls, levels = l :: ls ∧ ls.foldl Scope.see ⟨l.scl, []⟩ = o

/-- The sample is of the level that was seen last. -/
structure SampledAt (o : Scope) (x : Sample) : Prop where
  seen : Seen x.levels o
  last : x.levels.getLast? = some ⟨o.high, !x.low⟩

/-- SCL is driven; SDA is driven to `sda`, or is an input. -/
structure Drives (scl : Bool) (sda : Option Bool) (s : Port) : Prop where
  sclDir : s.dir.getLsbD pins.scl = true
  sclOut : s.out.getLsbD pins.scl = scl
  sdaDir : s.dir.getLsbD pins.sda = sda.isSome
  sdaOut : ∀ b ∈ sda, s.out.getLsbD pins.sda = b

/-- `R` holds of the clocks that have been seen, and of the samples. -/
structure Clocked (scl : Bool) (sda : Option Bool) (R : List (List Bool) → List Sample → Prop)
    (s : Port) : Prop extends Drives pins scl sda s where
  seen : ∃ cs, Seen s.levels ⟨scl, cs⟩ ∧ R cs s.samples

/-- What the lines may do while nothing is accessed does not change `R`. -/
def Steady (scl : Bool) (sda : Option Bool) (R : List (List Bool) → List Sample → Prop) : Prop :=
  ∀ cs ss b, (∀ b' ∈ sda, b = b') → R cs ss → R (Scope.see ⟨scl, cs⟩ ⟨scl, b⟩).clocks ss

variable {pins} {scl scl' : Bool} {sda sda' : Option Bool}
  {R R' : List (List Bool) → List Sample → Prop} {s t : Port} {e : Moves} {G : Port → Moves → Prop}

lemma steady_low : Steady false sda R := fun _ _ _ _ h => h

lemma Steady.weaken (h : Steady scl none R) (sda : Option Bool) : Steady scl sda R :=
  fun cs ss b _ => h cs ss b (by simp)

lemma Seen.snoc {levels : List Level} {o : Scope} (h : Seen levels o) (l : Level) :
    Seen (levels ++ [l]) (o.see l) := by
  obtain ⟨l₀, ls, rfl, rfl⟩ := h
  exact ⟨l₀, ls ++ [l], List.cons_append, by rw [List.foldl_append]; rfl⟩

lemma see_eq (o : Scope) (l : Level) : o.see l = ⟨l.scl, (o.see l).clocks⟩ := by
  rw [Scope.see]
  split_ifs with h
  · simp [h]
  · simp [h]
  · simp [h]

lemma Drives.level (h : Drives pins scl sda s) :
    s.level pins = ⟨scl, sda.getD (!s.outside.sdaLow)⟩ := by
  rw [Port.level, h.sclDir, h.sdaDir]
  cases hsda : sda with
  | none => simp [h.sclOut]
  | some b => simp [h.sclOut, h.sdaOut b (by simp [hsda])]

lemma Clocked.mono (h : Clocked pins scl sda R s) (hR : ∀ cs ss, R cs ss → R' cs ss) :
    Clocked pins scl sda R' s := by
  obtain ⟨cs, hseen, hcs⟩ := h.seen
  exact ⟨h.toDrives, cs, hseen, hR _ _ hcs⟩

/-- The lines are looked at when the master drives them differently. -/
lemma Clocked.becomes_level (h : Clocked pins scl sda R s) (ht : Drives pins scl' sda' t)
    (hlevels : t.levels = s.levels) (hsamples : t.samples = s.samples)
    (hR : ∀ cs ss, Seen (t.look pins).levels (Scope.see ⟨scl, cs⟩ ⟨scl', (t.level pins).sda⟩) →
      R cs ss → R' (Scope.see ⟨scl, cs⟩ ⟨scl', (t.level pins).sda⟩).clocks ss) :
    Clocked pins scl' sda' R' (t.look pins) := by
  obtain ⟨cs, hseen, hcs⟩ := h.seen
  have hlevel : t.level pins = ⟨scl', (t.level pins).sda⟩ := by rw [ht.level]
  have hlook : (t.look pins).levels = s.levels ++ [⟨scl', (t.level pins).sda⟩] := by
    rw [← hlevel, ← hlevels]
    rfl
  have hsee := hseen.snoc ⟨scl', (t.level pins).sda⟩
  rw [← hlook] at hsee
  have hnow := hR cs _ hsee hcs
  rw [see_eq] at hsee
  refine ⟨⟨ht.sclDir, ht.sclOut, ht.sdaDir, ht.sdaOut⟩, _, hsee, ?_⟩
  rwa [Port.look_samples, hsamples]

/-- Whatever the level of SDA is, if it is not driven. -/
lemma Clocked.becomes (h : Clocked pins scl sda R s) (ht : Drives pins scl' sda' t)
    (hlevels : t.levels = s.levels) (hsamples : t.samples = s.samples)
    (hR : ∀ cs ss b, (∀ b' ∈ sda', b = b') → R cs ss →
      R' (Scope.see ⟨scl, cs⟩ ⟨scl', b⟩).clocks ss) :
    Clocked pins scl' sda' R' (t.look pins) := by
  refine h.becomes_level ht hlevels hsamples fun cs ss _ hcs => hR cs ss _ (fun b' hb' => ?_) hcs
  rw [ht.level, Option.mem_def.mp hb', Option.getD_some]

lemma Clocked.look (h : Clocked pins scl sda R s) (hR : Steady scl sda R) :
    Clocked pins scl sda R (s.look pins) := h.becomes h.toDrives rfl rfl hR

lemma Clocked.await (h : Clocked pins scl sda R s) (hR : Steady scl sda R)
    (xs : List Outside) : Clocked pins scl sda R (s.await pins xs) := by
  induction xs generalizing s with
  | nil => exact h
  | cons x xs ih =>
    have hmove : Clocked pins scl sda R (s.move pins x) :=
      h.becomes (t := { s with outside := x }) ⟨h.sclDir, h.sclOut, h.sdaDir, h.sdaOut⟩ rfl rfl hR
    exact ih hmove

/-! ### Accesses -/

lemma gpioin_scl (s : Port) : (s.gpioin pins).getLsbD pins.scl = (s.level pins).scl := by
  rw [Port.gpioin, scl_put_sda, scl_put_scl]

lemma gpioin_sda (s : Port) : (s.gpioin pins).getLsbD pins.sda = (s.level pins).sda := by
  rw [Port.gpioin, sda_put_sda]

lemma Clocked.setscl (h : Clocked pins scl sda R s) (hR : Steady scl sda R) {v : Bool}
    (hR' : ∀ cs ss b, (∀ b' ∈ sda, b = b') → R cs ss →
      R' (Scope.see ⟨scl, cs⟩ ⟨v, b⟩).clocks ss) :
    Clocked pins v sda R' (operate pins (.set .scl v) e s).2 := by
  have hu := h.await hR e.before
  have ht := (hu.look hR).await hR e.behind
  refine ht.becomes ⟨ht.sclDir, scl_put_scl _ _, ht.sdaDir, fun b hb => ?_⟩ rfl rfl hR'
  refine (sda_put_scl _ _).trans ?_
  rw [gpioin_sda, hu.level, Option.mem_def.mp hb, Option.getD_some]

lemma Clocked.setsda {b : Bool} (h : Clocked pins scl (some b) R s) (hR : Steady scl none R)
    (v : Bool) : Clocked pins scl (some v) R (operate pins (.set .sda v) e s).2 := by
  have hu := h.await (hR.weaken _) e.before
  have ht := (hu.look (hR.weaken _)).await (hR.weaken _) e.behind
  refine ht.becomes ⟨ht.sclDir, ?_, ht.sdaDir, fun b hb => ?_⟩ rfl rfl (hR.weaken _)
  · refine (scl_put_sda _ _).trans ?_
    rw [gpioin_scl, hu.level]
  · exact (sda_put_sda _ _).trans (Option.some.inj hb)

lemma Clocked.setdir_out (h : Clocked pins scl sda R s) (hR : Steady scl none R) :
    ∃ b, Clocked pins scl (some b) R (operate pins (.dir .sda true) e s).2 := by
  have hu := h.await (hR.weaken _) e.before
  have ht := (hu.look (hR.weaken _)).await (hR.weaken _) e.behind
  refine ⟨_, ht.becomes ⟨?_, ht.sclOut, sda_put_sda _ _, fun b hb => Option.some.inj hb⟩ rfl rfl
    (hR.weaken _)⟩
  exact (scl_put_sda _ _).trans hu.sclDir

lemma Clocked.setdir_in (h : Clocked pins scl sda R s) (hR : Steady scl none R) :
    Clocked pins scl none R (operate pins (.dir .sda false) e s).2 := by
  have hu := h.await (hR.weaken _) e.before
  have ht := (hu.look (hR.weaken _)).await (hR.weaken _) e.behind
  refine ht.becomes ⟨?_, ht.sclOut, sda_put_sda _ _, by simp⟩ rfl rfl hR
  exact (scl_put_sda _ _).trans hu.sclDir

/-- What `readsda` returns is the level that is looked at, and the slave is sampled. -/
lemma Clocked.readsda {R' : Bool → List (List Bool) → List Sample → Prop}
    (h : Clocked pins scl none R s) (hR : Steady scl none R)
    (hR₁ : ∀ cs ss x, SampledAt (Scope.see ⟨scl, cs⟩ ⟨scl, !x.low⟩) x → R cs ss →
      R' (!x.low) (Scope.see ⟨scl, cs⟩ ⟨scl, !x.low⟩).clocks (ss ++ [x]))
    (hR₂ : ∀ b, Steady scl none (R' b)) :
    Clocked pins scl none (R' (operate pins (.get .sda) e s).1)
      (operate pins (.get .sda) e s).2 := by
  have hu := h.await hR e.before
  have hlevel := hu.level
  rw [Option.getD_none] at hlevel
  let x : Sample := ⟨((s.await pins e.before).look pins).levels,
    (s.await pins e.before).outside.sdaLow⟩
  have hbit : (operate pins (.get .sda) e s).1 = !x.low := by
    refine (gpioin_sda _).trans ?_
    rw [hlevel]
  have hlast : x.levels.getLast? = some ⟨scl, !x.low⟩ := by
    rw [← hlevel]
    exact List.getLast?_concat
  have hlook : Clocked pins scl none (fun cs ss => R' (!x.low) cs (ss ++ [x]))
      ((s.await pins e.before).look pins) := by
    refine hu.becomes_level hu.toDrives rfl rfl fun cs ss hseen hcs => ?_
    rw [hlevel] at hseen ⊢
    refine hR₁ cs ss x ⟨hseen, ?_⟩ hcs
    rwa [see_eq]
  have ht := hlook.await (fun cs ss b hb hcs => hR₂ _ cs _ b hb hcs) e.behind
  obtain ⟨cs, hseen, hcs⟩ := ht.seen
  rw [Port.await_samples] at hcs
  rw [hbit]
  exact ⟨⟨ht.sclDir, ht.sclOut, ht.sdaDir, ht.sdaOut⟩, cs, hseen, hcs⟩

/-! ### Triples -/

lemma triple_perform {o : Op} {P Q : Port → Prop}
    (h : ∀ s e, P s → G s e → Q (operate pins o e s).2) :
    Prog.Triple (operate pins) G P (perform o) fun _ => Q :=
  Prog.triple_call (fun _ => Q) h fun _ => Prog.triple_ret fun _ hs => hs

lemma setscl_low (hR : Steady scl sda R) :
    Prog.Triple (operate pins) G (Clocked pins scl sda R) (setscl false)
      fun _ => Clocked pins false sda R :=
  triple_perform fun _ _ h _ => h.setscl hR fun _ _ _ _ hcs => hcs

/-- A clock begins. -/
lemma setscl_high (hR : ∀ cs ss b, (∀ b' ∈ sda, b = b') → R cs ss → R' ([b] :: cs) ss) :
    Prog.Triple (operate pins) G (Clocked pins false sda R) (setscl true)
      fun _ => Clocked pins true sda R' :=
  triple_perform fun _ _ h _ => h.setscl steady_low hR

lemma setsda_triple {b : Bool} (hR : Steady scl none R) (v : Bool) :
    Prog.Triple (operate pins) G (Clocked pins scl (some b) R) (setsda v)
      fun _ => Clocked pins scl (some v) R :=
  triple_perform fun _ _ h _ => h.setsda hR v

lemma setdir_out (hR : Steady scl none R) :
    Prog.Triple (operate pins) G (Clocked pins scl sda R) (setdir true)
      fun _ s => ∃ b, Clocked pins scl (some b) R s :=
  triple_perform fun _ _ h _ => h.setdir_out hR

lemma setdir_in (hR : Steady scl none R) :
    Prog.Triple (operate pins) G (Clocked pins scl sda R) (setdir false)
      fun _ => Clocked pins scl none R :=
  triple_perform fun _ _ h _ => h.setdir_in hR

lemma readsda_triple {R' : Bool → List (List Bool) → List Sample → Prop} (hR : Steady scl none R)
    (hR₁ : ∀ cs ss x, SampledAt (Scope.see ⟨scl, cs⟩ ⟨scl, !x.low⟩) x → R cs ss →
      R' (!x.low) (Scope.see ⟨scl, cs⟩ ⟨scl, !x.low⟩).clocks (ss ++ [x]))
    (hR₂ : ∀ b, Steady scl none (R' b)) :
    Prog.Triple (operate pins) G (Clocked pins scl none R) readsda
      fun b => Clocked pins scl none (R' b) :=
  Prog.triple_call (fun b => Clocked pins scl none (R' b))
    (fun _ _ h _ => h.readsda hR hR₁ hR₂) fun _ => Prog.triple_ret fun _ hs => hs

/-- What goes on in a clock adds to it. -/
lemma steady_of_extend (hR : ∀ cs ss b, (∀ b' ∈ sda, b = b') → R cs ss → R (extend cs b) ss) :
    Steady scl sda R := by
  cases scl with
  | false => exact steady_low
  | true => exact hR

/-! ### Writing -/

/-- The clocks begin with these levels. -/
def Heads (pre : List Bool) (cs : List (List Bool)) : Prop :=
  cs.map List.head? = pre.reverse.map some

lemma Heads.extend {pre : List Bool} {cs : List (List Bool)} (h : Heads pre cs) (b : Bool) :
    Heads pre (extend cs b) := by
  cases cs with
  | nil => exact h
  | cons c cs =>
    rw [Heads, List.map_cons] at h
    have hne : c ≠ [] := by
      rintro rfl
      cases hpre : pre.reverse with
      | nil => simp [hpre] at h
      | cons a as => simp [hpre] at h
    rw [Heads, Program.extend, List.map_cons, List.head?_append_of_ne_nil _ hne]
    exact h

lemma Heads.snoc {pre : List Bool} {cs : List (List Bool)} (h : Heads pre cs) (b : Bool) :
    Heads (pre ++ [b]) ([b] :: cs) := by
  rw [Heads, List.map_cons, h, List.reverse_append, List.reverse_singleton, List.singleton_append,
    List.map_cons, List.head?_cons]

/-- The samples are from the last clock, the one behind these. -/
def InNinth (pre : List Bool) (cs : List (List Bool)) (ss : List Sample) : Prop :=
  ∃ c cs', cs = c :: cs' ∧ Heads pre cs' ∧ ∀ x ∈ ss, ∃ c₀, c₀ <+: c ∧ SampledAt ⟨true, c₀ :: cs'⟩ x

lemma InNinth.extend {pre : List Bool} {cs : List (List Bool)} {ss : List Sample}
    (h : InNinth pre cs ss) (b : Bool) : InNinth pre (extend cs b) ss := by
  obtain ⟨c, cs', rfl, hheads, hc⟩ := h
  refine ⟨_, _, rfl, hheads, fun x hx => ?_⟩
  obtain ⟨c₀, hprefix, hat⟩ := hc x hx
  exact ⟨c₀, hprefix.trans (List.prefix_append _ _), hat⟩

lemma InNinth.sample {pre : List Bool} {cs : List (List Bool)} {ss : List Sample} {x : Sample}
    {b : Bool} (h : InNinth pre cs ss) (hx : SampledAt (Scope.see ⟨true, cs⟩ ⟨true, b⟩) x) :
    InNinth pre (Program.extend cs b) (ss ++ [x]) := by
  obtain ⟨c, cs', hcs, hheads, hc⟩ := h.extend b
  refine ⟨c, cs', hcs, hheads, fun y hy => ?_⟩
  rcases List.mem_append.mp hy with hy | hy
  · exact hc y hy
  · obtain rfl := List.mem_singleton.mp hy
    exact ⟨c, List.prefix_rfl, hcs ▸ hx⟩

lemma writeBit_triple {pre : List Bool} {h b : Bool} (bit : Bool) :
    Prog.Triple (operate pins) G
      (Clocked pins h (some b) fun cs ss => Heads pre cs ∧ ss = []) (writeBit bit)
      fun _ => Clocked pins true (some bit) fun cs ss => Heads (pre ++ [bit]) cs ∧ ss = [] := by
  refine (setscl_low ?_).bind fun _ => (setsda_triple steady_low bit).bind fun _ =>
    setscl_high fun cs ss b hb hcs => ?_
  · exact steady_of_extend fun cs ss b _ hcs => ⟨hcs.1.extend b, hcs.2⟩
  · obtain rfl := hb bit rfl
    exact ⟨hcs.1.snoc b, hcs.2⟩

/-- What is known of the samples of the ninth clock when the loop has ended. -/
def Waited (pre : List Bool) (res : Bool) (cs : List (List Bool)) (ss : List Sample) : Prop :=
  InNinth pre cs ss ∧ Polled res (ss.map Sample.low)

lemma Waited.extend {pre : List Bool} {res : Bool} {cs : List (List Bool)} {ss : List Sample}
    (h : Waited pre res cs ss) (b : Bool) : Waited pre res (extend cs b) ss :=
  ⟨h.1.extend b, h.2⟩

/-- The loop ends with the first sample that is low. All samples before, `k` of them, are high. -/
lemma waitAck_triple {pre : List Bool} (n k : ℕ) (hk : k + n = 1000) :
    Prog.Triple (operate pins) G
      (Clocked pins true none fun cs ss =>
        InNinth pre cs ss ∧ ss.map Sample.low = List.replicate k false)
      (waitAck n)
      fun res => Clocked pins true none (Waited pre res) := by
  induction n generalizing k with
  | zero =>
    obtain rfl : k = 1000 := hk
    exact Prog.triple_ret fun s h => h
  | succ n ih =>
    -- after a sample
    let Sampled (b : Bool) (cs : List (List Bool)) (ss : List Sample) : Prop :=
      InNinth pre cs ss ∧ ss.map Sample.low = List.replicate k false ++ [!b]
    have hsampled : ∀ b, Steady true none (Sampled b) := fun b =>
      steady_of_extend fun cs ss b' _ hcs => ⟨hcs.1.extend b', hcs.2⟩
    have hsample : Prog.Triple (operate pins) G
        (Clocked pins true none fun cs ss =>
          InNinth pre cs ss ∧ ss.map Sample.low = List.replicate k false)
        readsda fun b => Clocked pins true none (Sampled b) := by
      refine readsda_triple ?_ ?_ hsampled
      · exact steady_of_extend fun cs ss b _ hcs => ⟨hcs.1.extend b, hcs.2⟩
      · rintro cs ss x hx ⟨hninth, hhigh⟩
        exact ⟨hninth.sample hx, by simp [hhigh]⟩
    refine hsample.bind fun b => ?_
    cases b with
    | true =>
      refine (ih (k + 1) (by omega)).consequence (fun s h => ?_) fun _ _ h => h
      exact h.mono fun cs ss ⟨hninth, hhigh⟩ => ⟨hninth, by rw [hhigh, List.replicate_succ']; rfl⟩
    | false =>
      refine Prog.triple_ret fun s h => h.mono fun cs ss ⟨hninth, hlow⟩ => ?_
      exact ⟨hninth, k, by omega, hlow⟩

/-- The clocks of a call that has come to its end. -/
def Done (pre : List Bool) (stop : ℤ) (res : Bool) (cs : List (List Bool)) (ss : List Sample) :
    Prop :=
  ∃ rest cs', cs = rest ++ cs' ∧ rest.length = (if stop ≠ 0 ∨ res = false then 1 else 0) ∧
    Waited pre res cs' ss

lemma stopCondition_triple {pre : List Bool} {stop : ℤ} {res : Bool} :
    Prog.Triple (operate pins) G (Clocked pins false none (Waited pre res)) (stopCondition stop res)
      fun _ s => ∃ h b, Clocked pins h b (Done pre stop res) s := by
  rw [stopCondition]
  split_ifs with hstop
  · refine (setdir_out steady_low).bind fun _ => ?_
    refine Prog.triple_exists fun b => (setsda_triple steady_low false).bind fun _ => ?_
    have hrise : ∀ cs ss b, (∀ b' ∈ some false, b = b') → Waited pre res cs ss →
        Done pre stop res ([b] :: cs) ss :=
      fun cs ss b _ hcs => ⟨[[b]], cs, rfl, by rw [if_pos hstop]; rfl, hcs⟩
    have hdone : Steady true none (Done pre stop res) := by
      refine steady_of_extend fun cs ss b _ hcs => ?_
      obtain ⟨rest, cs', rfl, hlen, hdone⟩ := hcs
      rw [if_pos hstop] at hlen
      obtain ⟨c, rfl⟩ := List.length_eq_one_iff.mp hlen
      exact ⟨[c ++ [b]], cs', rfl, by rw [if_pos hstop]; rfl, hdone⟩
    exact (setscl_high hrise).bind fun _ =>
      (setsda_triple hdone true).consequence (fun _ h => h) fun _ _ h => ⟨_, _, h⟩
  · exact Prog.triple_ret fun s h =>
      ⟨_, _, h.mono fun cs ss hcs => ⟨[], cs, rfl, by rw [if_neg hstop]; rfl, hcs⟩⟩

/-- Nothing has been seen of the call but what SCL was at its beginning. -/
def Blank (cs : List (List Bool)) (ss : List Sample) : Prop := cs = [] ∧ ss = []

lemma steady_blank : Steady scl none Blank :=
  steady_of_extend fun cs ss b _ ⟨hcs, hss⟩ => ⟨by rw [hcs, extend], hss⟩

lemma startCondition_triple (start : ℤ) :
    Prog.Triple (operate pins) G (fun s => ∃ b, Clocked pins scl (some b) Blank s)
      (startCondition start) fun _ s => ∃ b, Clocked pins scl (some b) Blank s := by
  refine Prog.triple_exists fun b => ?_
  rw [startCondition]
  split_ifs
  · exact (setsda_triple steady_blank false).consequence (fun _ h => h) fun _ _ h => ⟨_, h⟩
  · exact Prog.triple_ret fun _ h => ⟨_, h⟩

lemma writeBits_triple (data : List Bool) :
    Prog.Triple (operate pins) G (fun s => ∃ b, Clocked pins scl (some b) Blank s)
      (data.foldlM (fun _ bit => writeBit bit) ())
      fun _ s => ∃ h b, Clocked pins h (some b) (fun cs ss => Heads data cs ∧ ss = []) s := by
  let I (pre : List Bool) (_ : Unit) (s : Port) : Prop :=
    ∃ h b, Clocked pins h (some b) (fun cs ss => Heads pre cs ∧ ss = []) s
  refine (Prog.triple_foldlM (I := I) fun pre bit post _ _ => ?_).consequence ?_ fun _ _ h => h
  · refine Prog.triple_exists fun h => Prog.triple_exists fun b => ?_
    exact (writeBit_triple bit).consequence (fun _ h => h) fun _ _ h => ⟨_, _, h⟩
  · rintro s ⟨b, h⟩
    exact ⟨_, _, h.mono fun cs ss ⟨hcs, hss⟩ => ⟨by rw [hcs]; rfl, hss⟩⟩

lemma steady_heads {pre : List Bool} : Steady scl none fun cs ss => Heads pre cs ∧ ss = [] :=
  steady_of_extend fun _ _ b _ hcs => ⟨hcs.1.extend b, hcs.2⟩

lemma i2cWrite_triple (ch : BitVec 8) (start stop : ℤ) :
    Prog.Triple (operate pins) G (Clocked pins scl sda Blank) (i2cWrite ch start stop)
      fun res s => ∃ h b, Clocked pins h b (Done (bits ch) stop res) s := by
  refine (setdir_out steady_blank).bind fun _ => (startCondition_triple start).bind fun _ =>
    (writeBits_triple (bits ch)).bind fun _ => ?_
  refine Prog.triple_exists fun h => Prog.triple_exists fun b => ?_
  refine (setdir_in steady_heads).bind fun _ => (setscl_low steady_heads).bind fun _ => ?_
  -- the ninth clock
  have hrise : ∀ cs ss b, (∀ b' ∈ none, b = b') → Heads (bits ch) cs ∧ ss = ([] : List Sample) →
      InNinth (bits ch) ([b] :: cs) ss ∧ ss.map Sample.low = List.replicate 0 false := by
    rintro cs ss b - ⟨hheads, rfl⟩
    exact ⟨⟨_, _, rfl, hheads, by simp⟩, rfl⟩
  refine (setscl_high hrise).bind fun _ => (waitAck_triple 1000 0 rfl).bind fun res => ?_
  refine (setscl_low ?_).bind fun _ => stopCondition_triple.bind fun _ => ?_
  · exact steady_of_extend fun cs ss b _ hcs => hcs.extend b
  · exact Prog.triple_ret fun _ h => h

/-- The clocks as they are listed in the promise. -/
lemma Seen.clocks {levels : List Level} {o : Scope} (h : Seen levels o) :
    clocks levels = o.clocks.reverse := by
  obtain ⟨l, ls, rfl, rfl⟩ := h
  rw [Program.clocks]

lemma Polled.length_le {res : Bool} {lows : List Bool} (h : Polled res lows) :
    lows.length ≤ 1000 := by
  rw [Polled] at h
  split_ifs at h
  · obtain ⟨k, hk, rfl⟩ := h
    simpa using hk
  · rw [h, List.length_replicate]

/-- The result tells whether one of the samples is low. -/
lemma Polled.result_iff {res : Bool} {lows : List Bool} (h : Polled res lows) :
    res = true ↔ true ∈ lows := by
  rw [Polled] at h
  split_ifs at h with hres
  · obtain ⟨k, -, rfl⟩ := h
    simp [hres]
  · rw [h, List.mem_replicate]
    simp [hres]

lemma written_of_done {ch : BitVec 8} {stop : ℤ} {res : Bool}
    (h : Clocked pins scl sda (Done (bits ch) stop res) s) :
    ∃ data ack rest, Written ch stop res s data ack rest := by
  obtain ⟨_, hseen, rest, _, rfl, hlen, ⟨c, cs', rfl, hheads, hninth⟩, hpolled⟩ := h.seen
  refine ⟨cs'.reverse, c, rest.reverse, ?_, ?_, ?_, ?_, ?_, ?_, hpolled⟩
  · rw [hseen.clocks, List.reverse_append, List.reverse_cons, List.append_assoc,
      List.singleton_append]
  · rw [List.map_reverse, hheads, ← List.map_reverse, List.reverse_reverse]
  · rw [List.length_reverse, hlen]
  · rw [← List.length_map]
    exact hpolled.length_le
  · intro x hx
    obtain ⟨c₀, hprefix, hat⟩ := hninth x hx
    exact ⟨c₀, hprefix, by rw [hat.seen.clocks, List.reverse_cons], hat.last⟩
  · rw [hpolled.result_iff, List.mem_map]

/-! ### Waiting for the slave -/

/-- Both lines are inputs. `W` is about whether the slave pulls SCL, and what has been seen, as long
as the slave keeps to `C`. -/
structure Free (pins : Pins) (C : Prop) (latch : Bool) (W : Bool → Scope → Prop) (s : Port) :
    Prop where
  sclDir : s.dir.getLsbD pins.scl = false
  sclOut : s.out.getLsbD pins.scl = latch
  sdaDir : s.dir.getLsbD pins.sda = false
  seen : ∃ o, Seen s.levels o ∧ (C → W s.outside.sclLow o)

/-- The slave holds SCL, or the first clock has begun. -/
def Held (low : Bool) (o : Scope) : Prop :=
  low = true ∧ o = ⟨false, []⟩ ∨ low = false ∧ ∃ c, o = ⟨true, [c]⟩

/-- The first clock, in which `R` holds of SDA. -/
def Begun (R : List Bool → Prop) (low : Bool) (o : Scope) : Prop :=
  low = false ∧ ∃ c, o = ⟨true, [c]⟩ ∧ R c

/-- Letting go of SCL does not change `W`, and looking at it does not. -/
def Calm (W : Bool → Scope → Prop) : Prop :=
  ∀ low low' o b, W low o → (low' = true → low = true) → W low' (o.see ⟨!low', b⟩)

lemma calm_held : Calm Held := by
  rintro low low' o b (⟨rfl, rfl⟩ | ⟨rfl, c, rfl⟩) hstretch
  · cases low' with
    | true => exact .inl ⟨rfl, rfl⟩
    | false => exact .inr ⟨rfl, [b], rfl⟩
  · cases low' with
    | true => cases hstretch rfl
    | false => exact .inr ⟨rfl, c ++ [b], rfl⟩

lemma calm_begun {R : List Bool → Prop} (hR : ∀ c b, R c → R (c ++ [b])) : Calm (Begun R) := by
  rintro low low' o b ⟨rfl, c, rfl, hc⟩ hstretch
  cases low' with
  | true => cases hstretch rfl
  | false => exact ⟨rfl, c ++ [b], rfl, hR c b hc⟩

variable {C : Prop} {latch : Bool} {W W' : Bool → Scope → Prop}

lemma Free.level (h : Free pins C latch W s) :
    s.level pins = ⟨!s.outside.sclLow, !s.outside.sdaLow⟩ := by
  rw [Port.level, h.sclDir, h.sdaDir]
  rfl

/-- The lines are looked at, the slave having moved or not. -/
lemma Free.becomes (h : Free pins C latch W s) (hregs : t.dir = s.dir ∧ t.out = s.out)
    (hlevels : t.levels = s.levels)
    (hW : ∀ o, C → W s.outside.sclLow o →
      W' t.outside.sclLow (o.see ⟨!t.outside.sclLow, !t.outside.sdaLow⟩)) :
    Free pins C latch W' (t.look pins) := by
  obtain ⟨o, hseen, ho⟩ := h.seen
  obtain ⟨hdir, hout⟩ := hregs
  have hsclDir : t.dir.getLsbD pins.scl = false := hdir ▸ h.sclDir
  have hsdaDir : t.dir.getLsbD pins.sda = false := hdir ▸ h.sdaDir
  have hlevel : t.level pins = ⟨!t.outside.sclLow, !t.outside.sdaLow⟩ := by
    rw [Port.level, hsclDir, hsdaDir]
    rfl
  have hlook : (t.look pins).levels =
      s.levels ++ [⟨!t.outside.sclLow, !t.outside.sdaLow⟩] := by
    rw [← hlevels, ← hlevel]
    rfl
  exact ⟨hsclDir, hout ▸ h.sclOut, hsdaDir, _, hlook ▸ hseen.snoc _, fun hC => hW o hC (ho hC)⟩

lemma Free.await (h : Free pins C latch W s) (hW : Calm W) {xs : List Outside}
    (hxs : C → Stretching (s.outside :: xs)) : Free pins C latch W (s.await pins xs) := by
  induction xs generalizing s with
  | nil => exact h
  | cons x xs ih =>
    refine ih (s := s.move pins x) ?_ fun hC => (List.isChain_cons_cons.mp (hxs hC)).2
    exact h.becomes (t := { s with outside := x }) ⟨rfl, rfl⟩ rfl fun o hC ho =>
      hW _ _ _ _ ho (List.isChain_cons_cons.mp (hxs hC)).1

/-- What is before an access, and what is behind it. -/
lemma stretching_append {xs ys : List Outside} (h : Stretching (s.outside :: (xs ++ ys))) :
    Stretching (s.outside :: xs) ∧ Stretching ((s.await pins xs).outside :: ys) := by
  induction xs generalizing s with
  | nil => exact ⟨List.isChain_singleton _, h⟩
  | cons x xs ih =>
    obtain ⟨hx, hrest⟩ := List.isChain_cons_cons.mp h
    obtain ⟨hxs, hys⟩ := ih (s := s.move pins x) hrest
    exact ⟨List.isChain_cons_cons.mpr ⟨hx, hxs⟩, hys⟩

/-- Before an access, at it and behind it. -/
lemma Free.access (h : Free pins C latch W s) (hW : Calm W) (hW' : Calm W')
    (hG : C → Stretches pins s e)
    (hread : ∀ o, C → W (s.await pins e.before).outside.sclLow o →
      W' (s.await pins e.before).outside.sclLow
        (o.see ⟨!(s.await pins e.before).outside.sclLow,
          !(s.await pins e.before).outside.sdaLow⟩)) :
    Free pins C latch W s ∧ Free pins C latch W (s.await pins e.before) ∧
      Free pins C latch W' (((s.await pins e.before).look pins).await pins e.behind) := by
  have hstretch := fun hC => @stretching_append pins s _ _ (hG hC h.sclDir)
  have hu := h.await hW fun hC => (hstretch hC).1
  have hlook : Free pins C latch W' ((s.await pins e.before).look pins) :=
    hu.becomes ⟨rfl, rfl⟩ rfl hread
  exact ⟨h, hu, hlook.await hW' fun hC => (hstretch hC).2⟩

lemma calm_begun_true : Calm (Begun fun _ => True) := calm_begun fun _ _ _ => trivial

/-- Where SCL is high the first clock has begun. -/
lemma Free.readscl (h : Free pins C latch Held s) (hG : C → Stretches pins s e) :
    Free pins C latch (if (operate pins (.get .scl) e s).1 then Begun fun _ => True else Held)
      (operate pins (.get .scl) e s).2 := by
  obtain ⟨-, hu, ht⟩ := h.access calm_held calm_held hG
    fun o _ ho => calm_held _ _ _ _ ho id
  have hbit : (operate pins (.get .scl) e s).1 = !(s.await pins e.before).outside.sclLow := by
    refine (gpioin_scl _).trans ?_
    rw [hu.level]
  rw [hbit]
  split_ifs with hhigh
  · have hlow : (s.await pins e.before).outside.sclLow = false := by simpa using hhigh
    refine (h.access calm_held calm_begun_true hG ?_).2.2
    rw [hlow]
    rintro o - (⟨h, -⟩ | ⟨-, c, rfl⟩)
    · cases h
    · exact ⟨rfl, _, rfl, trivial⟩
  · exact ht

/-- The level that `readsda` returns is one of the first clock. -/
lemma Free.readsda (h : Free pins C latch (Begun fun _ => True) s)
    (hG : C → Stretches pins s e) :
    Free pins C latch (Begun fun c => (operate pins (.get .sda) e s).1 ∈ c)
      (operate pins (.get .sda) e s).2 := by
  have hcalm : ∀ b : Bool, Calm (Begun fun c => b ∈ c) :=
    fun b => calm_begun fun c _ hc => List.mem_append_left _ hc
  have hu := (h.access calm_begun_true calm_begun_true hG
    fun o _ ho => calm_begun_true _ _ _ _ ho id).2.1
  have hbit : (operate pins (.get .sda) e s).1 = !(s.await pins e.before).outside.sdaLow := by
    refine (gpioin_sda _).trans ?_
    rw [hu.level]
  have ht := (h.access calm_begun_true (hcalm (operate pins (.get .sda) e s).1) hG ?_).2.2
  · exact ⟨ht.sclDir, ht.sclOut, ht.sdaDir, ht.seen⟩
  · rw [hbit]
    rintro o - ⟨hlow, c, rfl, -⟩
    rw [hlow]
    exact ⟨rfl, _, rfl, by simp⟩

/-- The master lets go of SCL, which it has driven low. -/
lemma Clocked.setscldir (h : Clocked pins scl none Blank s) (hC : C → scl = false) :
    Free pins C scl Held (operate pins (.dir .scl false) e s).2 := by
  have hu := h.await steady_blank e.before
  have ht := (hu.look steady_blank).await steady_blank e.behind
  obtain ⟨cs, hseen, rfl, -⟩ := ht.seen
  have hsclDir : (operate pins (.dir .scl false) e s).2.dir.getLsbD pins.scl = false :=
    scl_put_scl _ _
  have hsdaDir : (operate pins (.dir .scl false) e s).2.dir.getLsbD pins.sda = false :=
    (sda_put_scl _ _).trans hu.sdaDir
  have hlevel : (operate pins (.dir .scl false) e s).2.level pins =
      ⟨!(operate pins (.dir .scl false) e s).2.outside.sclLow,
        !(operate pins (.dir .scl false) e s).2.outside.sdaLow⟩ := by
    rw [Port.level, hsclDir, hsdaDir]
    rfl
  refine ⟨hsclDir, ht.sclOut, hsdaDir, _, hseen.snoc _, fun hC' => ?_⟩
  obtain rfl := hC hC'
  change Held _ (Scope.see _ ((operate pins (.dir .scl false) e s).2.level pins))
  rw [hlevel]
  cases (operate pins (.dir .scl false) e s).2.outside.sclLow with
  | true => exact .inl ⟨rfl, rfl⟩
  | false => exact .inr ⟨rfl, _, rfl⟩

/-- The master drives SCL again, which is low as it has left it. -/
lemma Free.setscldir {P : List Bool → Prop} (h : Free pins C scl (Begun P) s)
    (hP : ∀ c b, P c → P (c ++ [b])) (hC : C → scl = false) (hG : C → Stretches pins s e) :
    Clocked pins scl none (fun cs _ => C → ∃ c, cs = [c] ∧ P c)
      (operate pins (.dir .scl true) e s).2 := by
  obtain ⟨-, hu, ht⟩ := h.access (calm_begun hP) (calm_begun hP) hG
    fun o _ ho => calm_begun hP _ _ _ _ ho id
  obtain ⟨o, hseen, ho⟩ := ht.seen
  have hdrives : Drives pins scl none (operate pins (.dir .scl true) e s).2 :=
    ⟨scl_put_scl _ _, ht.sclOut, (sda_put_scl _ _).trans hu.sdaDir, by simp⟩
  have hsee : Seen (operate pins (.dir .scl true) e s).2.levels
      (o.see ((operate pins (.dir .scl true) e s).2.level pins)) := hseen.snoc _
  rw [hdrives.level, see_eq] at hsee
  refine ⟨hdrives, _, hsee, fun hC' => ?_⟩
  obtain rfl := hC hC'
  obtain ⟨-, c, rfl, hc⟩ := ho hC'
  exact ⟨c, rfl, hc⟩

lemma waitScl_triple (hG : ∀ s e, G s e → C → Stretches pins s e) (polls : ℕ) :
    Prog.Triple (operate pins) G (Free pins C latch Held) (waitScl polls)
      fun ready => Free pins C latch (if ready then Begun fun _ => True else Held) := by
  induction polls with
  | zero => exact Prog.triple_ret fun _ h => h
  | succ polls ih =>
    let Polled (scl : Bool) : Port → Prop :=
      Free pins C latch (if scl then Begun fun _ => True else Held)
    refine Prog.Triple.bind (R := Polled) ?_ fun b => ?_
    · exact Prog.triple_call Polled (fun s e h hGe => h.readscl (hG s e hGe))
        fun b => Prog.triple_ret fun _ h => h
    · cases b with
      | true => exact Prog.triple_ret fun _ h => h
      | false => exact ih

/-! ### Reading -/

/-- The clocks have these levels. -/
def Got (pre : List Bool) (cs : List (List Bool)) : Prop := List.Forall₂ (· ∈ ·) pre.reverse cs

lemma Got.extend {pre : List Bool} {cs : List (List Bool)} (h : Got pre cs) (b : Bool) :
    Got pre (extend cs b) := by
  rw [Got] at h ⊢
  generalize pre.reverse = bs at h ⊢
  cases h with
  | nil => exact .nil
  | cons hc hcs => exact .cons (List.mem_append_left _ hc) hcs

lemma steady_got {pre : List Bool} : Steady scl none fun cs _ => C → Got pre cs :=
  steady_of_extend fun _ _ b _ hcs hC => (hcs hC).extend b

/-- These are the bits of `ch` so far, the most significant one first. -/
def Bits (pre : List Bool) (ch : BitVec 8) : Prop :=
  ∀ i < 8, ch.getLsbD (7 - i) = (pre[i]?).getD false

lemma Bits.snoc {pre : List Bool} {ch : BitVec 8} (h : Bits pre ch) (hlen : pre.length < 8)
    (b : Bool) :
    Bits (pre ++ [b]) (ch ||| if b then BitVec.twoPow 8 (7 - pre.length) else 0) := by
  intro i hi
  have hbit : (if b then BitVec.twoPow 8 (7 - pre.length) else 0).getLsbD (7 - i) =
      (b && decide (i = pre.length)) := by
    cases b with
    | false => simp
    | true =>
      rw [if_pos rfl, BitVec.getLsbD_twoPow, Bool.true_and, decide_eq_true (by omega : _ < 8),
        Bool.true_and, decide_eq_decide]
      omega
  rw [BitVec.getLsbD_or, h i hi, hbit]
  obtain hlt | rfl | hgt := Nat.lt_trichotomy i pre.length
  · rw [List.getElem?_append_left hlt, decide_eq_false (by omega), Bool.and_false, Bool.or_false]
  · simp
  · have hnone : pre[i]? = none := List.getElem?_eq_none hgt.le
    have hnone' : (pre ++ [b])[i]? = none := List.getElem?_eq_none (by simp; omega)
    rw [hnone, hnone', decide_eq_false (by omega), Bool.and_false, Bool.or_false]

lemma Bits.eq_bits {pre : List Bool} {ch : BitVec 8} (h : Bits pre ch) (hlen : pre.length = 8) :
    bits ch = pre := by
  refine List.ext_getElem (by simp [bits, hlen]) fun i hi hi' => ?_
  have hlt : i < 8 := hlen ▸ hi'
  simp [bits, h i hlt, List.getElem?_eq_getElem hi']

/-- One more bit. -/
lemma readBit_triple {pre : List Bool} {ch : BitVec 8} (hbits : Bits pre ch)
    (hlen : pre.length < 8) :
    Prog.Triple (operate pins) G (Clocked pins scl none fun cs _ => C → Got pre cs)
      (readBit ch pre.length)
      fun ch' s => ∃ pre', pre'.length = pre.length + 1 ∧ Bits pre' ch' ∧
        Clocked pins true none (fun cs _ => C → Got pre' cs) s := by
  -- in the clock that has begun
  let Next (cs : List (List Bool)) (_ : List Sample) : Prop :=
    C → ∃ c cs', cs = c :: cs' ∧ Got pre cs'
  have hnext : Steady true none Next := by
    refine steady_of_extend fun cs ss b _ hcs hC => ?_
    obtain ⟨c, cs', rfl, hgot⟩ := hcs hC
    exact ⟨_, cs', rfl, hgot⟩
  have hrise : ∀ cs ss b, (∀ b' ∈ none, b = b') → (C → Got pre cs) → Next ([b] :: cs) ss :=
    fun cs ss b _ hcs hC => ⟨_, cs, rfl, hcs hC⟩
  have hsample : Prog.Triple (operate pins) G (Clocked pins true none Next) readsda
      fun b => Clocked pins true none fun cs _ => C → Got (pre ++ [b]) cs := by
    refine readsda_triple hnext ?_ fun b => steady_got
    intro cs ss x _ hcs hC
    obtain ⟨c, cs', rfl, hgot⟩ := hcs hC
    rw [Got, List.reverse_append, List.reverse_singleton, List.singleton_append]
    exact .cons (by simp) hgot
  exact (setscl_low steady_got).bind fun _ => (setscl_high hrise).bind fun _ =>
    hsample.bind fun b => Prog.triple_ret fun s h => ⟨pre ++ [b], by simp, hbits.snoc hlen b, h⟩

lemma readBits_triple {ch : BitVec 8} {b : Bool} (hbits : Bits [b] ch) :
    Prog.Triple (operate pins) G (Clocked pins scl none fun cs _ => C → Got [b] cs)
      ((List.range' 1 7).foldlM readBit ch)
      fun ch' s => ∃ h, Clocked pins h none (fun cs _ => C → Got (bits ch') cs) s := by
  let I (idx : List ℕ) (ch : BitVec 8) (s : Port) : Prop :=
    ∃ pre h, (pre.length = idx.length + 1 ∧ Bits pre ch) ∧
      Clocked pins h none (fun cs _ => C → Got pre cs) s
  refine (Prog.triple_foldlM (I := I) fun idx i post ch hl => ?_).consequence ?_ ?_
  · refine Prog.triple_exists fun pre => Prog.triple_exists fun h => ?_
    rintro s es ch' t ⟨⟨hlen, hbits⟩, hs⟩ hG hends
    have hidx : idx.length < 7 := by
      have hlength := congrArg List.length hl
      simp at hlength
      omega
    have hi : i = pre.length := by
      have hget := congrArg (·[idx.length]?) hl
      simp [hidx] at hget
      omega
    rw [hi] at hG hends
    obtain ⟨pre', hlen', hbits', hs'⟩ :=
      readBit_triple hbits (by omega) s es ch' t hs hG hends
    exact ⟨pre', _, ⟨by simp [hlen', hlen], hbits'⟩, hs'⟩
  · exact fun s hs => ⟨[b], _, ⟨rfl, hbits⟩, hs⟩
  · rintro ch' s ⟨pre, h, ⟨hlen, hbits'⟩, hs⟩
    rw [← hbits'.eq_bits (by simpa using hlen)] at hs
    exact ⟨h, hs⟩

/-- The clock in which the byte is acknowledged, or not. -/
def Answered (stop : ℤ) (ch : BitVec 8) (cs : List (List Bool)) : Prop :=
  ∃ c cs', cs = c :: cs' ∧ (c ≠ [] ∧ ∀ sda ∈ c, sda = decide (stop ≠ 0)) ∧ Got (bits ch) cs'

lemma Answered.extend {stop : ℤ} {ch : BitVec 8} {cs : List (List Bool)}
    (h : Answered stop ch cs) : Answered stop ch (extend cs (decide (stop ≠ 0))) := by
  obtain ⟨c, cs', rfl, ⟨-, hc⟩, hgot⟩ := h
  refine ⟨_, cs', rfl, ⟨by simp, fun sda hsda => ?_⟩, hgot⟩
  rcases List.mem_append.mp hsda with hsda | hsda
  · exact hc sda hsda
  · exact List.mem_singleton.mp hsda

/-- The clocks of an `i2c_read` that has come to its end. -/
def Taken (stop : ℤ) (ch : BitVec 8) (cs : List (List Bool)) : Prop :=
  ∃ rest cs', cs = rest ++ cs' ∧ rest.length = (if stop ≠ 0 then 1 else 0) ∧ Answered stop ch cs'

lemma receive_triple (hG : ∀ s e, G s e → C → Stretches pins s e) (hC : C → scl = false)
    (stop : ℤ) :
    Prog.Triple (operate pins) G (Free pins C scl (Begun fun _ => True)) (receive stop)
      fun ch s => ∃ h b, Clocked pins h (some b) (fun cs _ => C → Taken stop ch cs) s := by
  let First (b : Bool) : Port → Prop := Free pins C scl (Begun (b ∈ ·))
  refine Prog.Triple.bind (R := First) ?_ fun b => ?_
  · exact Prog.triple_call First (fun s e h hGe => h.readsda (hG s e hGe))
      fun b => Prog.triple_ret fun _ h => h
  have hfirst : Bits [b] (if b then BitVec.twoPow 8 7 else 0) := by
    rw [Bits]
    cases b <;> decide
  have hdrive : Prog.Triple (operate pins) G (First b) (setscldir true)
      fun _ => Clocked pins scl none fun cs _ => C → Got [b] cs := by
    refine triple_perform fun s e h hGe => ?_
    refine (h.setscldir (fun c _ hc => List.mem_append_left _ hc) hC (hG s e hGe)).mono ?_
    rintro cs ss hcs hC'
    obtain ⟨c, rfl, hc⟩ := hcs hC'
    exact .cons hc .nil
  refine hdrive.bind fun _ => (readBits_triple hfirst).bind fun ch => ?_
  refine Prog.triple_exists fun h => ?_
  refine (setscl_low steady_got).bind fun _ => (setdir_out steady_low).bind fun _ => ?_
  refine Prog.triple_exists fun b' => ?_
  refine (setsda_triple steady_low (decide (stop ≠ 0))).bind fun _ => ?_
  -- the clock of the acknowledgement
  have hrise : ∀ cs (ss : List Sample) b, (∀ b' ∈ some (decide (stop ≠ 0)), b = b') →
      (C → Got (bits ch) cs) → C → Answered stop ch ([b] :: cs) := by
    rintro cs ss b hb hcs hC'
    obtain rfl := hb _ rfl
    exact ⟨_, cs, rfl, by simp, hcs hC'⟩
  have hanswered : Steady true (some (decide (stop ≠ 0))) fun cs _ => C → Answered stop ch cs := by
    refine steady_of_extend fun cs ss b hb hcs hC' => ?_
    obtain rfl := hb _ rfl
    exact (hcs hC').extend
  refine (setscl_high hrise).bind fun _ => (setscl_low hanswered).bind fun _ => ?_
  split_ifs with hstop
  · have hstopRise : ∀ cs (ss : List Sample) b, (∀ b' ∈ some (decide (stop ≠ 0)), b = b') →
        (C → Answered stop ch cs) → C → Taken stop ch ([b] :: cs) :=
      fun cs ss b _ hcs hC' => ⟨[[b]], cs, rfl, by rw [if_pos hstop]; rfl, hcs hC'⟩
    have htaken : Steady true none fun cs _ => C → Taken stop ch cs := by
      refine steady_of_extend fun cs ss b _ hcs hC' => ?_
      obtain ⟨rest, cs', rfl, hlen, hdone⟩ := hcs hC'
      rw [if_pos hstop] at hlen
      obtain ⟨c, rfl⟩ := List.length_eq_one_iff.mp hlen
      exact ⟨[c ++ [b]], cs', rfl, by rw [if_pos hstop]; rfl, hdone⟩
    exact (setscl_high hstopRise).bind fun _ => (setsda_triple htaken true).bind fun _ =>
      Prog.triple_ret fun s h => ⟨_, _, h⟩
  · exact Prog.triple_ret fun s h => ⟨_, _, h.mono fun cs ss hcs hC' =>
      ⟨[], cs, rfl, by rw [if_neg hstop]; rfl, hcs hC'⟩⟩

/-- `i2c_read`, about whose clocks something is known if SCL is low before. -/
lemma i2cRead_triple (hG : ∀ s e, G s e → C → Stretches pins s e) (hC : C → scl = false)
    (stop : ℤ) (polls : ℕ) :
    Prog.Triple (operate pins) G (Clocked pins scl sda Blank) (i2cRead stop polls)
      fun res s => ∀ ch, res = some ch →
        ∃ h b, Clocked pins h (some b) (fun cs _ => C → Taken stop ch cs) s := by
  have hlet : Prog.Triple (operate pins) G (Clocked pins scl none Blank) (setscldir false)
      fun _ => Free pins C scl Held := triple_perform fun _ _ h _ => h.setscldir hC
  refine (setdir_in steady_blank).bind fun _ => hlet.bind fun _ =>
    (waitScl_triple hG polls).bind fun ready => ?_
  cases ready with
  | false =>
    refine Prog.triple_ret fun s _ ch h => ?_
    cases h
  | true =>
    refine (receive_triple hG hC stop).bind fun ch => Prog.triple_ret fun s h ch' hch => ?_
    obtain rfl := Option.some.inj hch
    exact h

lemma received_of_taken {stop : ℤ} {ch : BitVec 8}
    (h : Clocked pins scl sda (fun cs _ => Taken stop ch cs) s) :
    ∃ data ack rest, Received stop ch s data ack rest := by
  obtain ⟨_, hseen, rest, _, rfl, hlen, c, cs', rfl, hack, hgot⟩ := h.seen
  refine ⟨cs'.reverse, c, rest.reverse, ?_, ?_, hack, ?_⟩
  · rw [hseen.clocks, List.reverse_append, List.reverse_cons, List.append_assoc,
      List.singleton_append]
  · rw [← List.forall₂_reverse_iff, List.reverse_reverse]
    exact hgot
  · rw [List.length_reverse, hlen]

/-! ### Runs -/

/-- A call begins, with SCL driven. -/
lemma clocked_begin (h : s.dir.getLsbD pins.scl = true) :
    ∃ sda, Clocked pins (s.level pins).scl sda Blank (s.begin pins) := by
  have hscl : (s.level pins).scl = s.out.getLsbD pins.scl := by rw [Port.level, h, if_pos rfl]
  refine ⟨if s.dir.getLsbD pins.sda then some (s.out.getLsbD pins.sda) else none,
    ⟨h, hscl.symm, ?_, ?_⟩, [], ⟨_, [], rfl, rfl⟩, rfl, rfl⟩
  · split_ifs with hsda
    · exact hsda
    · simpa [Port.begin] using hsda
  · intro b hb
    split_ifs at hb with hsda
    · exact Option.some.inj hb
    · cases hb

lemma i2cInit_triple :
    Prog.Triple (operate pins) (fun _ _ => True) (fun _ => True) i2cInit
      fun _ s => s.dir.getLsbD pins.scl = true := by
  let D (s : Port) : Prop := s.dir.getLsbD pins.scl = true
  have hset : ∀ line v, Prog.Triple (operate pins) (fun _ _ => True) D (perform (.set line v))
      fun _ => D := fun line v => triple_perform fun s e h _ => by simpa [operate, D] using h
  have hsda : Prog.Triple (operate pins) (fun _ _ => True) D (setdir true) fun _ => D := by
    refine triple_perform fun s e h _ => ?_
    refine (scl_put_sda _ _).trans ?_
    rwa [Port.await_dir]
  have hscl : Prog.Triple (operate pins) (fun _ _ => True) (fun _ => True) (setscldir true)
      fun _ => D := triple_perform fun _ _ _ _ => scl_put_scl _ _
  exact (triple_perform fun _ _ _ _ => trivial).bind fun _ => hscl.bind fun _ =>
    (hset .scl true).bind fun _ => hsda.bind fun _ => hset .sda true

lemma throughout_true {α : Type} {m : Port × Program α} {es : List Moves} :
    Throughout (Prog.step (operate pins)) (fun _ _ => True) m es :=
  throughout_of_forall fun _ _ _ _ _ _ _ _ _ => trivial

/-- Between calls SCL is driven. -/
lemma AfterInit.sclDir (h : AfterInit pins s) : s.dir.getLsbD pins.scl = true := by
  induction h with
  | init h => exact i2cInit_triple _ _ _ _ trivial throughout_true h
  | write hs h ih =>
    obtain ⟨sda, hbegin⟩ := clocked_begin ih
    obtain ⟨_, _, hclocked⟩ := i2cWrite_triple (G := fun _ _ => True) _ _ _ _ _ _ _ hbegin
      throughout_true h
    exact hclocked.sclDir
  | read hs h ih =>
    obtain ⟨sda, hbegin⟩ := clocked_begin ih
    obtain ⟨_, _, hclocked⟩ := i2cRead_triple (C := False) (G := fun _ _ => True)
      (fun _ _ _ => False.elim) False.elim _ _ _ _ _ _ hbegin throughout_true h _ rfl
    exact hclocked.sclDir

lemma outside_await (s : Port) (xs : List Outside) :
    (s.await pins xs).outside = xs.getLastD s.outside := by
  induction xs generalizing s with
  | nil => rfl
  | cons x xs ih =>
    rw [List.getLastD_cons]
    exact ih (s.move pins x)

lemma outside_operate (o : Op) (e : Moves) (s : Port) :
    (operate pins o e s).2.outside = (e.before ++ e.behind).getLastD s.outside := by
  have ht : (((s.await pins e.before).look pins).await pins e.behind).outside =
      (e.before ++ e.behind).getLastD s.outside := by
    rw [outside_await, Port.look, outside_await]
    simp only [List.getLastD_eq_getLast?, List.getLast?_append, Option.getD_or]
  cases o with
  | ctl | dir | set => exact ht
  | get line => cases line <;> exact ht

lemma outsideAt_succ (o : Op) (s : Port) (f : ℕ → Moves) (n : ℕ) :
    outsideAt (operate pins o (f 0) s).2 (fun i => f (i + 1)) n = outsideAt s f (n + 1) := by
  rw [outsideAt, outsideAt, Prog.upTo_succ, List.flatMap_cons, List.append_assoc,
    outside_operate, List.getLastD_eq_getLast?, List.getLastD_eq_getLast?,
    List.getLastD_eq_getLast?, ← Option.getD_or, ← List.getLast?_append]

/-- A poll that finds SCL high is the last one. -/
lemma ends_waitScl {n : ℕ} {f : ℕ → Moves}
    (h : (operate pins (.get .scl) (f 0) s).1 = true) :
    Prog.Ends (operate pins) (waitScl (n + 1)) s (Prog.upTo f 1) true
      (operate pins (.get .scl) (f 0) s).2 := by
  refine Prog.ends_call_upTo ?_
  rw [h]
  exact Prog.ends_ret.mpr ⟨rfl, rfl, rfl⟩

/-- The loop ends where the slave does not hold SCL. -/
lemma exists_ends_waitScl {n : ℕ} {f : ℕ → Moves} (hdir : s.dir.getLsbD pins.scl = false)
    (h : (outsideAt s f n).sclLow = false) :
    ∃ m t, Prog.Ends (operate pins) (waitScl (n + 1)) s (Prog.upTo f m) true t := by
  induction n generalizing s f with
  | zero =>
    refine ⟨1, _, ends_waitScl ?_⟩
    refine (gpioin_scl _).trans ?_
    rw [Port.level, Port.await_dir, hdir, outside_await]
    simpa [outsideAt, Prog.upTo] using h
  | succ n ih =>
    cases hbit : (operate pins (.get .scl) (f 0) s).1 with
    | true => exact ⟨1, _, ends_waitScl hbit⟩
    | false =>
      have hdir' : (operate pins (.get .scl) (f 0) s).2.dir.getLsbD pins.scl = false := by
        simpa [operate] using hdir
      rw [← @outsideAt_succ pins (.get .scl)] at h
      obtain ⟨m, t, hends⟩ := ih hdir' h
      refine ⟨m + 1, t, Prog.ends_call_upTo ?_⟩
      rw [hbit]
      exact hends

/-- So does `i2c_read`. -/
lemma exists_ends_i2cRead (stop : ℤ) {f : ℕ → Moves}
    (h : ∃ n, (outsideAt s f (n + 2)).sclLow = false) :
    ∃ polls n ch t,
      Prog.Ends (operate pins) (i2cRead stop polls) s (Prog.upTo f n) (some ch) t := by
  obtain ⟨n, h⟩ := h
  rw [← @outsideAt_succ pins (.dir .sda false), ← @outsideAt_succ pins (.dir .scl false)] at h
  have hdir : (operate pins (.dir .scl false) (f 1)
      (operate pins (.dir .sda false) (f 0) s).2).2.dir.getLsbD pins.scl = false :=
    scl_put_scl _ _
  obtain ⟨m, u, hwait⟩ := exists_ends_waitScl hdir h
  obtain ⟨k, ch, v, hreceive⟩ := Prog.exists_ends (operate pins) (receive stop) u
    fun i => f (i + m + 1 + 1)
  have hsome : ∃ k res t, Prog.Ends (operate pins)
      (receive stop >>= fun ch => pure (some ch)) u (Prog.upTo (fun i => f (i + m + 1 + 1)) k)
        res t ∧ ∃ ch, res = some ch :=
    Prog.exists_ends_bind hreceive ⟨0, _, _, Prog.ends_ret.mpr ⟨rfl, rfl, rfl⟩, ch, rfl⟩
  obtain ⟨l, _, t, hends, ch, rfl⟩ := Prog.exists_ends_bind (f := fun i => f (i + 1 + 1))
    (g := fun ready => if ready then receive stop >>= fun ch => pure (some ch) else pure none)
    hwait hsome
  exact ⟨n + 1, l + 1 + 1, ch, t, Prog.ends_call_upTo (Prog.ends_call_upTo hends)⟩

/-! ### Main result -/

/-- After `i2c_init` and any calls: `i2c_write` raises SCL nine times before its stop sequence, of
which eight have the bits of the byte on SDA; in the ninth one it samples SDA until the slave pulls
it, 1000 times at most, and its result is whether the slave has; and `i2c_read`, entered with SCL
low, returns the byte that SDA shows in eight clocks, and pulls SDA in the ninth one if it is not to
stop. -/
theorem transfer_correct (h : AfterInit pins s) :
    WriteCorrect pins s ∧ ((s.level pins).scl = false → ReadCorrect pins s) := by
  obtain ⟨sda, hbegin⟩ := clocked_begin h.sclDir
  refine ⟨fun ch start stop => ⟨fun f => ?_, fun es res t hends => ?_⟩,
    fun hlow stop => ⟨fun f hf => ?_, fun polls es ch t hG hends => ?_⟩⟩
  · exact Prog.exists_ends (operate pins) _ _ f
  · obtain ⟨_, _, hdone⟩ :=
      i2cWrite_triple (G := fun _ _ => True) _ _ _ _ _ _ _ hbegin throughout_true hends
    exact written_of_done hdone
  · exact exists_ends_i2cRead (s := s.begin pins) stop hf
  · obtain ⟨_, _, htaken⟩ := i2cRead_triple (C := True) (fun _ _ hs _ => hs) (fun _ => hlow) stop
      polls _ _ _ _ hbegin hG hends ch rfl
    exact received_of_taken (htaken.mono fun _ _ hcs => hcs trivial)

/-- The slave lets go of SDA before an `i2c_write`, and pulls it before the second sample. -/
def acknowledged : List Moves :=
  ⟨[⟨false, false, 0⟩], []⟩ :: List.replicate 29 ⟨[], []⟩ ++ [⟨[⟨true, false, 0⟩], []⟩, ⟨[], []⟩]

set_option maxRecDepth 4000 in
/-- Between an acknowledged byte and the next one, which is acknowledged too. -/
lemma afterInit_acknowledged :
    ∃ s t, AfterInit firstPins s ∧ (s.level firstPins).scl = false ∧
      Prog.Ends (operate firstPins) (i2cWrite 0x5a 1 0) (s.begin firstPins) acknowledged true t ∧
      t.samples.map Sample.low = [false, true] := by
  have hinit := @AfterInit.init firstPins (inputs 0) _ (List.replicate 5 ⟨[], []⟩) rfl
  have hwrite := @AfterInit.write firstPins _ _ 0xa0 1 0 _ acknowledged hinit rfl
  exact ⟨_, _, hwrite, by decide +kernel, rfl, by decide +kernel⟩

/-- `i2c_write` returns 1 for the slave that acknowledges. -/
theorem transfer_correct_acknowledged :
    ∃ s t data ack rest, (s.level firstPins).scl = false ∧ ReadCorrect firstPins s ∧
      Prog.Ends (operate firstPins) (i2cWrite 0x5a 1 0) (s.begin firstPins) acknowledged true t ∧
      Written 0x5a 0 true t data ack rest ∧ t.samples.map Sample.low = [false, true] := by
  obtain ⟨s, t, h, hlow, hends, hsamples⟩ := afterInit_acknowledged
  obtain ⟨hwrite, hread⟩ := transfer_correct h
  obtain ⟨data, ack, rest, hwritten⟩ := (hwrite 0x5a 1 0).2 _ _ _ hends
  exact ⟨s, t, data, ack, rest, hlow, hread hlow, hends, hwritten, hsamples⟩

end BcmMruby.I2c.Program
