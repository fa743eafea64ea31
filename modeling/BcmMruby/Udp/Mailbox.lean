import Mathlib.Data.List.TakeWhile
import BcmMruby.Core.Bytes
import BcmMruby.Core.Run

/-!
# The UDP mailbox

`udpecho_raw_recv` puts a datagram into `udpbuff` and a 0 behind it, and `rtl_udp_recv` takes it out
as a string. There is nothing else that says how long the datagram is or whether there is one. The
reader looks at the first byte before it masks interrupts, so a datagram can come in between. The
state keeps the datagrams that have come since the previous call.
-/

namespace BcmMruby.Udp

open Core

/-- `sizeof(udpbuff)`. -/
def udpbuffSize : ℕ := 1024

def addressSpace : ℕ := 2 ^ 32

/-- The stores of `udpecho_raw_recv`: where, and what. -/
def udpechoStores (p : List Byte) : List (ℕ × List Byte) := [(0, p), (p.length, [0])]

def udpechoRawRecv (udpbuff : ℕ → Byte) : Option (List Byte) → ℕ → Byte
  | some p => (udpechoStores p).foldl (fun m st => store m st.1 st.2) udpbuff
  | none => udpbuff

/-- `rtl_udp_recv` between `cli()` and `sti()`: the result, the bytes copied, and `udpbuff`. -/
def recvSection (udpbuff : ℕ → Byte) (len : ℕ) : ℕ × List Byte × (ℕ → Byte) :=
  let udplen := strlen udpbuff addressSpace 0
  let rlen := if udplen > len then len else udplen
  (rlen, load udpbuff 0 rlen, store udpbuff 0 [0])

def rtlUdpRecv (udpbuff : ℕ → Byte) (len : ℕ) : ℕ × List Byte × (ℕ → Byte) :=
  if udpbuff 0 ≠ 0 then recvSection udpbuff len else (0, [], udpbuff)

/-- `rtl_udp_bind`. -/
def rtlUdpBind (udpbuff : ℕ → Byte) : ℕ → Byte := store udpbuff 0 [0]

/-! ### Runs -/

/-- Where the main program is: elsewhere, or in `rtl_udp_recv` before `cli()`. -/
inductive Pc where
  | idle
  | lock (len : ℕ)
  deriving DecidableEq

/-- A call that has returned. -/
structure Call where
  len : ℕ
  res : ℕ
  copied : List Byte
  /-- The datagrams since the previous call, the latest one first. -/
  since : List (List Byte)
  deriving DecidableEq

structure State where
  udpbuff : ℕ → Byte
  pc : Pc
  /-- What `udpecho_raw_recv` has stored, and where. -/
  stores : List (ℕ × List Byte)
  since : List (List Byte)
  calls : List Call

def init (udpbuff : ℕ → Byte) : State := ⟨rtlUdpBind udpbuff, .idle, [], [], []⟩

inductive Event where
  /-- The interrupt passes a pbuf to `udpecho_raw_recv`. -/
  | datagram (p : Option (List Byte))
  /-- The main program calls `rtl_udp_recv`, which looks at the first byte. -/
  | call (len : ℕ)
  | main

def State.finish (s : State) (len : ℕ) (r : ℕ × List Byte × (ℕ → Byte)) : State :=
  { s with
    udpbuff := r.2.2
    pc := .idle
    since := []
    calls := ⟨len, r.1, r.2.1, s.since⟩ :: s.calls }

def step (s : State) : Event → Option State
  | .datagram p =>
    some { s with
      udpbuff := udpechoRawRecv s.udpbuff p
      stores := s.stores ++ p.elim [] udpechoStores
      since := p.elim s.since (· :: s.since) }
  | .call len =>
    match s.pc with
    | .idle =>
      some (if s.udpbuff 0 ≠ 0 then { s with pc := .lock len }
        else s.finish len (0, [], s.udpbuff))
    | .lock _ => none
  | .main =>
    match s.pc with
    | .idle => none
    | .lock len => some (s.finish len (recvSection s.udpbuff len))

/-- What a call has to copy: the first `len` bytes of the latest datagram that is not empty. -/
def expected (len : ℕ) (since : List (List Byte)) : List Byte :=
  ((since.find? (· ≠ [])).getD []).take len

/-- The stores are inside `udpbuff`, and the calls have copied what they have to. -/
structure Sound (s : State) : Prop where
  inside : ∀ st ∈ s.stores, st.1 + st.2.length ≤ udpbuffSize
  calls : ∀ c ∈ s.calls, c.res = c.copied.length ∧ c.copied = expected c.len c.since

/-- No empty datagram has come behind the one that is to be copied, and there is no 0 in the part
of it that is. -/
def Text (len : ℕ) (since : List (List Byte)) : Prop :=
  ∀ d, since.find? (· ≠ []) = some d → 0 < len → since.head? = some d ∧ 0 ∉ d.take len

/-- Datagrams fit in `udpbuff` with their 0; calls return when the datagrams are text. -/
def Good (s : State) : Event → Prop
  | .datagram p => ∀ d, p = some d → d.length < udpbuffSize
  | .call len => s.udpbuff 0 = 0 → Text len s.since
  | .main => ∀ len, s.pc = .lock len → Text len s.since

/-- Left alone, the steps make up the function of the source. -/
lemma run_rtlUdpRecv {s : State} (hs : s.pc = .idle) (len : ℕ) :
    ∃ es, run step s (.call len :: es) = some (s.finish len (rtlUdpRecv s.udpbuff len)) := by
  by_cases h : s.udpbuff 0 ≠ 0
  · refine ⟨[.main], ?_⟩
    rw [run_cons, step, hs, if_pos h, Option.bind_some, rtlUdpRecv, if_pos h]
    rfl
  · refine ⟨[], ?_⟩
    rw [run_cons, step, hs, if_neg h, Option.bind_some, rtlUdpRecv, if_neg h]
    rfl

/-! ### The string -/

/-- What the reader finds is what it has to copy if and only if the datagrams are text. -/
lemma taken_eq_expected_iff (len : ℕ) (since : List (List Byte)) :
    ((since.headD []).takeWhile (· ≠ 0)).take len = expected len since ↔ Text len since := by
  cases hfind : since.find? (· ≠ []) with
  | none =>
    have hnil : since.headD [] = [] := by
      cases since with
      | nil => rfl
      | cons d since => simpa using List.find?_eq_none.mp hfind d List.mem_cons_self
    rw [hnil, expected, hfind]
    simp only [Text, hfind]
    simp
  | some d =>
    have hd : d ≠ [] := by simpa using List.find?_some hfind
    obtain rfl | hlen := Nat.eq_zero_or_pos len
    · simp [Text, expected]
    simp only [expected, Text, hfind, Option.getD_some, Option.some.injEq, hlen, forall_const,
      forall_eq']
    constructor
    · intro heq
      have hne : d.take len ≠ [] := by
        rw [Ne, List.take_eq_nil_iff, not_or]
        exact ⟨hlen.ne', hd⟩
      cases since with
      | nil => simp at hfind
      | cons c since =>
        have hc : c ≠ [] := by
          rintro rfl
          exact hne (by simpa using heq.symm)
        have hcd : c = d := by simpa [hc] using hfind
        subst hcd
        refine ⟨rfl, fun hmem => ?_⟩
        rw [← heq, List.take_takeWhile] at hmem
        simpa using List.mem_takeWhile_imp hmem
    · rintro ⟨hhead, hnul⟩
      rw [List.headD_eq_head?_getD, hhead, Option.getD_some, List.take_takeWhile,
        List.takeWhile_eq_self_iff]
      intro x hx
      simpa using fun h : x = 0 => hnul (h ▸ hx)

/-- What the reader finds in `udpbuff`. -/
def found (len : ℕ) (since : List (List Byte)) : List Byte :=
  ((since.headD []).takeWhile (· ≠ 0)).take len

lemma recvSection_eq {m : ℕ → Byte} {since : List (List Byte)}
    (hfits : (since.headD []).length < udpbuffSize)
    (hholds : load m 0 ((since.headD []).length + 1) = since.headD [] ++ [0]) (len : ℕ) :
    recvSection m len = ((found len since).length, found len since, store m 0 [0]) := by
  let text := (since.headD []).takeWhile (· ≠ 0)
  have hfuel : (since.headD []).length < addressSpace := hfits.trans (by decide)
  have hstrlen : strlen m addressSpace 0 = text.length := strlen_eq hfuel hholds
  obtain ⟨rest, hrest⟩ : ∃ rest, text ++ rest = since.headD [] :=
    ⟨_, List.takeWhile_append_dropWhile⟩
  rw [← hrest, List.append_assoc] at hholds
  have hload : load m 0 text.length = text := (load_of_eq_append hholds).1
  have hrlen : (if text.length > len then len else text.length) = (found len since).length := by
    rw [found, List.length_take]
    show (if text.length > len then len else text.length) = min len text.length
    split_ifs <;> omega
  rw [recvSection, hstrlen, hrlen]
  refine Prod.ext rfl (Prod.ext ?_ rfl)
  show load m 0 (text.take len).length = text.take len
  rw [List.length_take, ← take_load m 0 (min_le_right len text.length), hload,
    List.take_eq_take_iff, min_assoc, min_self]

/-- A first byte of 0 means that there is no string. -/
lemma found_eq_nil {m : ℕ → Byte} {since : List (List Byte)}
    (hholds : load m 0 ((since.headD []).length + 1) = since.headD [] ++ [0]) (h0 : m 0 = 0)
    (len : ℕ) : found len since = [] := by
  rw [found]
  cases hc : since.headD [] with
  | nil => simp
  | cons c cs =>
    rw [hc] at hholds
    have hc0 : c = 0 := (List.cons.inj hholds).1.symm.trans h0
    simp [hc0]

/-! ### Steps -/

inductive Rule (s : State) : Event → State → Prop where
  | datagram (d : List Byte) :
      Rule s (.datagram (some d)) { s with
        udpbuff := store (store s.udpbuff 0 d) d.length [0]
        stores := s.stores ++ udpechoStores d
        since := d :: s.since }
  | null : Rule s (.datagram none) s
  | sees (len : ℕ) (hpc : s.pc = .idle) (hfirst : s.udpbuff 0 ≠ 0) :
      Rule s (.call len) { s with pc := .lock len }
  | empty (len : ℕ) (hpc : s.pc = .idle) (hfirst : s.udpbuff 0 = 0) :
      Rule s (.call len) (s.finish len (0, [], s.udpbuff))
  | takes (len : ℕ) (hpc : s.pc = .lock len) :
      Rule s .main (s.finish len (recvSection s.udpbuff len))

lemma Rule.of_step {s s' : State} {e : Event} (h : step s e = some s') : Rule s e s' := by
  cases e with
  | datagram p =>
    cases p with
    | none =>
      simp only [step, udpechoRawRecv, Option.elim_none, List.append_nil, Option.some.injEq] at h
      exact h ▸ .null
    | some d =>
      cases h
      exact .datagram d
  | call len =>
    simp only [step] at h
    cases hpc : s.pc with
    | idle =>
      rw [hpc] at h
      cases h
      split_ifs with hfirst
      · exact .sees len hpc hfirst
      · exact .empty len hpc (not_not.mp hfirst)
    | lock _ =>
      rw [hpc] at h
      cases h
  | main =>
    simp only [step] at h
    cases hpc : s.pc with
    | idle =>
      rw [hpc] at h
      cases h
    | lock len =>
      rw [hpc] at h
      cases h
      exact .takes len hpc

/-- The latest datagram is in `udpbuff` with its 0, or the 0 that the previous call has left. -/
structure Inv (s : State) : Prop where
  sound : Sound s
  fits : (s.since.headD []).length < udpbuffSize
  holds : load s.udpbuff 0 ((s.since.headD []).length + 1) = s.since.headD [] ++ [0]

lemma inv_init (udpbuff : ℕ → Byte) : Inv (init udpbuff) :=
  ⟨⟨nofun, nofun⟩, (by decide : 0 < udpbuffSize), rfl⟩

/-- A call that returns what the reader finds. -/
lemma Inv.finish {s : State} (h : Inv s) {len : ℕ} (htext : Text len s.since) {m : ℕ → Byte}
    (hm : m 0 = 0) : Inv (s.finish len ((found len s.since).length, found len s.since, m)) := by
  refine ⟨⟨h.sound.inside, ?_⟩, (by decide : 0 < udpbuffSize), ?_⟩
  · exact List.forall_mem_cons.mpr
      ⟨⟨rfl, (taken_eq_expected_iff len s.since).mpr htext⟩, h.sound.calls⟩
  · show [m 0] = [0]
    rw [hm]

/-- A step brings a datagram, or lets a call return with what the reader finds, or does nothing that
matters. -/
lemma Inv.step_cases {s s' : State} {e : Event} (h : Inv s) (hs : step s e = some s') :
    (∃ d, e = .datagram (some d) ∧ s' = { s with
        udpbuff := store (store s.udpbuff 0 d) d.length [0]
        stores := s.stores ++ udpechoStores d
        since := d :: s.since }) ∨
      (∃ len m, m 0 = 0 ∧ (Good s e ↔ Text len s.since) ∧
        s' = s.finish len ((found len s.since).length, found len s.since, m)) ∨
      Good s e ∧ Inv s' := by
  cases Rule.of_step hs with
  | datagram d => exact Or.inl ⟨d, rfl, rfl⟩
  | null => exact Or.inr (Or.inr ⟨nofun, h⟩)
  | sees len hpc hfirst =>
    refine Or.inr (Or.inr ⟨fun h0 => absurd h0 hfirst, ?_⟩)
    exact ⟨⟨h.sound.inside, h.sound.calls⟩, h.fits, h.holds⟩
  | empty len hpc hfirst =>
    refine Or.inr (Or.inl ⟨len, s.udpbuff, hfirst, ?_, ?_⟩)
    · exact ⟨fun hgood => hgood hfirst, fun htext _ => htext⟩
    · rw [found_eq_nil h.holds hfirst, List.length_nil]
  | takes len hpc =>
    refine Or.inr (Or.inl ⟨len, store s.udpbuff 0 [0], rfl, ?_, ?_⟩)
    · simp [Good, hpc]
    · rw [recvSection_eq h.fits h.holds]

lemma Inv.step {s s' : State} {e : Event} (h : Inv s) (hgood : Good s e)
    (hs : step s e = some s') : Inv s' := by
  rcases h.step_cases hs with ⟨d, rfl, rfl⟩ | ⟨len, m, hm, htext, rfl⟩ | ⟨-, hinv⟩
  · have hfits : d.length < udpbuffSize := hgood d rfl
    refine ⟨⟨?_, h.sound.calls⟩, hfits, ?_⟩
    · refine List.forall_mem_append.mpr ⟨h.sound.inside, ?_⟩
      simp only [udpechoStores, List.forall_mem_cons, List.length_singleton, Nat.zero_add]
      exact ⟨hfits.le, hfits, nofun⟩
    · have hcopied := load_store_append (store s.udpbuff 0 d) 0 d.length [0]
      rw [load_store_self, Nat.zero_add] at hcopied
      exact hcopied
  · exact h.finish (htext.mp hgood) hm
  · exact hinv

/-- The first step that is not good shows. -/
lemma Inv.good_of_sound {s s' : State} {e : Event} (h : Inv s) (hs : Udp.step s e = some s')
    (hsound : Sound s') : Good s e := by
  rcases h.step_cases hs with ⟨d, rfl, rfl⟩ | ⟨len, m, -, htext, rfl⟩ | ⟨hgood, -⟩
  · intro p hp
    cases hp
    exact hsound.inside (d.length, [0]) (by simp [udpechoStores])
  · have hcall := (hsound.calls _ List.mem_cons_self).2
    exact htext.mpr ((taken_eq_expected_iff len s.since).mp hcall)
  · exact hgood

/-! ### Main result -/

/-- Every store is inside `udpbuff` and every call returns the latest datagram, in exactly the runs
in which the datagrams fit and are text as far as they are read. -/
theorem mailbox_iff {udpbuff : ℕ → Byte} {es : List Event} {t : State}
    (hrun : run step (init udpbuff) es = some t) :
    Always step Sound (init udpbuff) es ↔ Throughout step Good (init udpbuff) es :=
  always_iff_throughout (L := fun _ => True) (fun _ h => h.sound)
    (fun _ _ _ h _ hgood hs => h.step hgood hs)
    (fun _ _ _ h _ hs hsound => h.good_of_sound hs hsound)
    (inv_init udpbuff) (fun _ _ => trivial) hrun

/-- A datagram that comes while a reader has seen the one before it. -/
theorem mailbox_iff_two :
    Always step Sound (init fun _ => 0)
      [.datagram (some [65]), .call 4, .datagram (some [66, 67]), .main] := by
  refine (mailbox_iff rfl).mpr ?_
  simp [Throughout, step, Good, Text, init, udpechoRawRecv, udpechoStores, store, udpbuffSize]

/-- Of three bytes with a 0 in the middle one is returned; the 0 behind 1024 bytes is stored behind
`udpbuff`. -/
theorem mailbox_loses :
    (∃ t, run step (init fun _ => 0) [.datagram (some [65, 0, 66]), .call 16, .main] = some t ∧
        t.calls = [⟨16, 1, [65], [[65, 0, 66]]⟩] ∧ ¬Sound t) ∧
      ∃ t, run step (init fun _ => 0) [.datagram (some (List.replicate 1024 65))] = some t ∧
        (1024, [0]) ∈ t.stores ∧ ¬Sound t := by
  constructor
  · have hrun : (run step (init fun _ => 0) [.datagram (some [65, 0, 66]), .call 16, .main]).map
        State.calls = some [⟨16, 1, [65], [[65, 0, 66]]⟩] := by decide
    obtain ⟨t, ht, hcalls⟩ := Option.map_eq_some_iff.mp hrun
    refine ⟨t, ht, hcalls, fun hsound => ?_⟩
    have hcall := (hsound.calls ⟨16, 1, [65], [[65, 0, 66]]⟩ (by rw [hcalls]; decide)).2
    exact absurd hcall (by decide)
  · have hmem : (1024, [0]) ∈ udpechoStores (List.replicate 1024 65) := by
      rw [udpechoStores, List.length_replicate]
      exact .tail _ (.head _)
    refine ⟨_, rfl, hmem, fun hsound => ?_⟩
    exact absurd (hsound.inside (1024, [0]) hmem) (by decide)

end BcmMruby.Udp
