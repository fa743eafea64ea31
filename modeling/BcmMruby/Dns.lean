import BcmMruby.Core.Run
import BcmMruby.Lwip

/-!
# Looking a name up

`lookup` asks lwIP for the address of a name. An address may be at hand; otherwise `dns_found` is
called from the interrupt, before the loop that waits for it or while it runs, or never. The result
of `dns_gethostbyname_addrtype` and the address are parameters here. `lookup` takes every result
but `ERR_OK` for a query under way, and unpacks the address as the type of the request says.
-/

namespace BcmMruby.Dns

open Core Lwip

/-! ### Addresses -/

inductive Family where
  | v4
  | v6
  deriving DecidableEq

/-- `ip_addr_t`: words in network order, of which an IPv4 address is the first one. -/
structure IpAddr where
  family : Family
  addr : Fin 4 → BitVec 32
  deriving DecidableEq

/-- `ip_addr_get_ip4_u32`. -/
def ipAddrGetIp4U32 (a : IpAddr) : BitVec 32 := if a.family = .v4 then a.addr 0 else 0

/-- `IP6_ADDR_BLOCK1` and the other odd ones, by the word they look at. -/
def oddBlock (w : BitVec 32) : BitVec 32 := (htonl w >>> 16) &&& 0xffff

/-- `IP6_ADDR_BLOCK2` and the other even ones. -/
def evenBlock (w : BitVec 32) : BitVec 32 := htonl w &&& 0xffff

/-- The integers stored from `dst` on. -/
def cpip6addr (a : IpAddr) : List (BitVec 32) :=
  [oddBlock (a.addr 0), evenBlock (a.addr 0), oddBlock (a.addr 1), evenBlock (a.addr 1),
    oddBlock (a.addr 2), evenBlock (a.addr 2), oddBlock (a.addr 3), evenBlock (a.addr 3)]

/-- How `lookup` stores an address. -/
def unpack (type : ℕ) (a : IpAddr) : List (BitVec 32) :=
  if type = 0 then [htonl (ipAddrGetIp4U32 a)] else cpip6addr a

/-- Two octets of an address as a block. -/
def block (x y : Byte) : BitVec 32 := word 0 0 x y

/-- The blocks of an address: one word of four octets, or eight blocks of two. The first octet of
a word in network order is the least significant one. -/
def IpAddr.blocks (a : IpAddr) : List (BitVec 32) :=
  match a.family with
  | .v4 => [word (byte (a.addr 0) 0) (byte (a.addr 0) 1) (byte (a.addr 0) 2) (byte (a.addr 0) 3)]
  | .v6 => (List.finRange 4).flatMap fun i =>
      [block (byte (a.addr i) 0) (byte (a.addr i) 1),
        block (byte (a.addr i) 2) (byte (a.addr i) 3)]

/-- The request says which family the address is of. -/
def Matches (type : ℕ) (a : IpAddr) : Prop := type = 0 ↔ a.family = .v4

instance (type : ℕ) (a : IpAddr) : Decidable (Matches type a) :=
  inferInstanceAs (Decidable (_ ↔ _))

lemma oddBlock_eq (w : BitVec 32) : oddBlock w = block (byte w 0) (byte w 1) := by
  apply BitVec.eq_of_toNat_eq
  have h₂ := (byte w 2).isLt
  have h₃ := (byte w 3).isLt
  have h₁ := (byte w 1).isLt
  have hmask : (0xffff : BitVec 32).toNat = 2 ^ 16 - 1 := rfl
  have hzero : (0 : Byte).toNat = 0 := rfl
  rw [oddBlock, htonl, block, BitVec.toNat_and, BitVec.toNat_ushiftRight, hmask,
    Nat.and_two_pow_sub_one_eq_mod, Nat.shiftRight_eq_div_pow, toNat_word, toNat_word]
  omega

lemma evenBlock_eq (w : BitVec 32) : evenBlock w = block (byte w 2) (byte w 3) := by
  apply BitVec.eq_of_toNat_eq
  have h₂ := (byte w 2).isLt
  have h₃ := (byte w 3).isLt
  have hmask : (0xffff : BitVec 32).toNat = 2 ^ 16 - 1 := rfl
  have hzero : (0 : Byte).toNat = 0 := rfl
  rw [evenBlock, htonl, block, BitVec.toNat_and, hmask, Nat.and_two_pow_sub_one_eq_mod, toNat_word,
    toNat_word]
  omega

/-- An address is stored as its blocks if and only if it is of the family requested. -/
lemma unpack_eq_blocks_iff (type : ℕ) (a : IpAddr) : unpack type a = a.blocks ↔ Matches type a := by
  obtain ⟨family, addr⟩ := a
  by_cases htype : type = 0
  · cases family with
    | v4 => simp [unpack, IpAddr.blocks, Matches, htype, ipAddrGetIp4U32, htonl]
    | v6 => simp [unpack, IpAddr.blocks, Matches, htype, List.finRange_succ]
  · cases family with
    | v4 => simp [unpack, IpAddr.blocks, Matches, htype, cpip6addr]
    | v6 =>
      simp [unpack, IpAddr.blocks, Matches, htype, cpip6addr, oddBlock_eq, evenBlock_eq,
        List.finRange_succ]

/-! ### The machine -/

def errOk : ℤ := 0

def errInprogress : ℤ := -5

/-- What `dns_gethostbyname_addrtype` gives: an address, a call of `dns_found` to come with this
`ipaddr`, or another error. -/
inductive Result where
  | ok (addr : IpAddr)
  | inprogress (ipaddr : Option IpAddr)
  | error (err : ℤ) (other : err ≠ errOk ∧ err ≠ errInprogress)

/-- Where the main program stands in `lookup`. -/
inductive Pc where
  | start
  | ask
  /-- Behind the call, with its result. -/
  | asked (err : ℤ)
  /-- At the loop `while (dnsstat == 0)`. -/
  | waiting
  /-- Behind the loop. -/
  | left
  | returned (res : ℤ)
  deriving DecidableEq

structure State where
  dnsstat : ℤ
  resolvip : IpAddr
  dnsres : IpAddr
  /-- The integers stored through `addr`. -/
  addr : List (BitVec 32)
  pc : Pc
  /-- The `ipaddr` of a call of `dns_found` that is to come. -/
  outstanding : Option (Option IpAddr)
  obtained : Option IpAddr

/-- `lookup` is called; the globals and the local variable are as they are. -/
def init (dnsstat : ℤ) (resolvip dnsres : IpAddr) : State :=
  ⟨dnsstat, resolvip, dnsres, [], .start, none, none⟩

def dnsFound (ipaddr : Option IpAddr) (s : State) : State :=
  match ipaddr with
  | some a => { s with resolvip := a, dnsstat := 1 }
  | none => { s with dnsstat := 2 }

/-- The next step of `lookup`, `dns` being `dns_gethostbyname_addrtype`. -/
def mainStep (dns : CString → ℕ → Result) (host : CString) (type : ℕ) (s : State) :
    Option State :=
  match s.pc with
  | .start => some { s with addr := [0], dnsstat := 0, pc := .ask }
  | .ask =>
    some (match dns host type with
      | .ok a => { s with dnsres := a, obtained := some a, pc := .asked errOk }
      | .inprogress ipaddr => { s with outstanding := some ipaddr, pc := .asked errInprogress }
      | .error err _ => { s with pc := .asked err })
  | .asked err =>
    some (if err = errOk then { s with addr := unpack type s.dnsres, pc := .returned 1 }
      else { s with pc := .waiting })
  | .waiting => some { s with pc := if s.dnsstat = 0 then .waiting else .left }
  | .left =>
    some (if s.dnsstat = 1 then { s with addr := unpack type s.resolvip, pc := .returned 1 }
      else { s with pc := .returned 0 })
  | .returned _ => none

inductive Event where
  | main
  /-- The interrupt makes the call of `dns_found`. -/
  | found

def step (dns : CString → ℕ → Result) (host : CString) (type : ℕ) (s : State) :
    Event → Option State
  | .main => mainStep dns host type s
  | .found => s.outstanding.map fun ipaddr =>
      { dnsFound ipaddr s with outstanding := none, obtained := ipaddr }

/-- `lookup` waits only for a call that is to come, it returns 1 exactly when there is an address,
and this address is what it has stored. -/
structure Sound (s : State) : Prop where
  waits : s.pc = .waiting → s.dnsstat = 0 → s.outstanding ≠ none
  none_of_zero : ∀ res, s.pc = .returned res → s.obtained = none → res = 0
  some_of_one : ∀ res a, s.pc = .returned res → s.obtained = some a → res = 1 ∧ s.addr = a.blocks

/-- There is an answer now or later, and an address in it is of the family requested. -/
def Usable (type : ℕ) : Result → Prop
  | .ok a => Matches type a
  | .inprogress ipaddr => ∀ a, ipaddr = some a → Matches type a
  | .error _ _ => False

variable {dns : CString → ℕ → Result} {host : CString} {type : ℕ}

/-! ### An address at hand -/

/-- What holds at each step when the call gives `a`. -/
def AtHand (type : ℕ) (a : IpAddr) (s : State) : Prop :=
  s.outstanding = none ∧
    match s.pc with
    | .start | .ask => True
    | .asked err => err = errOk ∧ s.dnsres = a ∧ s.obtained = some a
    | .waiting | .left => False
    | .returned res => res = 1 ∧ s.addr = unpack type a ∧ s.obtained = some a

lemma AtHand.step {a : IpAddr} (hr : dns host type = .ok a) (s : State) (e : Event) (s' : State)
    (h : AtHand type a s) (hs : step dns host type s e = some s') : AtHand type a s' := by
  obtain ⟨hout, hpc'⟩ := h
  cases e with
  | found => simp [Dns.step, hout] at hs
  | main =>
    rw [Dns.step, mainStep] at hs
    cases hpc : s.pc with
    | start =>
      rw [hpc] at hs
      cases hs
      exact ⟨hout, trivial⟩
    | ask =>
      rw [hpc, hr] at hs
      cases hs
      exact ⟨hout, rfl, rfl, rfl⟩
    | asked err =>
      rw [hpc] at hs hpc'
      obtain ⟨rfl, hres, hobtained⟩ := hpc'
      cases hs
      exact ⟨hout, rfl, congrArg (unpack type) hres, hobtained⟩
    | waiting | left =>
      rw [hpc] at hpc'
      exact hpc'.elim
    | returned res =>
      rw [hpc] at hs
      cases hs

lemma AtHand.sound {a : IpAddr} {s : State} (h : AtHand type a s) (hmatches : Matches type a) :
    Sound s := by
  obtain ⟨-, h⟩ := h
  constructor
  · intro hpc
    rw [hpc] at h
    exact h.elim
  · intro res hpc hnone
    rw [hpc, hnone] at h
    exact nomatch h.2.2
  · intro res b hpc hsome
    rw [hpc, hsome] at h
    obtain ⟨hres, haddr, hb⟩ := h
    obtain rfl := Option.some.inj hb
    exact ⟨hres, haddr.trans ((unpack_eq_blocks_iff type b).mpr hmatches)⟩

/-! ### A query -/

/-- The call of `dns_found` is to come, or it has been made. -/
def Pending (ipaddr : Option IpAddr) (s : State) : Prop :=
  s.outstanding = some ipaddr ∧ s.dnsstat = 0 ∧ s.obtained = none

def Answered (ipaddr : Option IpAddr) (s : State) : Prop :=
  s.outstanding = none ∧ s.obtained = ipaddr ∧
    ipaddr.elim (s.dnsstat = 2) fun a => s.dnsstat = 1 ∧ s.resolvip = a

/-- What holds at each step when `dns_found` will be called with `ipaddr`. -/
def Queried (type : ℕ) (ipaddr : Option IpAddr) (s : State) : Prop :=
  match s.pc with
  | .start => s.outstanding = none ∧ s.obtained = none
  | .ask => s.outstanding = none ∧ s.obtained = none ∧ s.dnsstat = 0
  | .asked err => err = errInprogress ∧ (Pending ipaddr s ∨ Answered ipaddr s)
  | .waiting => Pending ipaddr s ∨ Answered ipaddr s
  | .left => Answered ipaddr s
  | .returned res => s.outstanding = none ∧ s.obtained = ipaddr ∧
      ipaddr.elim (res = 0) fun a => res = 1 ∧ s.addr = unpack type a

/-- The interrupt answers a query. -/
lemma answered_found {ipaddr : Option IpAddr} {s s' : State}
    (h : Pending ipaddr s ∨ Answered ipaddr s) (hs : step dns host type s .found = some s') :
    Answered ipaddr s' ∧ s'.pc = s.pc := by
  obtain ⟨ip, hip, rfl⟩ := Option.map_eq_some_iff.mp hs
  rcases h with ⟨hout, -, -⟩ | ⟨hout, -⟩
  · obtain rfl : ipaddr = ip := Option.some.inj (hout.symm.trans hip)
    cases ipaddr with
    | none => exact ⟨⟨rfl, rfl, rfl⟩, rfl⟩
    | some a => exact ⟨⟨rfl, rfl, rfl, rfl⟩, rfl⟩
  · rw [hout] at hip
    cases hip

lemma Queried.found {ipaddr : Option IpAddr} {s s' : State} (h : Queried type ipaddr s)
    (hs : step dns host type s .found = some s') : Queried type ipaddr s' := by
  have hnone : s.outstanding ≠ none := by
    intro hnone
    simp [Dns.step, hnone] at hs
  rw [Queried] at h ⊢
  cases hpc : s.pc with
  | start | ask | left | returned =>
    rw [hpc] at h
    exact absurd h.1 hnone
  | asked err =>
    rw [hpc] at h
    obtain ⟨hanswered, hpc'⟩ := answered_found h.2 hs
    rw [hpc', hpc]
    exact ⟨h.1, Or.inr hanswered⟩
  | waiting =>
    rw [hpc] at h
    obtain ⟨hanswered, hpc'⟩ := answered_found h hs
    rw [hpc', hpc]
    exact Or.inr hanswered

/-- The program leaves its loop only with the answer. -/
lemma Queried.main {ipaddr : Option IpAddr} (hr : dns host type = .inprogress ipaddr)
    {s s' : State} (h : Queried type ipaddr s) (hs : mainStep dns host type s = some s') :
    Queried type ipaddr s' := by
  rw [Queried] at h
  rw [mainStep] at hs
  cases hpc : s.pc with
  | start =>
    rw [hpc] at hs h
    cases hs
    exact ⟨h.1, h.2, rfl⟩
  | ask =>
    rw [hpc] at hs h
    rw [hr] at hs
    cases hs
    exact ⟨rfl, Or.inl ⟨rfl, h.2.2, h.2.1⟩⟩
  | asked err =>
    rw [hpc] at hs h
    obtain ⟨rfl, h⟩ := h
    cases hs
    exact h
  | waiting =>
    rw [hpc] at hs h
    cases hs
    rw [Queried]
    split_ifs with hstat
    · exact h
    · exact h.resolve_left fun hpending => hstat hpending.2.1
  | left =>
    rw [hpc] at hs h
    obtain ⟨hout, hobtained, hstat⟩ := h
    cases hs
    cases ipaddr with
    | none =>
      rw [Option.elim_none] at hstat
      rw [if_neg (by rw [hstat]; decide)]
      exact ⟨hout, hobtained, rfl⟩
    | some a =>
      obtain ⟨hstat, hresolvip⟩ := hstat
      rw [if_pos hstat]
      exact ⟨hout, hobtained, rfl, congrArg (unpack type) hresolvip⟩
  | returned res =>
    rw [hpc] at hs
    cases hs

lemma Queried.step {ipaddr : Option IpAddr} (hr : dns host type = .inprogress ipaddr) (s : State)
    (e : Event) (s' : State) (h : Queried type ipaddr s)
    (hs : step dns host type s e = some s') : Queried type ipaddr s' := by
  cases e with
  | main => exact h.main hr hs
  | found => exact h.found hs

lemma Queried.sound {ipaddr : Option IpAddr} {s : State} (h : Queried type ipaddr s)
    (hmatches : ∀ a, ipaddr = some a → Matches type a) : Sound s := by
  rw [Queried] at h
  constructor
  · intro hpc hstat hnone
    rw [hpc] at h
    rcases h with ⟨hsome, -⟩ | ⟨-, -, hanswer⟩
    · rw [hnone] at hsome
      cases hsome
    · cases ipaddr with
      | none => exact absurd (hstat.symm.trans hanswer) (by decide)
      | some a => exact absurd (hstat.symm.trans hanswer.1) (by decide)
  · intro res hpc hnone
    rw [hpc, hnone] at h
    obtain ⟨-, rfl, hres⟩ := h
    exact hres
  · intro res a hpc hsome
    rw [hpc, hsome] at h
    obtain ⟨-, rfl, hres, haddr⟩ := h
    exact ⟨hres, haddr.trans ((unpack_eq_blocks_iff type a).mpr (hmatches a rfl))⟩

/-! ### Main result -/

lemma sound_of_usable {s₀ s : State} {es : List Event} (h : Usable type (dns host type))
    (hpc : s₀.pc = .start) (hout : s₀.outstanding = none) (hobtained : s₀.obtained = none)
    (hrun : run (step dns host type) s₀ es = some s) : Sound s := by
  cases hr : dns host type with
  | ok a =>
    rw [hr] at h
    have hinit : AtHand type a s₀ := ⟨hout, by rw [hpc]; trivial⟩
    exact (run_invariant_always (AtHand.step hr) hinit hrun).sound h
  | inprogress ipaddr =>
    rw [hr] at h
    have hinit : Queried type ipaddr s₀ := by
      rw [Queried, hpc]
      exact ⟨hout, hobtained⟩
    exact (run_invariant_always (Queried.step hr) hinit hrun).sound h
  | error err other =>
    rw [hr] at h
    exact h.elim

lemma usable_of_sound {s₀ : State} (hpc : s₀.pc = .start) (hout : s₀.outstanding = none)
    (h : ∀ es s, run (step dns host type) s₀ es = some s → Sound s) :
    Usable type (dns host type) := by
  obtain ⟨dnsstat, resolvip, dnsres, addr, pc, outstanding, obtained⟩ := s₀
  obtain rfl : pc = .start := hpc
  obtain rfl : outstanding = none := hout
  cases hr : dns host type with
  | ok a =>
    have hsound := h [.main, .main, .main] _ (by simp [step, mainStep, hr]; rfl)
    exact (unpack_eq_blocks_iff type a).mp (hsound.some_of_one 1 a rfl rfl).2
  | inprogress ipaddr =>
    rintro a rfl
    have hsound := h [.main, .main, .main, .found, .main, .main] _
      (by simp [step, mainStep, hr, dnsFound, errOk, errInprogress]; rfl)
    exact (unpack_eq_blocks_iff type a).mp (hsound.some_of_one 1 a rfl rfl).2
  | error err other =>
    have hsound := h [.main, .main, .main] _ (by simp [step, mainStep, hr, other.1]; rfl)
    exact hsound.waits rfl rfl rfl

/-- For every host and type: whatever the schedule, `lookup` waits only for a call that is to come
and returns the address that it gets, if and only if there is an answer of the family requested. -/
theorem sound_iff_usable (dns : CString → ℕ → Result) (host : CString) (type : ℕ) (dnsstat : ℤ)
    (resolvip dnsres : IpAddr) :
    (∀ es s, run (step dns host type) (init dnsstat resolvip dnsres) es = some s → Sound s) ↔
      Usable type (dns host type) :=
  ⟨usable_of_sound rfl rfl, fun h _ _ hrun => sound_of_usable h rfl rfl rfl hrun⟩

/-- A wait for a call that is not to come has no end. -/
lemma waits_forever {s t : State} {es : List Event} (hpc : s.pc = .waiting) (hstat : s.dnsstat = 0)
    (hout : s.outstanding = none) (hrun : run (step dns host type) s es = some t) : t = s := by
  refine run_invariant_always (P := fun t => t = s) ?_ rfl hrun
  rintro u e u' rfl hs
  cases e with
  | main =>
    rw [step, mainStep, hpc] at hs
    cases hs
    rw [if_pos hstat, ← hpc]
  | found =>
    rw [step, hout] at hs
    cases hs

/-- The address 192.0.2.1. -/
def anAddress : IpAddr := ⟨.v4, ![0x010200c0, 0, 0, 0]⟩

/-- `ERR_VAL`, for want of a name server. -/
def noServer : CString → ℕ → Result := fun _ _ => .error (-6) ⟨by decide, by decide⟩

/-- Without a name server `lookup` waits for ever; and an IPv4 address for a request that takes
either family is stored as eight blocks. -/
theorem lookup_waits_and_misreads :
    (∃ s, run (step noServer ⟨[97], by decide⟩ 0) (init 0 anAddress anAddress)
          [.main, .main, .main] = some s ∧
        (∀ es t, run (step noServer ⟨[97], by decide⟩ 0) s es = some t → t = s) ∧ ¬Sound s) ∧
      ∃ s, run (step (fun _ _ => .inprogress (some anAddress)) ⟨[97], by decide⟩ 2)
          (init 0 anAddress anAddress) [.main, .main, .main, .found, .main, .main] = some s ∧
        s.pc = .returned 1 ∧ s.addr = [0xc000, 0x0201, 0, 0, 0, 0, 0, 0] ∧
        anAddress.blocks = [0xc0000201] ∧ ¬Sound s := by
  constructor
  · refine ⟨_, rfl, fun es t hrun => waits_forever rfl rfl rfl hrun, fun hsound => ?_⟩
    exact hsound.waits rfl rfl rfl
  · have haddr : unpack 2 anAddress = [0xc000, 0x0201, 0, 0, 0, 0, 0, 0] := by decide
    have hblocks : anAddress.blocks = [0xc0000201] := by decide
    refine ⟨_, rfl, rfl, haddr, hblocks, fun hsound => ?_⟩
    have hsame : unpack 2 anAddress = anAddress.blocks := (hsound.some_of_one 1 _ rfl rfl).2
    rw [haddr, hblocks] at hsame
    exact absurd hsame (by decide)

end BcmMruby.Dns
