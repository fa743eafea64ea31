import BcmMruby.Sntp.Basic

/-!
# The pcb of the SNTP client

`udpsntp_raw_recv` removes the pcb and keeps the pointer. Until a datagram comes, the pointer is
`NULL` or names the pcb that `sntp` has allocated last; from then on it dangles, and the next
`sntp` removes whatever is at that address.
-/

namespace BcmMruby.Sntp

open Core

/-- The pointer is `NULL` or names a pcb of `sntp`, and every `udp_remove` was applied to one. -/
structure Sound (s : Net) : Prop where
  pointer : ∀ p, s.udpsntpRawPcb = some p → ∃ pcb, s.pcbs p = some pcb ∧ pcb.user = .sntp
  removed : ∀ r ∈ s.removed, ∃ pcb, r = some pcb ∧ pcb.user = .sntp

/-- Nothing but the pcb behind the pointer has the callback. -/
structure Inv (s : Net) : Prop where
  sound : Sound s
  recv : ∀ p, s.pcbs p = some ⟨.sntp, true⟩ → s.udpsntpRawPcb = some p

lemma inv_netInit (timer : Timer) (others : ℕ → Bool) : Inv (netInit timer others) := by
  refine ⟨⟨by simp [netInit], by simp [netInit]⟩, ?_⟩
  intro p hp
  simp only [netInit] at hp
  split_ifs at hp
  simp at hp

/-! ### Removal -/

/-- After the removal no pcb has the callback. -/
lemma Inv.removeSntp {s : Net} (h : Inv s) (p : ℕ) :
    (removeSntp s).pcbs p ≠ some ⟨.sntp, true⟩ := by
  intro hp
  rw [Sntp.removeSntp] at hp
  cases hptr : s.udpsntpRawPcb with
  | none =>
    rw [hptr] at hp
    have hsome := h.recv p hp
    rw [hptr] at hsome
    cases hsome
  | some q =>
    rw [hptr] at hp
    by_cases hpq : p = q
    · simp [udpRemove, hpq] at hp
    · simp only [udpRemove, Function.update_of_ne hpq] at hp
      have hsome := h.recv p hp
      rw [hptr] at hsome
      exact hpq (Option.some.inj hsome).symm

lemma Inv.removed_removeSntp {s : Net} (h : Inv s) :
    ∀ r ∈ (Sntp.removeSntp s).removed, ∃ pcb, r = some pcb ∧ pcb.user = .sntp := by
  rw [Sntp.removeSntp]
  cases hptr : s.udpsntpRawPcb with
  | none => exact h.sound.removed
  | some q =>
    intro r hr
    simp only [udpRemove, List.mem_append, List.mem_singleton] at hr
    rcases hr with hr | rfl
    · exact h.sound.removed r hr
    · exact h.sound.pointer q hptr

/-- The pointer stays, the pcb behind it is gone. -/
lemma not_sound_removeSntp {s : Net} {p : ℕ} (hptr : s.udpsntpRawPcb = some p) :
    ¬ Sound (removeSntp s) := by
  intro h
  obtain ⟨pcb, hpcb, -⟩ := h.pointer p (by simp [removeSntp, hptr, udpRemove])
  simp [removeSntp, hptr, udpRemove] at hpcb

/-! ### Steps -/

/-- What the other users do to memory that is not the client's does not matter. -/
lemma Inv.update {s : Net} (h : Inv s) {p : ℕ} {pcb : Option UdpPcb}
    (hp : ∀ q, s.pcbs p = some q → q.user ≠ .sntp) (hpcb : pcb ≠ some ⟨.sntp, true⟩) :
    Inv { s with pcbs := Function.update s.pcbs p pcb } := by
  refine ⟨⟨?_, h.sound.removed⟩, ?_⟩
  · intro q hq
    obtain ⟨r, hr, huser⟩ := h.sound.pointer q hq
    have hqp : q ≠ p := by
      rintro rfl
      exact hp r hr huser
    exact ⟨r, by simpa [Function.update_of_ne hqp] using hr, huser⟩
  · intro q hq
    by_cases hqp : q = p
    · subst hqp
      simp only [Function.update_self] at hq
      exact absurd hq hpcb
    · simp only [Function.update_of_ne hqp] at hq
      exact h.recv q hq

lemma Inv.sntp {s : Net} (h : Inv s) (new : Option ℕ) : Inv (Sntp.sntp s new) := by
  cases new with
  | none =>
    refine ⟨⟨by simp [Sntp.sntp], h.removed_removeSntp⟩, ?_⟩
    intro p hp
    exact absurd hp (h.removeSntp p)
  | some p =>
    refine ⟨⟨?_, h.removed_removeSntp⟩, ?_⟩
    · intro q hq
      cases hq
      exact ⟨⟨.sntp, true⟩, by simp [Sntp.sntp], rfl⟩
    · intro q hq
      by_cases hqp : q = p
      · rw [hqp]
        rfl
      · simp only [Sntp.sntp, Function.update_of_ne hqp] at hq
        exact absurd hq (h.removeSntp q)

lemma Inv.step (s : Net) (e : Event) (s' : Net) (h : Inv s) (he : ¬ e.Delivers)
    (hs : step s e = some s') : Inv s' := by
  cases e with
  | sntp new =>
    simp only [Sntp.step] at hs
    split_ifs at hs
    cases hs
    exact h.sntp new
  | datagram pcb p =>
    simp only [Event.Delivers, ne_eq, not_not] at he
    subst he
    simp only [Sntp.step] at hs
    split_ifs at hs
    cases hs
    exact h
  | otherNew p =>
    simp only [Sntp.step] at hs
    split_ifs at hs with hfree
    cases hs
    exact h.update (by simp [hfree]) (by simp)
  | otherRemove p =>
    simp only [Sntp.step] at hs
    split_ifs at hs with hother
    cases hs
    exact h.update (by simp [hother]) (by simp)
  | tick =>
    cases hs
    exact ⟨⟨h.sound.pointer, h.sound.removed⟩, h.recv⟩

/-- The first datagram leaves the pointer dangling. -/
lemma Inv.not_delivers (s : Net) (e : Event) (s' : Net) (h : Inv s)
    (hs : Sntp.step s e = some s') (hsound : Sound s') : ¬ e.Delivers := by
  cases e with
  | datagram pcb p =>
    simp only [Sntp.step] at hs
    split_ifs at hs with hpcb
    cases p with
    | none => simp [Event.Delivers]
    | some buf =>
      cases hs
      refine absurd hsound (not_sound_removeSntp (p := pcb) ?_)
      split_ifs
      all_goals exact h.recv pcb hpcb
  | _ => exact id

/-! ### Main result -/

/-- After `net_init` the pointer is `NULL` or names a pcb of the client, and nothing else is ever
removed, in exactly the runs in which no datagram reaches `udpsntp_raw_recv`. -/
theorem sound_iff_no_datagram (timer : Timer) (others : ℕ → Bool) {es : List Event} {t : Net}
    (hrun : run step (netInit timer others) es = some t) :
    Always step Sound (netInit timer others) es ↔ ∀ e ∈ es, ¬ e.Delivers := by
  rw [← throughout_iff_forall_mem hrun]
  exact always_iff_throughout (L := fun _ => True) (fun s h => h.sound)
    (fun s e s' h _ => Inv.step s e s' h) (fun s e s' h _ => Inv.not_delivers s e s' h)
    (inv_netInit timer others) (fun _ _ => trivial) hrun

/-- Two requests that nobody answers, the second one without a pcb. -/
theorem sound_two_requests :
    Always step Sound (netInit ⟨0, 0, 0, 0, 0, 0, 0, 0⟩ fun p => p = 7)
      [.sntp (some 0), .otherNew 1, .sntp none] := by
  refine (sound_iff_no_datagram _ _ rfl).mpr ?_
  simp [Event.Delivers]

/-- Two requests and a reply of any length, while another part of the program allocates a pcb: the
second request removes the pcb of the other user. -/
theorem removes_other :
    ∃ t, run step (netInit ⟨0, 0, 0, 0, 0, 0, 0, 0⟩ fun _ => false)
        [.sntp (some 0), .datagram 0 (some [0]), .otherNew 0, .sntp (some 1)] = some t ∧
      t.removed = [some ⟨.sntp, true⟩, some ⟨.other, false⟩] ∧ ¬ Sound t := by
  refine ⟨_, rfl, rfl, ?_⟩
  intro h
  obtain ⟨pcb, hpcb, huser⟩ := h.removed (some ⟨.other, false⟩) (.tail _ (.head _))
  cases hpcb
  cases huser

end BcmMruby.Sntp
