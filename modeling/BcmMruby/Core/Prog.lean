import BcmMruby.Core.Run

/-!
# Programs that call operations

A program returns, or calls an operation and goes on with the answer. `sem` says what an operation
answers and makes of the state; the label is what the environment does meanwhile, so that the steps
of a program are a system of `Core.Run`. A `Triple` is about the runs that come to an end.
-/

namespace Core

inductive Prog (Op Ans α : Type*) where
  | ret (a : α)
  | call (o : Op) (k : Ans → Prog Op Ans α)

namespace Prog

universe u
variable {Op Ans σ ε ι : Type*} {α β : Type u}

def bind : Prog Op Ans α → (α → Prog Op Ans β) → Prog Op Ans β
  | ret a, f => f a
  | call o k, f => call o fun b => (k b).bind f

instance : Monad (Prog Op Ans) where
  pure := ret
  bind := bind

@[simp] lemma pure_eq_ret (a : α) : (pure a : Prog Op Ans α) = ret a := rfl

@[simp] lemma bind_eq (p : Prog Op Ans α) (f : α → Prog Op Ans β) : p >>= f = p.bind f := rfl

@[simp] lemma ret_bind (a : α) (f : α → Prog Op Ans β) : (ret a).bind f = f a := rfl

@[simp] lemma call_bind (o : Op) (k : Ans → Prog Op Ans α) (f : α → Prog Op Ans β) :
    (call o k).bind f = call o fun b => (k b).bind f := rfl

/-! ### Evaluation -/

/-- The result and the state after it, where nothing else happens. -/
def eval (sem : Op → σ → Ans × σ) : Prog Op Ans α → σ → α × σ
  | ret a, s => (a, s)
  | call o k, s => (k (sem o s).1).eval sem (sem o s).2

@[simp] lemma eval_ret (sem : Op → σ → Ans × σ) (a : α) (s : σ) :
    (ret a).eval sem s = (a, s) := rfl

@[simp] lemma eval_call (sem : Op → σ → Ans × σ) (o : Op) (k : Ans → Prog Op Ans α) (s : σ) :
    (call o k).eval sem s = (k (sem o s).1).eval sem (sem o s).2 := rfl

@[simp] lemma eval_bind (sem : Op → σ → Ans × σ) (p : Prog Op Ans α) (f : α → Prog Op Ans β)
    (s : σ) : (p.bind f).eval sem s = (f (p.eval sem s).1).eval sem (p.eval sem s).2 := by
  induction p generalizing s with
  | ret a => rfl
  | call o k ih => exact ih _ _

/-- A loop over a list is the same loop on states. -/
lemma eval_foldlM {sem : Op → σ → Ans × σ} {f : β → ι → Prog Op Ans β} {g : β × σ → ι → β × σ}
    (hf : ∀ b i s, (f b i).eval sem s = g (b, s) i) (l : List ι) (b : β) (s : σ) :
    (l.foldlM f b).eval sem s = l.foldl g (b, s) := by
  induction l generalizing b s with
  | nil => rfl
  | cons i l ih => rw [List.foldlM_cons, bind_eq, eval_bind, hf, ih, List.foldl_cons]

/-! ### Runs -/

/-- The next call is performed. -/
def step (sem : Op → ε → σ → Ans × σ) : σ × Prog Op Ans α → ε → Option (σ × Prog Op Ans α)
  | (_, ret _), _ => none
  | (s, call o k), e => some ((sem o e s).2, k (sem o e s).1)

/-- With these labels the program comes to its end, with a result and a state. -/
def Ends (sem : Op → ε → σ → Ans × σ) (p : Prog Op Ans α) (s : σ) (es : List ε) (a : α) (t : σ) :
    Prop :=
  run (step sem) (s, p) es = some (t, ret a)

variable {sem : Op → ε → σ → Ans × σ}

lemma ends_ret {a b : α} {s t : σ} {es : List ε} :
    Ends sem (ret a) s es b t ↔ es = [] ∧ b = a ∧ t = s := by
  cases es with
  | nil =>
    simp only [Ends, run_nil, Option.some.injEq, Prod.mk.injEq, ret.injEq, true_and]
    exact ⟨fun ⟨hs, ha⟩ => ⟨ha.symm, hs.symm⟩, fun ⟨ha, hs⟩ => ⟨hs.symm, ha.symm⟩⟩
  | cons e es => simp [Ends, step]

lemma ends_call {o : Op} {k : Ans → Prog Op Ans α} {a : α} {s t : σ} {es : List ε} :
    Ends sem (call o k) s es a t ↔
      ∃ e es', es = e :: es' ∧ Ends sem (k (sem o e s).1) (sem o e s).2 es' a t := by
  cases es with
  | nil => simp [Ends]
  | cons e es => simp [Ends, step]

/-- What holds of every step, for a call. -/
lemma throughout_call {G : σ × Prog Op Ans α → ε → Prop} {o : Op} {k : Ans → Prog Op Ans α}
    {s : σ} {e : ε} {es : List ε} :
    Throughout (step sem) G (s, call o k) (e :: es) ↔
      G (s, call o k) e ∧
        Throughout (step sem) G ((sem o e s).2, k (sem o e s).1) es :=
  throughout_cons_of_step rfl

/-- The first `n` labels. -/
def upTo (f : ℕ → ε) (n : ℕ) : List ε := (List.range n).map f

lemma upTo_succ (f : ℕ → ε) (n : ℕ) : upTo f (n + 1) = f 0 :: upTo (fun i => f (i + 1)) n := by
  rw [upTo, List.range_succ_eq_map, List.map_cons, List.map_map]
  rfl

lemma ends_call_upTo {o : Op} {k : Ans → Prog Op Ans α} {a : α} {s t : σ} {f : ℕ → ε} {n : ℕ}
    (h : Ends sem (k (sem o (f 0) s).1) (sem o (f 0) s).2 (upTo (fun i => f (i + 1)) n) a t) :
    Ends sem (call o k) s (upTo f (n + 1)) a t :=
  ends_call.mpr ⟨f 0, _, upTo_succ f n, h⟩

/-- A program comes to its end whatever the environment does. -/
lemma exists_ends (sem : Op → ε → σ → Ans × σ) (p : Prog Op Ans α) (s : σ) (f : ℕ → ε) :
    ∃ n a t, Ends sem p s (upTo f n) a t := by
  induction p generalizing s f with
  | ret a => exact ⟨0, a, s, ends_ret.mpr ⟨rfl, rfl, rfl⟩⟩
  | call o k ih =>
    obtain ⟨n, a, t, hends⟩ := ih (sem o (f 0) s).1 (sem o (f 0) s).2 fun i => f (i + 1)
    exact ⟨n + 1, a, t, ends_call_upTo hends⟩

/-- After a program that has ended, with what the environment does from then on. -/
lemma exists_ends_bind {p : Prog Op Ans α} {g : α → Prog Op Ans β} {s u : σ} {f : ℕ → ε} {n : ℕ}
    {a : α} {Q : β → Prop} (hp : Ends sem p s (upTo f n) a u)
    (hg : ∃ m b t, Ends sem (g a) u (upTo (fun i => f (i + n)) m) b t ∧ Q b) :
    ∃ m b t, Ends sem (p.bind g) s (upTo f m) b t ∧ Q b := by
  induction n generalizing p s f with
  | zero =>
    cases p with
    | ret a' =>
      obtain ⟨-, rfl, rfl⟩ := ends_ret.mp hp
      exact hg
    | call o k =>
      obtain ⟨e, es, hes, -⟩ := ends_call.mp hp
      cases hes
  | succ n ih =>
    rw [upTo_succ] at hp
    cases p with
    | ret a' =>
      obtain ⟨hes, -⟩ := ends_ret.mp hp
      cases hes
    | call o k =>
      obtain ⟨e, es, hes, hends⟩ := ends_call.mp hp
      obtain ⟨rfl, rfl⟩ := List.cons.inj hes
      obtain ⟨m, b, t, hends', hQ⟩ := ih (f := fun i => f (i + 1)) hends
        (by simpa only [Nat.add_assoc, Nat.add_comm 1] using hg)
      exact ⟨m + 1, b, t, ends_call_upTo hends', hQ⟩

/-! ### Triples -/

/-- A run that begins with `P`, in an environment that keeps to `G`, ends with `Q`. -/
def Triple (sem : Op → ε → σ → Ans × σ) (G : σ → ε → Prop) (P : σ → Prop) (p : Prog Op Ans α)
    (Q : α → σ → Prop) : Prop :=
  ∀ s es a t, P s → Throughout (step sem) (fun m e => G m.1 e) (s, p) es → Ends sem p s es a t →
    Q a t

variable {G : σ → ε → Prop} {P P' : σ → Prop}

lemma triple_ret {a : α} {Q : α → σ → Prop} (h : ∀ s, P s → Q a s) :
    Triple sem G P (ret a) Q := by
  rintro s es b t hP - hends
  obtain ⟨-, rfl, rfl⟩ := ends_ret.mp hends
  exact h t hP

lemma triple_call {o : Op} {k : Ans → Prog Op Ans α} {Q : α → σ → Prop} (R : Ans → σ → Prop)
    (ho : ∀ s e, P s → G s e → R (sem o e s).1 (sem o e s).2)
    (hk : ∀ b, Triple sem G (R b) (k b) Q) : Triple sem G P (call o k) Q := by
  intro s es a t hP hG hends
  obtain ⟨e, es', rfl, hends'⟩ := ends_call.mp hends
  obtain ⟨hGe, hGes⟩ := throughout_call.mp hG
  exact hk _ _ _ _ _ (ho s e hP hGe) hGes hends'

lemma Triple.consequence {p : Prog Op Ans α} {Q Q' : α → σ → Prop} (h : Triple sem G P p Q)
    (hP : ∀ s, P' s → P s) (hQ : ∀ a s, Q a s → Q' a s) : Triple sem G P' p Q' :=
  fun s es a t hs hG hends => hQ a t (h s es a t (hP s hs) hG hends)

/-- A case distinction on the state before. -/
lemma triple_exists {p : Prog Op Ans α} {Q : α → σ → Prop} {R : ι → σ → Prop}
    (h : ∀ i, Triple sem G (R i) p Q) : Triple sem G (fun s => ∃ i, R i s) p Q :=
  fun s es a t ⟨i, hs⟩ hG hends => h i s es a t hs hG hends

lemma Triple.bind {p : Prog Op Ans α} {f : α → Prog Op Ans β} {R : α → σ → Prop}
    {Q : β → σ → Prop} (hp : Triple sem G P p R) (hf : ∀ a, Triple sem G (R a) (f a) Q) :
    Triple sem G P (p.bind f) Q := by
  induction p generalizing P with
  | ret a =>
    intro s es b t hP hG hends
    refine hf a s es b t (hp s [] a s hP trivial (ends_ret.mpr ⟨rfl, rfl, rfl⟩)) hG hends
  | call o k ih =>
    -- `Reached b` is what holds where the call has been answered with `b`
    let Reached (b : Ans) (s' : σ) : Prop :=
      ∃ s e, P s ∧ G s e ∧ (sem o e s) = (b, s')
    refine triple_call Reached (fun s e hP hG => ⟨s, e, hP, hG, rfl⟩) fun b => ih b ?_
    rintro s' es a t ⟨s, e, hP, hGe, hsem⟩ hG hends
    refine hp s (e :: es) a t hP ?_ ?_
    · rw [throughout_call, hsem]
      exact ⟨hGe, hG⟩
    · rw [ends_call]
      exact ⟨e, es, rfl, by rwa [hsem]⟩

/-- The rule for a loop over a list, with an invariant about what has been gone over. -/
lemma triple_foldlM {I : List ι → β → σ → Prop} {f : β → ι → Prog Op Ans β} {l : List ι} {b : β}
    (h : ∀ pre i post b, l = pre ++ i :: post → Triple sem G (I pre b) (f b i) (I (pre ++ [i]))) :
    Triple sem G (I [] b) (l.foldlM f b) (I l) := by
  have hgen : ∀ pre post b, l = pre ++ post →
      Triple sem G (I pre b) (post.foldlM f b) (I l) := by
    intro pre post
    induction post generalizing pre with
    | nil =>
      rintro b hl
      rw [List.append_nil] at hl
      subst hl
      exact triple_ret fun _ hs => hs
    | cons i post ih =>
      intro b hl
      rw [List.foldlM_cons]
      exact (h pre i post b hl).bind fun b' => ih (pre ++ [i]) b' (by simp [hl])
  exact hgen [] l b rfl

end Prog

end Core
