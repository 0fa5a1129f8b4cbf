import SeaRouter.Lib.Run

/-!
# Threads on a shared state

A `Thread σ α` is a run that is divided into atomic steps on a state `σ`, which
other threads may change between two of them.  `bind`, `lift` and `loop` build
threads, and `run` is a thread that runs alone.

* `Step` is one step of one of several threads: it returns and the thread goes on,
  or it throws, and then the thread has failed and leaves some state behind.
* `Keeps I p` says that each step of the thread `p` preserves the invariant `I`,
  from whatever state it is taken.  `Steps.keeps` carries the invariant through
  every run.
* `Undisturbed` are the runs in which no other thread changes the state between the
  first step of a thread and its last one.  By `Undisturbed.alone` the outcome of the
  thread is then the one of `run`, from a state with the invariant.
* `Returns I a p` says that each step of the thread `p` succeeds on any state with the
  invariant `I`, that it restores `I`, and that `p` ends with `a`.  Threads of which
  this holds cannot disturb each other: `Steps.returns`.
* `Config.exec` follows a schedule.
-/

namespace Java

variable {σ α β ℓ : Type}

/-- A run that is divided into atomic steps on a shared state. -/
inductive Thread (σ α : Type) : Type 1
  | done (a : α) : Thread σ α
  | atomic {β : Type} (f : σ → Run (β × σ)) (next : β → Thread σ α) : Thread σ α

namespace Thread

def bind : Thread σ α → (α → Thread σ β) → Thread σ β
  | done a, k => k a
  | atomic f next, k => atomic f fun b => bind (next b) k

instance instMonadThread (σ : Type) : Monad (Thread σ) where
  pure := done
  bind := bind

/-- One atomic step. -/
def lift (f : σ → Run (α × σ)) : Thread σ α := atomic f done

/-- An atomic step that only reads. -/
def read (f : σ → Run α) : Thread σ α := lift fun s => do return (← f s, s)

/-- A `while` loop on the local variables `ℓ`, each iteration of which is an atomic
step; so is the last evaluation of the guard. -/
def loop (c : ℓ → σ → Bool) (body : ℓ → σ → Run (ℓ × σ)) : Nat → ℓ → Thread σ ℓ
  | 0, l => read fun s => if c l s then throw .outOfFuel else return l
  | fuel + 1, l =>
    atomic (β := Option ℓ)
      (fun s => if c l s then do let (l', s') ← body l s; return (some l', s') else return (none, s))
      fun | some l' => loop c body fuel l'
          | none => done l

/-- The thread alone. -/
def run : Thread σ α → σ → Run (α × σ)
  | done a, s => return (a, s)
  | atomic f next, s => do
    let (b, s') ← f s
    run (next b) s'

@[simp]
theorem run_pure (a : α) (s : σ) : run (pure a : Thread σ α) s = .ok (a, s) := rfl

@[simp]
theorem run_bind (p : Thread σ α) (k : α → Thread σ β) (s : σ) :
    run (p >>= k) s = run p s >>= fun x => run (k x.1) x.2 := by
  induction p generalizing s with
  | done a => rfl
  | atomic f next ih =>
    show (f s >>= fun x => run (next x.1 >>= k) x.2) = _
    simp only [ih, run, bind_assoc]

@[simp]
theorem run_lift (f : σ → Run (α × σ)) (s : σ) : run (lift f) s = f s := by
  show (f s >>= fun x => Except.ok (x.1, x.2)) = f s
  cases f s <;> rfl

@[simp]
theorem run_read (f : σ → Run α) (s : σ) : run (read f) s = f s >>= fun a => .ok (a, s) := by
  rw [read, run_lift]
  rfl

/-- The result of a thread that only computes something from the result of another one. -/
theorem run_bind_pure (p : Thread σ α) (f : α → β) (s : σ) :
    (run (p >>= fun a => pure (f a)) s).map Prod.fst = ((run p s).map Prod.fst).map f := by
  rw [run_bind]
  cases run p s <;> rfl

theorem run_loop (c : ℓ → σ → Bool) (body : ℓ → σ → Run (ℓ × σ)) (fuel : Nat) (l : ℓ) (s : σ) :
    run (loop c body fuel l) s =
      whileLoop (fun x : ℓ × σ => return c x.1 x.2) (fun x => body x.1 x.2) fuel (l, s) := by
  induction fuel generalizing l s with
  | zero =>
    rw [loop, run_read, whileLoop]
    cases c l s <;> rfl
  | succ fuel ih =>
    rw [loop, run, whileLoop]
    cases hc : c l s with
    | false =>
      simp only [Bool.false_eq_true, if_false, pure_eq_ok, ok_bind]
      rfl
    | true =>
      simp only [if_true, pure_eq_ok, ok_bind, bind_assoc]
      congr 1
      funext x
      exact ih x.1 x.2

/-- A loop on states that are the images of other ones. -/
theorem whileLoop_map {τ : Type} {c : σ → Run Bool} {b : σ → Run σ} {d : τ → Run Bool}
    {g : τ → Run τ} (f : τ → σ) (hc : ∀ t, c (f t) = d t) (hbody : ∀ t, b (f t) = (g t).map f)
    (fuel : Nat) (t : τ) : whileLoop c b fuel (f t) = (whileLoop d g fuel t).map f := by
  induction fuel generalizing t with
  | zero =>
    simp only [whileLoop, hc]
    cases d t with
    | error e => rfl
    | ok b => cases b <;> rfl
  | succ fuel ih =>
    simp only [whileLoop, hc]
    cases d t with
    | error e => rfl
    | ok b =>
      cases b with
      | false => rfl
      | true =>
        simp only [ok_bind, if_true, hbody]
        cases g t with
        | error e => rfl
        | ok t' => exact ih t'

/-! ## Invariants of the shared state -/

/-- Every step of the thread preserves the invariant `I`, whatever the other threads do
before it. -/
def Keeps (I : σ → Prop) : Thread σ α → Prop
  | done _ => True
  | atomic f next => (∀ s b s', I s → f s = .ok (b, s') → I s') ∧ ∀ b, Keeps I (next b)

variable {I : σ → Prop}

theorem keeps_bind {p : Thread σ α} {k : α → Thread σ β} (hp : Keeps I p) (hk : ∀ a, Keeps I (k a)) :
    Keeps I (p >>= k) := by
  induction p with
  | done a => exact hk a
  | atomic f next ih => exact ⟨hp.1, fun b => ih b (hp.2 b)⟩

theorem keeps_lift {f : σ → Run (α × σ)} (h : ∀ s a s', I s → f s = .ok (a, s') → I s') :
    Keeps I (lift f) :=
  ⟨h, fun _ => trivial⟩

theorem keeps_read (f : σ → Run α) : Keeps I (read f) := by
  apply keeps_lift
  intro s a s' hs hrun
  simp only [bind_eq_ok, pure_eq_ok, Except.ok.injEq, Prod.mk.injEq] at hrun
  obtain ⟨_, _, _, rfl⟩ := hrun
  exact hs

theorem keeps_loop {c : ℓ → σ → Bool} {body : ℓ → σ → Run (ℓ × σ)}
    (h : ∀ l s l' s', I s → body l s = .ok (l', s') → I s') (fuel : Nat) (l : ℓ) :
    Keeps I (loop c body fuel l) := by
  induction fuel generalizing l with
  | zero => exact keeps_read _
  | succ fuel ih =>
    refine ⟨?_, ?_⟩
    · intro s b s' hs hrun
      simp only at hrun
      split_ifs at hrun with hc
      · simp only [bind_eq_ok, pure_eq_ok, Except.ok.injEq, Prod.mk.injEq] at hrun
        obtain ⟨⟨l', s₁⟩, hbody, _, rfl⟩ := hrun
        exact h l s l' s₁ hs hbody
      · rw [pure_eq_ok, Except.ok.injEq, Prod.mk.injEq] at hrun
        exact hrun.2 ▸ hs
    · intro b
      cases b with
      | some l' => exact ih l'
      | none => trivial

/-- A run of the thread alone preserves the invariant. -/
theorem Keeps.run {p : Thread σ α} (hp : Keeps I p) {s s' : σ} {a : α} (hs : I s)
    (hrun : p.run s = .ok (a, s')) : I s' := by
  induction p generalizing s with
  | done b =>
    rw [Thread.run, pure_eq_ok, Except.ok.injEq, Prod.mk.injEq] at hrun
    exact hrun.2 ▸ hs
  | atomic f next ih =>
    rw [Thread.run, bind_eq_ok] at hrun
    obtain ⟨⟨b, s₁⟩, hstep, hrest⟩ := hrun
    exact ih b (hp.2 b) (hp.1 s b s₁ hs hstep) hrest

/-! ## Threads that others cannot disturb -/

/-- The thread only reads, and what it reads is the same in all states. -/
def Reads : Thread σ α → Prop
  | done _ => True
  | atomic f next => (∃ x : Run _, ∀ s, f s = x.map fun b => (b, s)) ∧ ∀ b, Reads (next b)

theorem reads_bind {p : Thread σ α} {k : α → Thread σ β} (hp : Reads p) (hk : ∀ a, Reads (k a)) :
    Reads (p >>= k) := by
  induction p with
  | done a => exact hk a
  | atomic f next ih => exact ⟨hp.1, fun b => ih b (hp.2 b)⟩

theorem reads_read (x : Run α) : Reads (read fun _ : σ => x) := by
  refine ⟨⟨x, ?_⟩, fun _ => trivial⟩
  intro s
  cases x <;> rfl

theorem reads_loop {c : ℓ → Bool} {body : ℓ → Run ℓ} (fuel : Nat) (l : ℓ) :
    Reads (loop (fun l (_ : σ) => c l) (fun l s => do return (← body l, s)) fuel l) := by
  induction fuel generalizing l with
  | zero => exact reads_read _
  | succ fuel ih =>
    refine ⟨⟨if c l then (body l).map some else .ok none, ?_⟩, ?_⟩
    · intro s
      beta_reduce
      cases c l with
      | true => cases body l <;> rfl
      | false => rfl
    · intro b
      cases b with
      | some l' => exact ih l'
      | none => trivial

/-- On any state with the invariant `I`, each step of the thread succeeds and restores
`I`, and the thread ends with `a`.  Other threads that restore `I` may come between
two steps. -/
def Returns (I : σ → Prop) (a : α) : Thread σ α → Prop
  | done b => b = a
  | atomic f next => ∀ s, I s → ∃ b s', f s = .ok (b, s') ∧ I s' ∧ Returns I a (next b)

theorem returns_bind {p : Thread σ α} {k : α → Thread σ β} {a : α} {b : β} (hp : Returns I a p)
    (hk : Returns I b (k a)) : Returns I b (p >>= k) := by
  induction p with
  | done a' =>
    obtain rfl : a' = a := hp
    exact hk
  | atomic f next ih =>
    intro s hs
    obtain ⟨c, s', hrun, hs', hnext⟩ := hp s hs
    exact ⟨c, s', hrun, hs', ih c hnext⟩

theorem returns_lift {f : σ → Run (α × σ)} {a : α}
    (h : ∀ s, I s → ∃ s', f s = .ok (a, s') ∧ I s') : Returns I a (lift f) := by
  intro s hs
  obtain ⟨s', hrun, hs'⟩ := h s hs
  exact ⟨a, s', hrun, hs', rfl⟩

/-- A run of the thread alone. -/
theorem Returns.run {p : Thread σ α} {a : α} (hp : Returns I a p) {s : σ} (hs : I s) :
    ∃ s', p.run s = .ok (a, s') ∧ I s' := by
  induction p generalizing s with
  | done b =>
    obtain rfl : b = a := hp
    exact ⟨s, rfl, hs⟩
  | atomic f next ih =>
    obtain ⟨b, s₁, hstep, hs₁, hnext⟩ := hp s hs
    obtain ⟨s', hrun, hs'⟩ := ih b hnext hs₁
    refine ⟨s', ?_, hs'⟩
    rw [Thread.run, hstep, ok_bind]
    exact hrun

/-- A thread that only reads returns what it returns alone. -/
theorem Reads.returns {p : Thread σ α} (hp : Reads p) {s s' : σ} {a : α}
    (hrun : p.run s = .ok (a, s')) : Returns I a p := by
  induction p with
  | done b =>
    rw [run, pure_eq_ok, Except.ok.injEq, Prod.mk.injEq] at hrun
    exact hrun.1
  | atomic f next ih =>
    obtain ⟨⟨x, hx⟩, hnext⟩ := hp
    rw [run, hx, bind_eq_ok] at hrun
    obtain ⟨⟨b, s₁⟩, hb, hrest⟩ := hrun
    intro t ht
    cases x with
    | error e => simp [Except.map] at hb
    | ok c =>
      simp only [Except.map, Except.ok.injEq, Prod.mk.injEq] at hb
      obtain ⟨rfl, rfl⟩ := hb
      exact ⟨c, t, hx t, ht, ih c (hnext c) hrest⟩

end Thread

/-! ## Interleavings -/

/-- How far a thread is. -/
inductive Activity (σ α : Type) : Type 1
  | running (p : Thread σ α) : Activity σ α
  | failed (e : Exn) : Activity σ α

/-- What a thread that has ended returns or throws. -/
def Activity.outcome : Activity σ α → Option (Run α)
  | running (.done a) => some (.ok a)
  | running (.atomic _ _) => none
  | failed e => some (.error e)

/-- Several threads and the state they share. -/
structure Config (ι σ α : Type) : Type 1 where
  shared : σ
  activity : ι → Activity σ α

variable {ι : Type} [DecidableEq ι]

/-- The state and the activity of the thread `i` after one of its steps. -/
def Config.advance (c : Config ι σ α) (i : ι) (s : σ) (a : Activity σ α) : Config ι σ α where
  shared := s
  activity := Function.update c.activity i a

@[simp]
theorem Config.advance_shared (c : Config ι σ α) (i : ι) (s : σ) (a : Activity σ α) :
    (c.advance i s a).shared = s := rfl

theorem Config.advance_self (c : Config ι σ α) (i : ι) (s : σ) (a : Activity σ α) :
    (c.advance i s a).activity i = a := Function.update_self _ _ _

theorem Config.advance_of_ne (c : Config ι σ α) {i j : ι} (h : j ≠ i) (s : σ) (a : Activity σ α) :
    (c.advance i s a).activity j = c.activity j := Function.update_of_ne h _ _

/-- The thread `i` takes a step.  When it throws, `leaves` says which states it may
leave behind. -/
inductive Step (leaves : σ → σ → Prop) (i : ι) : Config ι σ α → Config ι σ α → Prop
  | proceed {c : Config ι σ α} {γ : Type} {f : σ → Run (γ × σ)} {next : γ → Thread σ α} {b : γ}
      {s' : σ} : c.activity i = .running (.atomic f next) → f c.shared = .ok (b, s') →
      Step leaves i c (c.advance i s' (.running (next b)))
  | throw {c : Config ι σ α} {γ : Type} {f : σ → Run (γ × σ)} {next : γ → Thread σ α} {e : Exn}
      {s' : σ} : c.activity i = .running (.atomic f next) → f c.shared = .error e →
      leaves c.shared s' → Step leaves i c (c.advance i s' (.failed e))

/-- The invariant holds of the shared state, and no thread can break it. -/
structure Config.Keeps (I : σ → Prop) (c : Config ι σ α) : Prop where
  shared : I c.shared
  activity : ∀ i p, c.activity i = .running p → p.Keeps I

/-- What else a thread does concerns neither the other threads nor the invariant. -/
theorem Step.keeps {leaves : σ → σ → Prop} {I : σ → Prop}
    (hleaves : ∀ s s', I s → leaves s s' → I s') {i : ι} {c c' : Config ι σ α}
    (h : Step leaves i c c') (hc : c.Keeps I) : c'.Keeps I := by
  have hother : ∀ (s' : σ) (a : Activity σ α), (∀ p, a = .running p → p.Keeps I) →
      ∀ j p, (c.advance i s' a).activity j = .running p → p.Keeps I := by
    intro s' a ha j p hj
    by_cases hji : j = i
    · rw [hji, Config.advance_self] at hj
      exact ha p hj
    · rw [Config.advance_of_ne c hji] at hj
      exact hc.activity j p hj
  cases h with
  | proceed hact hrun =>
    have hp := hc.activity i _ hact
    refine ⟨hp.1 _ _ _ hc.shared hrun, hother _ _ ?_⟩
    intro p heq
    rw [Activity.running.injEq] at heq
    exact heq ▸ hp.2 _
  | throw _ _ hl =>
    refine ⟨hleaves _ _ hc.shared hl, hother _ _ ?_⟩
    intro p heq
    simp at heq

theorem Step.activity_eq {leaves : σ → σ → Prop} {i j : ι} {c c' : Config ι σ α}
    (h : Step leaves i c c') (hj : j ≠ i) : c'.activity j = c.activity j := by
  cases h with
  | proceed _ _ => exact Config.advance_of_ne c hj _ _
  | throw _ _ _ => exact Config.advance_of_ne c hj _ _

/-- The threads take steps in the given order. -/
inductive Steps (leaves : σ → σ → Prop) : List ι → Config ι σ α → Config ι σ α → Prop
  | nil (c : Config ι σ α) : Steps leaves [] c c
  | cons {i : ι} {is : List ι} {c c' c'' : Config ι σ α} :
      Step leaves i c c' → Steps leaves is c' c'' → Steps leaves (i :: is) c c''

namespace Steps

variable {leaves : σ → σ → Prop} {i : ι} {is : List ι} {c c' : Config ι σ α} {I : σ → Prop}

/-- A thread that takes no step stays where it is. -/
theorem activity_eq (h : Steps leaves is c c') (hi : i ∉ is) : c'.activity i = c.activity i := by
  induction h with
  | nil c => rfl
  | cons hstep _ ih =>
    obtain ⟨hne, hrest⟩ := not_or.mp (List.mem_cons.not.mp hi)
    rw [ih hrest, hstep.activity_eq hne]

/-- The invariant holds in every run of threads that preserve it. -/
theorem keeps (hleaves : ∀ s s', I s → leaves s s' → I s') (h : Steps leaves is c c')
    (hc : c.Keeps I) : c'.Keeps I := by
  induction h with
  | nil c => exact hc
  | cons hstep _ ih => exact ih (hstep.keeps hleaves hc)

end Steps

/-- Every thread `i` will return `a i`, however the threads take turns. -/
structure Config.Returns (I : σ → Prop) (a : ι → α) (c : Config ι σ α) : Prop where
  shared : I c.shared
  activity : ∀ i, ∃ p, c.activity i = .running p ∧ p.Returns I (a i)

section returns

variable {leaves : σ → σ → Prop} {I : σ → Prop} {a : ι → α} {i : ι} {c c' : Config ι σ α}

theorem Step.returns (h : Step leaves i c c') (hc : c.Returns I a) : c'.Returns I a := by
  obtain ⟨p, hact, hp⟩ := hc.activity i
  cases h with
  | proceed hact' hrun =>
    rw [hact, Activity.running.injEq] at hact'
    subst hact'
    obtain ⟨b, s', hrun', hs', hnext⟩ := hp _ hc.shared
    obtain ⟨rfl, rfl⟩ := Prod.mk.injEq .. ▸ Except.ok.inj (hrun.symm.trans hrun')
    refine ⟨hs', ?_⟩
    intro j
    by_cases hji : j = i
    · exact ⟨_, by rw [hji, Config.advance_self], hji ▸ hnext⟩
    · rw [Config.advance_of_ne c hji]
      exact hc.activity j
  | throw hact' hrun _ =>
    rw [hact, Activity.running.injEq] at hact'
    subst hact'
    obtain ⟨b, s', hrun', _⟩ := hp _ hc.shared
    rw [hrun] at hrun'
    simp at hrun'

theorem Steps.returns {is : List ι} (h : Steps leaves is c c') (hc : c.Returns I a) :
    c'.Returns I a := by
  induction h with
  | nil c => exact hc
  | cons hstep _ ih => exact ih (hstep.returns hc)

/-- A thread that has ended has returned its value, and one that has not can go on. -/
theorem Config.Returns.outcome (hc : c.Returns I a) (i : ι) :
    (c.activity i).outcome = some (.ok (a i)) ∨
      (c.activity i).outcome = none ∧ ∃ c', Step leaves i c c' := by
  obtain ⟨p, hact, hp⟩ := hc.activity i
  rw [hact]
  cases p with
  | done b =>
    obtain rfl : b = a i := hp
    exact Or.inl rfl
  | atomic f next =>
    obtain ⟨b, s', hrun, _⟩ := hp _ hc.shared
    exact Or.inr ⟨rfl, _, Step.proceed hact hrun⟩

end returns

/-- The thread `i` takes steps, and other threads take some that do not change the
state. -/
inductive Quiet (leaves : σ → σ → Prop) (i : ι) : Config ι σ α → Config ι σ α → Prop
  | refl (c : Config ι σ α) : Quiet leaves i c c
  | own {c c' c'' : Config ι σ α} :
      Step leaves i c c' → Quiet leaves i c' c'' → Quiet leaves i c c''
  | other {j : ι} {c c' c'' : Config ι σ α} : j ≠ i → Step leaves j c c' → c'.shared = c.shared →
      Quiet leaves i c' c'' → Quiet leaves i c c''

namespace Quiet

variable {leaves : σ → σ → Prop} {i : ι} {c c' : Config ι σ α}

theorem failed_eq (h : Quiet leaves i c c') {e : Exn} (hi : c.activity i = .failed e) :
    c'.activity i = .failed e := by
  induction h with
  | refl c => exact hi
  | own hstep _ ih =>
    cases hstep with
    | proceed hact _ =>
      rw [hi] at hact
      simp at hact
    | throw hact _ _ =>
      rw [hi] at hact
      simp at hact
  | other hne hstep _ _ ih =>
    apply ih
    rw [hstep.activity_eq hne.symm, hi]

/-- The steps of a thread that is not disturbed are its run. -/
theorem outcome_eq_run (h : Quiet leaves i c c') {p : Thread σ α} {o : Run α}
    (hact : c.activity i = .running p) (ho : (c'.activity i).outcome = some o) :
    o = (p.run c.shared).map Prod.fst := by
  induction h generalizing p with
  | refl c =>
    rw [hact] at ho
    cases p with
    | done a =>
      rw [Activity.outcome, Option.some.injEq] at ho
      exact ho.symm
    | atomic f next => simp [Activity.outcome] at ho
  | own hstep hrest ih =>
    cases hstep with
    | proceed hact' hrun =>
      rw [hact, Activity.running.injEq] at hact'
      subst hact'
      rw [ih (Config.advance_self _ _ _ _) ho, Thread.run, hrun, ok_bind]
      rfl
    | throw hact' hrun _ =>
      rw [hact, Activity.running.injEq] at hact'
      subst hact'
      rw [hrest.failed_eq (Config.advance_self _ _ _ _), Activity.outcome, Option.some.injEq] at ho
      rw [← ho, Thread.run, hrun]
      rfl
  | other hne hstep hshared _ ih =>
    rw [← hshared]
    apply ih _ ho
    rw [hstep.activity_eq hne.symm, hact]

end Quiet

/-- The run in which no other thread changes the state between the first step of the
thread `i` and its last one. -/
def Undisturbed (leaves : σ → σ → Prop) (i : ι) (c₀ c₁ : Config ι σ α) : Prop :=
  ∃ is js c c', i ∉ is ∧ i ∉ js ∧ Steps leaves is c₀ c ∧ Quiet leaves i c c' ∧
    Steps leaves js c' c₁

/-- A thread that is not disturbed behaves as if it ran alone, from some state with the
invariant. -/
theorem Undisturbed.alone {leaves : σ → σ → Prop} {i : ι} {c₀ c₁ : Config ι σ α} {I : σ → Prop}
    {p : Thread σ α} {o : Run α} (h : Undisturbed leaves i c₀ c₁)
    (hleaves : ∀ s s', I s → leaves s s' → I s') (hc : c₀.Keeps I)
    (hact : c₀.activity i = .running p) (ho : (c₁.activity i).outcome = some o) :
    ∃ s, I s ∧ o = (p.run s).map Prod.fst := by
  obtain ⟨is, js, c, c', his, hjs, hbefore, hquiet, hafter⟩ := h
  refine ⟨c.shared, (hbefore.keeps hleaves hc).shared, ?_⟩
  apply hquiet.outcome_eq_run
  · rw [hbefore.activity_eq his, hact]
  · rw [← hafter.activity_eq hjs]
    exact ho

/-! ## Schedules -/

/-- The next step of the thread `i`, when it has one and does not throw. -/
def Config.next (c : Config ι σ α) (i : ι) : Option (Config ι σ α) :=
  match c.activity i with
  | .running (.atomic f next) =>
    match f c.shared with
    | .ok (b, s') => some (c.advance i s' (.running (next b)))
    | .error _ => none
  | _ => none

/-- The steps of a schedule, as long as `allowed` holds of what they do to the state. -/
def Config.exec (allowed : ι → σ → σ → Bool) : List ι → Config ι σ α → Option (Config ι σ α)
  | [], c => some c
  | i :: is, c =>
    match c.next i with
    | some c' => if allowed i c.shared c'.shared then exec allowed is c' else none
    | none => none

theorem Config.step_of_next (leaves : σ → σ → Prop) {c c' : Config ι σ α} {i : ι}
    (h : c.next i = some c') : Step leaves i c c' := by
  unfold next at h
  split at h
  · rename_i f next hact
    split at h
    · rename_i b s' hrun
      rw [Option.some.injEq] at h
      exact h ▸ Step.proceed hact hrun
    · simp at h
  · simp at h

theorem Config.exec_cons {allowed : ι → σ → σ → Bool} {i : ι} {is : List ι} {c c'' : Config ι σ α}
    (h : exec allowed (i :: is) c = some c'') :
    ∃ c', c.next i = some c' ∧ allowed i c.shared c'.shared ∧ exec allowed is c' = some c'' := by
  unfold exec at h
  split at h
  · rename_i c' hnext
    split_ifs at h with hquiet
    exact ⟨c', hnext, hquiet, h⟩
  · simp at h

theorem Steps.of_exec (leaves : σ → σ → Prop) {allowed : ι → σ → σ → Bool} {is : List ι}
    {c c' : Config ι σ α} (h : c.exec allowed is = some c') : Steps leaves is c c' := by
  induction is generalizing c with
  | nil =>
    rw [Config.exec, Option.some.injEq] at h
    exact h ▸ Steps.nil c
  | cons i is ih =>
    obtain ⟨c₁, hnext, _, hrest⟩ := Config.exec_cons h
    exact Steps.cons (Config.step_of_next leaves hnext) (ih hrest)

theorem Quiet.of_exec [DecidableEq σ] (leaves : σ → σ → Prop) {i : ι} {is : List ι}
    {c c' : Config ι σ α} (h : c.exec (fun j s s' => decide (j = i ∨ s' = s)) is = some c') :
    Quiet leaves i c c' := by
  induction is generalizing c with
  | nil =>
    rw [Config.exec, Option.some.injEq] at h
    exact h ▸ Quiet.refl c
  | cons j is ih =>
    obtain ⟨c₁, hnext, hquiet, hrest⟩ := Config.exec_cons h
    have hstep := Config.step_of_next leaves hnext
    rw [decide_eq_true_iff] at hquiet
    by_cases hj : j = i
    · exact Quiet.own (hj ▸ hstep) (ih hrest)
    · exact Quiet.other hj hstep (hquiet.resolve_left hj) (ih hrest)

end Java
