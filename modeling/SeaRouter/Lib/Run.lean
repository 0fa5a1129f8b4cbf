import Mathlib.Tactic

/-!
# Runs that may throw, and their loops

A statement that may throw is a value of `Run α`: the result it returns, or
the exception that ends it.  `outOfFuel` is the one exception that no program
throws; it is the answer of a loop that used up the steps its model allows,
and every termination result says that it does not occur.

* `foldlM_spec` is the rule of a `for` loop over the elements of a list: an
  invariant that speaks of the elements already visited.
* `foldlM_inv` is the same rule for a run that is known to return.
* `whileLoop_bounded`, `whileLoop_spec` and `whileLoop_inv` are the rules of a `while` loop:
  total correctness from an invariant and a measure, and partial correctness
  from an invariant.
* `foldlM_abstract` and `whileLoop_abstract` are for a loop whose effect on an
  abstract value is the same from every state that represents this value.
-/

namespace Java

/-- What ends a run that returns nothing. -/
inductive Exn where
  | indexOutOfBounds
  | nullPointer
  | numberFormat
  | negativeArraySize
  | illegalArgument
  | outOfFuel
deriving DecidableEq, Repr

/-- The outcome of a run: a result or an exception. -/
abbrev Run (α : Type) := Except Exn α

variable {α β σ : Type}

@[simp]
theorem ok_bind (a : α) (f : α → Run β) : ((Except.ok a : Run α) >>= f) = f a := rfl

@[simp]
theorem error_bind (e : Exn) (f : α → Run β) :
    ((Except.error e : Run α) >>= f) = Except.error e := rfl

@[simp]
theorem pure_eq_ok (a : α) : (pure a : Run α) = Except.ok a := rfl

/-- A composed run returns exactly when both of its parts do. -/
theorem bind_eq_ok {x : Run α} {f : α → Run β} {b : β} :
    (x >>= f) = Except.ok b ↔ ∃ a, x = Except.ok a ∧ f a = Except.ok b := by
  cases x with
  | error e => simp
  | ok a => simp

/-- A run whose value passes a test returns such a value. -/
theorem exists_of_map_toOption {x : Run α} {p : α → Bool}
    (h : x.toOption.map p = some true) : ∃ a, x = Except.ok a ∧ p a = true := by
  cases x with
  | error e => simp [Except.toOption] at h
  | ok a => exact ⟨a, rfl, by simpa [Except.toOption] using h⟩

/-! ## Loops over a list -/

/-- The rule of a `for` loop.  `P pre b` is the invariant after the elements
`pre`; a step from it returns and restores it. -/
theorem foldlM_spec {f : β → α → Run β} {P : List α → β → Prop} :
    ∀ (l : List α) (b : β), P [] b →
      (∀ pre x post b, l = pre ++ x :: post → P pre b →
        ∃ b', f b x = Except.ok b' ∧ P (pre ++ [x]) b') →
      ∃ b', l.foldlM f b = Except.ok b' ∧ P l b' := by
  intro l
  induction l generalizing P with
  | nil =>
    intro b h0 _
    exact ⟨b, rfl, h0⟩
  | cons x rest ih =>
    intro b h0 hstep
    obtain ⟨b₁, hb₁, hP₁⟩ := hstep [] x rest b rfl h0
    obtain ⟨b₂, hb₂, hP₂⟩ := ih (P := fun pre b => P (x :: pre) b) b₁ hP₁ (by
      intro pre y post b hl hP
      exact hstep (x :: pre) y post b (by rw [hl]; rfl) hP)
    exact ⟨b₂, by rw [List.foldlM_cons, hb₁, ok_bind, hb₂], hP₂⟩

/-- The rule of a `for` loop that is known to return. -/
theorem foldlM_inv {f : β → α → Run β} {P : List α → β → Prop} :
    ∀ (l : List α) (b b' : β), P [] b → l.foldlM f b = Except.ok b' →
      (∀ pre x post b b', l = pre ++ x :: post → P pre b → f b x = Except.ok b' →
        P (pre ++ [x]) b') →
      P l b' := by
  intro l
  induction l generalizing P with
  | nil =>
    intro b b' h0 hrun _
    rw [List.foldlM_nil, pure_eq_ok, Except.ok.injEq] at hrun
    exact hrun ▸ h0
  | cons x rest ih =>
    intro b b' h0 hrun hstep
    rw [List.foldlM_cons, bind_eq_ok] at hrun
    obtain ⟨b₁, hb₁, hrest⟩ := hrun
    refine ih (P := fun pre b => P (x :: pre) b) b₁ b'
      (hstep [] x rest b b₁ rfl h0 hb₁) hrest ?_
    intro pre y post b b' hl hP hf
    exact hstep (x :: pre) y post b b' (by rw [hl]; rfl) hP hf

/-- The rule of a `for` loop on states that represent an abstract value.  The
value after the loop depends neither on the state nor on the index `i`. -/
theorem foldlM_abstract {ι γ : Type} {f : ι → β → α → Run β} {Q : List α → γ → Prop}
    {R : ι → γ → β → Prop} (l : List α) (a : γ) (h0 : Q [] a)
    (hstep : ∀ pre x post a, l = pre ++ x :: post → Q pre a →
      ∃ a', Q (pre ++ [x]) a' ∧ ∀ i b, R i a b → ∃ b', f i b x = Except.ok b' ∧ R i a' b') :
    ∃ a', Q l a' ∧ ∀ i b, R i a b → ∃ b', l.foldlM (f i) b = Except.ok b' ∧ R i a' b' := by
  induction l generalizing Q a with
  | nil => exact ⟨a, h0, fun _ b hb => ⟨b, rfl, hb⟩⟩
  | cons x rest ih =>
    obtain ⟨a₁, hQ₁, hrun₁⟩ := hstep [] x rest a rfl h0
    obtain ⟨a₂, hQ₂, hrun₂⟩ := ih (Q := fun pre a => Q (x :: pre) a) a₁ hQ₁ (by
      intro pre y post a hl hQ
      exact hstep (x :: pre) y post a (by rw [hl]; rfl) hQ)
    refine ⟨a₂, hQ₂, ?_⟩
    intro i b hb
    obtain ⟨b₁, hb₁, hR₁⟩ := hrun₁ i b hb
    obtain ⟨b₂, hb₂, hR₂⟩ := hrun₂ i b₁ hR₁
    exact ⟨b₂, by rw [List.foldlM_cons, hb₁, ok_bind, hb₂], hR₂⟩

/-- Two nested loops are one loop over all elements. -/
theorem foldlM_flatMap {γ : Type} (f : β → α → Run β) (g : γ → List α) :
    ∀ (l : List γ) (b : β),
      l.foldlM (fun b c => (g c).foldlM f b) b = (l.flatMap g).foldlM f b := by
  intro l
  induction l with
  | nil =>
    intro b
    rfl
  | cons c l ih =>
    intro b
    rw [List.foldlM_cons, List.flatMap_cons, List.foldlM_append]
    congr 1
    funext b'
    exact ih b'

/-- A loop that fills a new array, when none of its calls fails. -/
theorem mapM_eq_ok {f : α → Run β} {g : α → β} :
    ∀ l : List α, (∀ x ∈ l, f x = Except.ok (g x)) → l.mapM f = Except.ok (l.map g) := by
  intro l
  induction l with
  | nil =>
    intro _
    rfl
  | cons x l ih =>
    intro h
    rw [List.mapM_cons, h x List.mem_cons_self, ok_bind,
      ih (fun y hy => h y (List.mem_cons_of_mem x hy)), ok_bind]
    rfl

/-- What such a loop leaves in the array. -/
theorem mem_of_mapM {f : α → Run β} {l : List α} {r : List β} (h : l.mapM f = Except.ok r) {y : β} :
    y ∈ r ↔ ∃ x ∈ l, f x = Except.ok y := by
  induction l generalizing r with
  | nil =>
    obtain rfl : [] = r := by simpa using h
    simp
  | cons x l ih =>
    simp only [List.mapM_cons, bind_eq_ok, pure_eq_ok, Except.ok.injEq] at h
    obtain ⟨z, hz, rest, hrest, rfl⟩ := h
    rw [List.mem_cons, ih hrest, List.exists_mem_cons_iff, hz, Except.ok.injEq, eq_comm]

/-- A loop that can only throw `e` does so when one of its elements makes it. -/
theorem foldlM_error {f : β → α → Run β} {e : Exn} :
    ∀ (l : List α) (b : β),
      (∀ x ∈ l, ∀ b, f b x = Except.error e ∨ ∃ b', f b x = Except.ok b') →
      (∃ x ∈ l, ∀ b, f b x = Except.error e) → l.foldlM f b = Except.error e := by
  intro l
  induction l with
  | nil =>
    intro b _ hx
    obtain ⟨x, hx, _⟩ := hx
    exact absurd hx List.not_mem_nil
  | cons x l ih =>
    intro b hall hex
    rw [List.foldlM_cons]
    rcases hall x List.mem_cons_self b with h | ⟨b', h⟩
    · rw [h, error_bind]
    · rw [h, ok_bind]
      apply ih b' (fun y hy => hall y (List.mem_cons_of_mem x hy))
      obtain ⟨y, hy, hbad⟩ := hex
      rcases List.mem_cons.mp hy with rfl | hy
      · exact absurd h (by rw [hbad b]; simp)
      · exact ⟨y, hy, hbad⟩

/-! ## While loops -/

/-- A `while` loop with at most `fuel` iterations. -/
def whileLoop (cond : σ → Run Bool) (body : σ → Run σ) : Nat → σ → Run σ
  | 0, s => do
    if ← cond s then throw .outOfFuel else return s
  | fuel + 1, s => do
    if ← cond s then
      let s' ← body s
      whileLoop cond body fuel s'
    else return s

theorem whileLoop_of_false {c : σ → Run Bool} {f : σ → Run σ} {s : σ}
    (h : c s = Except.ok false) (fuel : Nat) :
    whileLoop c f fuel s = Except.ok s := by
  cases fuel with
  | zero => simp [whileLoop, h]
  | succ fuel => simp [whileLoop, h]

theorem whileLoop_of_true {c : σ → Run Bool} {f : σ → Run σ} {s r : σ}
    (h : c s = Except.ok true) (hs : f s = Except.ok r) (fuel : Nat) :
    whileLoop c f (fuel + 1) s = whileLoop c f fuel r := by
  simp [whileLoop, h, hs]

/-- A loop that ended with some fuel ends the same way with more. -/
theorem whileLoop_mono {c : σ → Run Bool} {f : σ → Run σ} :
    ∀ {k fuel : Nat} {s s' : σ}, whileLoop c f k s = Except.ok s' → k ≤ fuel →
      whileLoop c f fuel s = Except.ok s' := by
  intro k
  induction k with
  | zero =>
    intro fuel s s' hrun _
    rw [whileLoop, bind_eq_ok] at hrun
    obtain ⟨b, hb, hrun⟩ := hrun
    cases b with
    | false =>
      obtain rfl : s = s' := by simpa using hrun
      exact whileLoop_of_false hb fuel
    | true => exact absurd hrun (by simp [throw, throwThe, MonadExceptOf.throw])
  | succ k ih =>
    intro fuel s s' hrun hle
    obtain ⟨fuel, rfl⟩ : ∃ m, fuel = m + 1 := ⟨fuel - 1, by omega⟩
    rw [whileLoop, bind_eq_ok] at hrun
    obtain ⟨b, hb, hrun⟩ := hrun
    cases b with
    | false =>
      obtain rfl : s = s' := by simpa using hrun
      exact whileLoop_of_false hb _
    | true =>
      simp only [if_true, bind_eq_ok] at hrun
      obtain ⟨s₁, hs₁, hrun⟩ := hrun
      rw [whileLoop_of_true hb hs₁]
      exact ih hrun (by omega)

/-- Total correctness of a `while` loop.  The invariant `I k` decides the guard
and allows at most `k` more iterations, each of which restores it for a
smaller bound. -/
theorem whileLoop_bounded {c : σ → Run Bool} {f : σ → Run σ} {I : Nat → σ → Prop}
    (hcond : ∀ k s, I k s → ∃ b, c s = Except.ok b)
    (hbody : ∀ k s, I k s → c s = Except.ok true →
      ∃ s' k', f s = Except.ok s' ∧ I k' s' ∧ k' < k) :
    ∀ (fuel : Nat) (k : Nat) (s : σ), I k s → k ≤ fuel →
      ∃ s' k', whileLoop c f fuel s = Except.ok s' ∧ I k' s' ∧
        c s' = Except.ok false := by
  intro fuel
  induction fuel with
  | zero =>
    intro k s hI hk
    obtain ⟨b, hb⟩ := hcond k s hI
    cases b with
    | false => exact ⟨s, k, whileLoop_of_false hb 0, hI, hb⟩
    | true =>
      obtain ⟨s', k', _, _, hlt⟩ := hbody k s hI hb
      exact absurd hlt (by omega)
  | succ fuel ih =>
    intro k s hI hk
    obtain ⟨b, hb⟩ := hcond k s hI
    cases b with
    | false => exact ⟨s, k, whileLoop_of_false hb _, hI, hb⟩
    | true =>
      obtain ⟨s', k', hs', hI', hlt⟩ := hbody k s hI hb
      obtain ⟨s'', k'', hrun, hI'', hc⟩ := ih k' s' hI' (by omega)
      exact ⟨s'', k'', by rw [whileLoop_of_true hb hs', hrun], hI'', hc⟩

/-- The same, with the bound as a measure of the state. -/
theorem whileLoop_spec {c : σ → Run Bool} {f : σ → Run σ} {I : σ → Prop}
    {μ : σ → Nat}
    (hcond : ∀ s, I s → ∃ b, c s = Except.ok b)
    (hbody : ∀ s, I s → c s = Except.ok true →
      ∃ s', f s = Except.ok s' ∧ I s' ∧ μ s' < μ s)
    (fuel : Nat) (s : σ) (hI : I s) (hμ : μ s ≤ fuel) :
    ∃ s', whileLoop c f fuel s = Except.ok s' ∧ I s' ∧ c s' = Except.ok false := by
  obtain ⟨s', _, hrun, ⟨hI', _⟩, hc⟩ := whileLoop_bounded
    (I := fun k s => I s ∧ μ s = k) (fun _ s h => hcond s h.1) (by
      rintro k s ⟨hI, rfl⟩ hb
      obtain ⟨s', hs', hI', hlt⟩ := hbody s hI hb
      exact ⟨s', μ s', hs', ⟨hI', rfl⟩, hlt⟩) fuel (μ s) s ⟨hI, rfl⟩ hμ
  exact ⟨s', hrun, hI', hc⟩

/-- The rule of a `while` loop on states that represent an abstract value, whose
guard is `g`.  The value after the loop depends neither on the state nor on the
index `i`. -/
theorem whileLoop_abstract {ι γ : Type} {c : ι → σ → Run Bool} {f : ι → σ → Run σ} {Q : γ → Prop}
    {g : γ → Bool} {μ : γ → Nat} {R : ι → γ → σ → Prop}
    (hguard : ∀ i a s, Q a → R i a s → c i s = Except.ok (g a))
    (hstep : ∀ a, Q a → g a = true → ∃ a', Q a' ∧ μ a' < μ a ∧
      ∀ i s, R i a s → ∃ s', f i s = Except.ok s' ∧ R i a' s') (a : γ) (ha : Q a) :
    ∃ a', Q a' ∧ g a' = false ∧ ∀ i s fuel, R i a s → μ a ≤ fuel →
      ∃ s', whileLoop (c i) (f i) fuel s = Except.ok s' ∧ R i a' s' := by
  induction hm : μ a using Nat.strong_induction_on generalizing a with
  | _ m ih =>
    cases hg : g a with
    | false =>
      refine ⟨a, ha, hg, ?_⟩
      intro i s fuel hR _
      have hc := hguard i a s ha hR
      rw [hg] at hc
      exact ⟨s, whileLoop_of_false hc fuel, hR⟩
    | true =>
      obtain ⟨a₁, hQ₁, hlt, hrun₁⟩ := hstep a ha hg
      obtain ⟨a₂, hQ₂, hg₂, hrun₂⟩ := ih (μ a₁) (by omega) a₁ hQ₁ rfl
      refine ⟨a₂, hQ₂, hg₂, ?_⟩
      intro i s fuel hR hfuel
      have hc := hguard i a s ha hR
      rw [hg] at hc
      obtain ⟨s₁, hs₁, hR₁⟩ := hrun₁ i s hR
      obtain ⟨k, rfl⟩ : ∃ k, fuel = k + 1 := ⟨fuel - 1, by omega⟩
      obtain ⟨s₂, hs₂, hR₂⟩ := hrun₂ i s₁ k hR₁ (by omega)
      exact ⟨s₂, by rw [whileLoop_of_true hc hs₁, hs₂], hR₂⟩

/-- Partial correctness of a `while` loop. -/
theorem whileLoop_inv {c : σ → Run Bool} {f : σ → Run σ} {I : σ → Prop}
    (hbody : ∀ s s', I s → c s = Except.ok true → f s = Except.ok s' → I s') :
    ∀ (fuel : Nat) (s s' : σ), I s → whileLoop c f fuel s = Except.ok s' →
      I s' ∧ c s' = Except.ok false := by
  intro fuel
  induction fuel with
  | zero =>
    intro s s' hI hrun
    rw [whileLoop, bind_eq_ok] at hrun
    obtain ⟨b, hb, hrun⟩ := hrun
    cases b with
    | false =>
      obtain rfl : s = s' := by simpa using hrun
      exact ⟨hI, hb⟩
    | true => exact absurd hrun (by simp [throw, throwThe, MonadExceptOf.throw])
  | succ fuel ih =>
    intro s s' hI hrun
    rw [whileLoop, bind_eq_ok] at hrun
    obtain ⟨b, hb, hrun⟩ := hrun
    cases b with
    | false =>
      obtain rfl : s = s' := by simpa using hrun
      exact ⟨hI, hb⟩
    | true =>
      simp only [if_true, bind_eq_ok] at hrun
      obtain ⟨s₁, hs₁, hrun⟩ := hrun
      exact ih s₁ s' (hbody s s₁ hI hb hs₁) hrun

end Java
