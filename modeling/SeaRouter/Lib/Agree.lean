import SeaRouter.Lib.Run

/-!
# Runs that end alike

`Agree R x y` says that two runs either both return, with results that `R`
relates, or both end with the same exception.  A program that is run from two
states which only differ in what it never reads is compared with itself in this
way: `bind`, `foldlM` and `whileLoop` are the rules for its parts.  A loop needs
a relation of the states that fixes its guard and that its body preserves.

`Ensures P x` is about one run: when it returns, its result has the property `P`.
The rules are the same.
-/

namespace Java

variable {α β α' β' σ τ γ : Type}

/-- The two runs end alike. -/
inductive Agree (R : α → β → Prop) : Run α → Run β → Prop
  | ok {a : α} {b : β} : R a b → Agree R (.ok a) (.ok b)
  | error (e : Exn) : Agree R (.error e) (.error e)

/-- The same value, of which `P` holds, next to related states. -/
inductive Paired (P : γ → Prop) (R : α → β → Prop) : γ × α → γ × β → Prop
  | mk {c : γ} {a : α} {b : β} : P c → R a b → Paired P R (c, a) (c, b)

namespace Agree

variable {R : α → β → Prop} {S : α' → β' → Prop} {x : Run α} {y : Run β}

theorem refl {R : α → α → Prop} (h : ∀ a, R a a) (x : Run α) : Agree R x x := by
  cases x with
  | error e => exact error e
  | ok a => exact ok (h a)

theorem mono {R' : α → β → Prop} (h : Agree R x y) (hR : ∀ a b, R a b → R' a b) :
    Agree R' x y := by
  cases h with
  | ok hab => exact ok (hR _ _ hab)
  | error e => exact error e

theorem of_ok {a : α} {b : β} (hx : x = .ok a) (hy : y = .ok b) (hab : R a b) :
    Agree R x y := by
  rw [hx, hy]
  exact ok hab

/-- One of two composed runs after the other. -/
theorem bind {f : α → Run α'} {g : β → Run β'} (h : Agree R x y)
    (hfg : ∀ a b, R a b → Agree S (f a) (g b)) : Agree S (x >>= f) (y >>= g) := by
  cases h with
  | ok hab => exact hfg _ _ hab
  | error e => exact error e

/-- Both runs begin with the same part. -/
theorem bind_same (x : Run γ) {f : γ → Run α'} {g : γ → Run β'}
    (hfg : ∀ c, x = .ok c → Agree S (f c) (g c)) : Agree S (x >>= f) (x >>= g) := by
  cases x with
  | error e => exact error e
  | ok c => exact hfg c rfl

theorem foldlM {f : α → γ → Run α} {g : β → γ → Run β} :
    ∀ (l : List γ) {a : α} {b : β}, R a b →
      (∀ x ∈ l, ∀ a b, R a b → Agree R (f a x) (g b x)) →
      Agree R (l.foldlM f a) (l.foldlM g b) := by
  intro l
  induction l with
  | nil =>
    intro a b hab _
    exact ok hab
  | cons x l ih =>
    intro a b hab hstep
    rw [List.foldlM_cons, List.foldlM_cons]
    apply bind (hstep x List.mem_cons_self a b hab)
    intro a' b' hab'
    exact ih hab' (fun y hy => hstep y (List.mem_cons_of_mem x hy))

/-- The rule of two `while` loops: related states have the same guard, and the
bodies lead to related states. -/
theorem whileLoop {c : σ → Run Bool} {f : σ → Run σ} {d : τ → Run Bool} {g : τ → Run τ}
    {R : σ → τ → Prop} (hguard : ∀ s t, R s t → ∃ b, c s = .ok b ∧ d t = .ok b)
    (hbody : ∀ s t, R s t → c s = .ok true → Agree R (f s) (g t)) :
    ∀ (fuel : Nat) {s : σ} {t : τ}, R s t →
      Agree R (whileLoop c f fuel s) (whileLoop d g fuel t) := by
  intro fuel
  induction fuel with
  | zero =>
    intro s t hst
    obtain ⟨b, hc, hd⟩ := hguard s t hst
    simp only [Java.whileLoop, hc, hd, ok_bind]
    cases b with
    | false => exact ok hst
    | true => exact error _
  | succ fuel ih =>
    intro s t hst
    obtain ⟨b, hc, hd⟩ := hguard s t hst
    simp only [Java.whileLoop, hc, hd, ok_bind]
    cases b with
    | false => exact ok hst
    | true =>
      apply bind (hbody s t hst hc)
      intro s' t' hst'
      exact ih hst'

/-- What both runs return, where `R` says that this part of the results is the
same. -/
theorem map_eq {p : α → γ} {q : β → γ} (h : Agree R x y) (hpq : ∀ a b, R a b → p a = q b) :
    x.map p = y.map q := by
  cases h with
  | ok hab => exact congrArg Except.ok (hpq _ _ hab)
  | error e => rfl

/-- A result of one run is related to one of the other. -/
theorem exists_right {a : α} (h : Agree R x y) (hx : x = .ok a) : ∃ b, y = .ok b ∧ R a b := by
  cases h with
  | ok hab =>
    rw [Except.ok.injEq] at hx
    subst hx
    exact ⟨_, rfl, hab⟩
  | error e => simp at hx

end Agree

/-- When the run returns, its result has the property `P`. -/
structure Ensures (P : α → Prop) (x : Run α) : Prop where
  result : ∀ a, x = .ok a → P a

namespace Ensures

variable {P : α → Prop} {Q : β → Prop}

theorem ok {a : α} (h : P a) : Ensures P (.ok a) := by
  constructor
  intro b hb
  rw [Except.ok.injEq] at hb
  exact hb ▸ h

theorem bind {x : Run α} {f : α → Run β} (h : Ensures P x) (hf : ∀ a, P a → Ensures Q (f a)) :
    Ensures Q (x >>= f) := by
  constructor
  intro b hb
  rw [bind_eq_ok] at hb
  obtain ⟨a, ha, hb⟩ := hb
  exact (hf a (h.result a ha)).result b hb

/-- Nothing is needed of the result of the first part. -/
theorem bind_any {x : Run α} {f : α → Run β} (hf : ∀ a, Ensures Q (f a)) : Ensures Q (x >>= f) :=
  bind (P := fun _ => True) ⟨fun _ _ => trivial⟩ fun a _ => hf a

theorem foldlM {f : α → γ → Run α} (l : List γ) {a : α} (h0 : P a)
    (hstep : ∀ x a, P a → Ensures P (f a x)) : Ensures P (l.foldlM f a) := by
  constructor
  intro b hb
  exact foldlM_inv (P := fun _ a => P a) l a b h0 hb
    fun _ x _ a a' _ ha ha' => (hstep x a ha).result a' ha'

theorem whileLoop {c : σ → Run Bool} {f : σ → Run σ} {P : σ → Prop}
    (hbody : ∀ s, P s → Ensures P (f s)) (fuel : Nat) {s : σ} (h0 : P s) :
    Ensures P (whileLoop c f fuel s) := by
  constructor
  intro s' hs'
  exact (whileLoop_inv (fun s s₁ hs _ hs₁ => (hbody s hs).result s₁ hs₁) fuel s s' h0 hs').1

end Ensures

end Java
