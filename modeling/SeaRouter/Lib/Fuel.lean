import Mathlib.Data.Fintype.Order
import Mathlib.Order.WellFounded
import SeaRouter.Lib.Run

/-!
# Runs with fuel

A run that takes its fuel as an argument either `Ends` with a result, which more
fuel does not change, or it uses up whatever fuel it is given.  `ThrowsNothing` says that a run can
fail in no other way.

A recursion that divides its argument into finitely many parts and calls itself on
some of them needs a fuel for each level.  `Shallow` says that a number of levels is
enough, and `exists_shallow_iff` that there is such a number exactly when no chain of
parts goes on for ever.
-/

namespace Java

variable {α β : Type}

/-- With enough fuel the run returns `r`. -/
def Ends (run : Nat → Run α) (r : α) : Prop := ∃ F, ∀ fuel, F ≤ fuel → run fuel = Except.ok r

/-- The run throws nothing, it can only run out of fuel. -/
def ThrowsNothing (x : Run α) : Prop := ∀ e, x = Except.error e → e = Exn.outOfFuel

/-! ## Runs that end -/

theorem Ends.pure (r : α) : Ends (fun _ => Except.ok r) r := ⟨0, fun _ _ => rfl⟩

theorem Ends.bind {f : Nat → Run α} {g : α → Nat → Run β} {a : α} {b : β} (hf : Ends f a)
    (hg : Ends (g a) b) : Ends (fun n => f n >>= fun x => g x n) b := by
  obtain ⟨F, hF⟩ := hf
  obtain ⟨F', hF'⟩ := hg
  refine ⟨F + F', ?_⟩
  intro fuel hfuel
  show f fuel >>= _ = _
  rw [hF fuel (by omega), ok_bind]
  exact hF' fuel (by omega)

/-- A part of the run that uses no fuel. -/
theorem Ends.ok_bind {x : Run α} {g : α → Nat → Run β} {a : α} {b : β} (hx : x = Except.ok a)
    (hg : Ends (g a) b) : Ends (fun n => x >>= fun y => g y n) b := by
  subst hx
  exact hg

/-- A loop that fills a new array, when each of its calls ends. -/
theorem Ends.mapM {f : α → Nat → Run β} (l : List α) (h : ∀ x ∈ l, ∃ y, Ends (f x) y) :
    ∃ r, Ends (fun n => l.mapM fun x => f x n) r := by
  induction l with
  | nil => exact ⟨[], Ends.pure []⟩
  | cons x l ih =>
    obtain ⟨y, hy⟩ := h x List.mem_cons_self
    obtain ⟨r, hr⟩ := ih fun z hz => h z (List.mem_cons_of_mem x hz)
    refine ⟨y :: r, ?_⟩
    simp only [List.mapM_cons]
    exact hy.bind (hr.bind (Ends.pure (y :: r)))

/-- The rule of a `for` loop whose iterations end. -/
theorem Ends.foldlM {f : Nat → β → α → Run β} {P : List α → β → Prop} (l : List α) (b : β)
    (h0 : P [] b) (hstep : ∀ pre x post b, l = pre ++ x :: post → P pre b →
      ∃ b', Ends (fun n => f n b x) b' ∧ P (pre ++ [x]) b') :
    ∃ b', Ends (fun n => l.foldlM (f n) b) b' ∧ P l b' := by
  induction l generalizing P b with
  | nil => exact ⟨b, Ends.pure b, h0⟩
  | cons x rest ih =>
    obtain ⟨b₁, hb₁, hP₁⟩ := hstep [] x rest b rfl h0
    obtain ⟨b₂, hb₂, hP₂⟩ := ih (P := fun pre b => P (x :: pre) b) b₁ hP₁ (by
      intro pre y post b hl hP
      exact hstep (x :: pre) y post b (by rw [hl]; rfl) hP)
    refine ⟨b₂, ?_, hP₂⟩
    simp only [List.foldlM_cons]
    exact hb₁.bind hb₂

/-! ## Runs that can only run out of fuel -/

theorem ThrowsNothing.ok (a : α) : ThrowsNothing (Except.ok a) := by
  intro e h
  cases h

theorem ThrowsNothing.of_eq_ok {x : Run α} {a : α} (h : x = Except.ok a) : ThrowsNothing x := by
  rw [h]
  exact ThrowsNothing.ok a

theorem ThrowsNothing.bind {x : Run α} {f : α → Run β} (hx : ThrowsNothing x)
    (hf : ∀ a, x = Except.ok a → ThrowsNothing (f a)) : ThrowsNothing (x >>= f) := by
  intro e h
  cases hrun : x with
  | error e' =>
    rw [hrun, error_bind, Except.error.injEq] at h
    rw [← h]
    exact hx e' hrun
  | ok a =>
    rw [hrun, Java.ok_bind] at h
    exact hf a hrun e h

theorem ThrowsNothing.mapM {f : α → Run β} (l : List α) (h : ∀ x ∈ l, ThrowsNothing (f x)) :
    ThrowsNothing (l.mapM f) := by
  induction l with
  | nil => exact ThrowsNothing.ok []
  | cons x l ih =>
    rw [List.mapM_cons]
    apply (h x List.mem_cons_self).bind
    intro y _
    apply (ih fun z hz => h z (List.mem_cons_of_mem x hz)).bind
    intro r _
    exact ThrowsNothing.ok (y :: r)

/-- A run that throws nothing and does not return is out of fuel. -/
theorem ThrowsNothing.outOfFuel {x : Run α} (h : ThrowsNothing x) (hno : ∀ a, x ≠ Except.ok a) :
    x = Except.error Exn.outOfFuel := by
  cases hrun : x with
  | error e => rw [h e hrun]
  | ok a => exact absurd hrun (hno a)

/-! ## A recursion into finitely many parts -/

section parts

variable {ι : Type} (part : α → ι → Option α)

/-- `n` levels are enough for `x` and the parts into which it is divided. -/
def Shallow : Nat → α → Prop
  | 0, _ => False
  | n + 1, x => ∀ i y, part x i = some y → Shallow n y

variable {part}

theorem Shallow.mono {n m : Nat} (hnm : n ≤ m) {x : α} (h : Shallow part n x) :
    Shallow part m x := by
  induction n generalizing m x with
  | zero => exact absurd h id
  | succ n ih =>
    obtain ⟨m, rfl⟩ : ∃ k, m = k + 1 := ⟨m - 1, by omega⟩
    intro i y hy
    exact ih (by omega) (h i y hy)

/-- The parts of one value need no more levels than the deepest of them. -/
theorem exists_shallow_of_parts [Finite ι] {x : α}
    (h : ∀ i y, part x i = some y → ∃ n, Shallow part n y) : ∃ n, Shallow part n x := by
  have hlevel : ∀ i, ∃ n, ∀ y, part x i = some y → Shallow part n y := by
    intro i
    cases hpart : part x i with
    | none => exact ⟨0, fun y hy => by simp at hy⟩
    | some y =>
      obtain ⟨n, hn⟩ := h i y hpart
      refine ⟨n, ?_⟩
      intro z hz
      rw [← Option.some.inj hz]
      exact hn
  choose level hlevel using hlevel
  obtain ⟨n, hn⟩ := Finite.exists_le level
  exact ⟨n + 1, fun i y hy => (hlevel i y hy).mono (hn i)⟩

/-- No chain of parts goes on for ever exactly when finitely many levels are enough. -/
theorem exists_shallow_iff [Finite ι] {x : α} :
    (∃ n, Shallow part n x) ↔
      ¬ ∃ f : Nat → α, f 0 = x ∧ ∀ n, ∃ i, part (f n) i = some (f (n + 1)) := by
  constructor
  · intro h
    obtain ⟨n, hn⟩ := h
    induction n generalizing x with
    | zero => exact absurd hn id
    | succ n ih =>
      intro hchain
      obtain ⟨f, rfl, hf⟩ := hchain
      obtain ⟨i, hi⟩ := hf 0
      exact ih (hn i _ hi) ⟨fun n => f (n + 1), rfl, fun n => hf (n + 1)⟩
  · intro hno
    have hacc : Acc (fun y x => ∃ i, part x i = some y) x := by
      by_contra h
      exact hno (not_acc_iff_exists_descending_chain.mp h)
    induction hacc with
    | intro x _ ih =>
      apply exists_shallow_of_parts
      intro i y hy
      apply ih y ⟨i, hy⟩
      intro hchain
      obtain ⟨f, rfl, hf⟩ := hchain
      refine hno ⟨fun n => Nat.casesOn n x f, rfl, ?_⟩
      intro n
      cases n with
      | zero => exact ⟨i, hy⟩
      | succ n => exact hf n

end parts

end Java
