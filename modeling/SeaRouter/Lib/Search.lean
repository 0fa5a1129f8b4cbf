import SeaRouter.Lib.Walk

/-!
# Label-setting search

The state of a shortest path search from `s` is a tentative distance `D` for
the nodes found so far, the nodes `S` that left the queue, and the queue `Q`.
`SearchInv` is what such a search keeps.  A node may be in the queue again
after it left it, because some searches put a node back whose distance did not
change.

`SearchInv.pop` takes a node with the smallest distance out of the queue and
relaxes its edges; it asks of the new distances only that each of them is the
old one or a strict improvement over one edge, and that every edge is relaxed.
A search that relaxes one edge after the other goes
through the states of `RelaxInv`, and `SearchInv.pop_relax` sums them up.
`SearchInv.isDist_of_min` and `SearchInv.isDist_of_empty` are the two ways to
read an exact distance off the state: for the node that is taken next, and for
every node when the queue is empty.
-/

namespace WGraph

variable {V : Type}

/-- The invariant of a search from `s`. -/
structure SearchInv (E : V → V → Int → Prop) (s : V) (D : V → Option Int)
    (S Q : V → Prop) : Prop where
  source : D s = some 0
  sound : ∀ v d, D v = some d → Walk E s v d
  cover : ∀ v d, D v = some d → S v ∨ Q v
  queued : ∀ v, Q v → ∃ d, D v = some d
  settled : ∀ v, S v → ∃ d, D v = some d
  relaxed : ∀ v d w l, S v → D v = some d → E v w l → ∃ d', D w = some d' ∧ d' ≤ d + l
  mono : ∀ v w a b, S v → Q w → D v = some a → D w = some b → a ≤ b
  exact : ∀ v d, S v → D v = some d → IsDist E s v d

variable {E : V → V → Int → Prop} {s : V} {D : V → Option Int} {S Q : V → Prop}

theorem searchInv_init [DecidableEq V] (E : V → V → Int → Prop) (s : V) :
    SearchInv E s (fun v => if v = s then some 0 else none) (fun _ => False)
      (fun v => v = s) where
  source := by simp
  sound := by
    intro v d h
    split_ifs at h with hv
    obtain rfl : 0 = d := by simpa using h
    rw [hv]
    exact Walk.nil s
  cover := by
    intro v d h
    split_ifs at h with hv
    exact Or.inr hv
  queued := by
    intro v hv
    exact ⟨0, by simp [hv]⟩
  settled := fun _ h => h.elim
  relaxed := fun _ _ _ _ h => h.elim
  mono := fun _ _ _ _ h => h.elim
  exact := fun _ _ h => h.elim

/-- Every walk from a found node leads out of the settled nodes through a node
of the queue, or ends in a settled node with a distance that is not longer. -/
theorem SearchInv.frontier (hinv : SearchInv E s D S Q) (hnn : ∀ u v l, E u v l → 0 ≤ l)
    {x v : V} {L : Int} (hw : Walk E x v L) :
    ∀ a, D x = some a →
      (∃ c, S v ∧ D v = some c ∧ c ≤ a + L) ∨ ∃ y b, Q y ∧ D y = some b ∧ b ≤ a + L := by
  induction hw with
  | nil x =>
    intro a ha
    rcases hinv.cover x a ha with hS | hQ
    · exact Or.inl ⟨a, hS, ha, by omega⟩
    · exact Or.inr ⟨x, a, hQ, ha, by omega⟩
  | @cons x z v l L he hw ih =>
    intro a ha
    have hl := hnn _ _ _ he
    have hL := hw.nonneg hnn
    rcases hinv.cover x a ha with hS | hQ
    · obtain ⟨c, hc, hle⟩ := hinv.relaxed x a z l hS ha he
      rcases ih c hc with ⟨e, hSv, hDv, hev⟩ | ⟨y, b, hQy, hDy, hby⟩
      · exact Or.inl ⟨e, hSv, hDv, by omega⟩
      · exact Or.inr ⟨y, b, hQy, hDy, by omega⟩
    · exact Or.inr ⟨x, a, hQ, ha, by omega⟩

/-- A node of the queue with the smallest distance has its exact distance. -/
theorem SearchInv.isDist_of_min (hinv : SearchInv E s D S Q)
    (hnn : ∀ u v l, E u v l → 0 ≤ l) {v : V} {d : Int} (hd : D v = some d)
    (hmin : ∀ w b, Q w → D w = some b → d ≤ b) : IsDist E s v d := by
  refine ⟨hinv.sound v d hd, ?_⟩
  intro L hL
  rcases hinv.frontier hnn hL 0 hinv.source with ⟨c, _, hc, hle⟩ | ⟨y, b, hQ, hb, hle⟩
  · rw [hd, Option.some.injEq] at hc
    omega
  · have := hmin y b hQ hb
    omega

/-- With an empty queue every found node has its exact distance, and every node
that a walk reaches is found. -/
theorem SearchInv.isDist_of_empty (hinv : SearchInv E s D S Q)
    (hnn : ∀ u v l, E u v l → 0 ≤ l) (hempty : ∀ v, ¬ Q v) (v : V) (d : Int) :
    IsDist E s v d ↔ D v = some d := by
  constructor
  · intro hd
    rcases hinv.frontier hnn hd.1 0 hinv.source with ⟨c, hS, hc, hle⟩ | ⟨y, _, hQ, _⟩
    · have := hd.2 c (hinv.sound v c hc)
      rw [hc, Option.some.injEq]
      omega
    · exact absurd hQ (hempty y)
  · intro hd
    rcases hinv.cover v d hd with hS | hQ
    · exact hinv.exact v d hS hd
    · exact absurd hQ (hempty v)

/-- One step of the search: the node `v` with the smallest distance leaves the
queue and its edges are relaxed. -/
theorem SearchInv.pop (hinv : SearchInv E s D S Q) (hnn : ∀ u v l, E u v l → 0 ≤ l)
    {v : V} {d : Int} (hQv : Q v) (hd : D v = some d)
    (hmin : ∀ w b, Q w → D w = some b → d ≤ b)
    {D' : V → Option Int} {Q' : V → Prop}
    (himp : ∀ w, D' w = D w ∨
      ∃ l, E v w l ∧ D' w = some (d + l) ∧ ∀ b, D w = some b → d + l < b)
    (hrel : ∀ w l, E v w l → ∃ d', D' w = some d' ∧ d' ≤ d + l)
    (hQ' : ∀ w, Q' w → Q w ∨ ∃ l, E v w l ∧ D' w = some (d + l))
    (hstay : ∀ w, Q w → w ≠ v → Q' w)
    (hnew : ∀ w, D' w ≠ D w → Q' w) :
    SearchInv E s D' (fun x => S x ∨ x = v) Q' := by
  -- a node that left the queue keeps its distance
  have hfix : ∀ x, S x ∨ x = v → D' x = D x := by
    intro x hx
    rcases himp x with h | ⟨l, hl, _, hlt⟩
    · exact h
    · exfalso
      have hl0 := hnn _ _ _ hl
      rcases hx with hS | rfl
      · obtain ⟨a, ha⟩ := hinv.settled x hS
        have h1 := hinv.mono x v a d hS hQv ha hd
        have h2 := hlt a ha
        omega
      · have := hlt d hd
        omega
  have hdec : ∀ w b, D w = some b → ∃ b', D' w = some b' ∧ b' ≤ b := by
    intro w b hb
    rcases himp w with h | ⟨l, _, h, hlt⟩
    · exact ⟨b, by rw [h, hb], le_refl b⟩
    · exact ⟨d + l, h, le_of_lt (hlt b hb)⟩
  have hle : ∀ x a, S x ∨ x = v → D x = some a → a ≤ d := by
    intro x a hx ha
    rcases hx with hS | rfl
    · exact hinv.mono x v a d hS hQv ha hd
    · rw [hd, Option.some.injEq] at ha
      omega
  constructor
  · rcases himp s with h | ⟨l, hl, _, hlt⟩
    · rw [h, hinv.source]
    · exfalso
      have h1 := hlt 0 hinv.source
      have h2 := hnn _ _ _ hl
      have h3 := (hinv.sound v d hd).nonneg hnn
      omega
  · intro w b hb
    rcases himp w with h | ⟨l, hl, h, _⟩
    · exact hinv.sound w b (by rw [← h, hb])
    · rw [h, Option.some.injEq] at hb
      exact hb ▸ (hinv.sound v d hd).snoc hl
  · intro w b hb
    by_cases hw : D' w = D w
    · rcases hinv.cover w b (by rw [← hw, hb]) with hS | hQ
      · exact Or.inl (Or.inl hS)
      · by_cases hwv : w = v
        · exact Or.inl (Or.inr hwv)
        · exact Or.inr (hstay w hQ hwv)
    · exact Or.inr (hnew w hw)
  · intro w hw
    rcases hQ' w hw with hQ | ⟨l, _, h⟩
    · obtain ⟨b, hb⟩ := hinv.queued w hQ
      obtain ⟨b', hb', _⟩ := hdec w b hb
      exact ⟨b', hb'⟩
    · exact ⟨_, h⟩
  · intro x hx
    rw [hfix x hx]
    rcases hx with hS | rfl
    · exact hinv.settled x hS
    · exact ⟨d, hd⟩
  · intro x a w l hx ha he
    rw [hfix x hx] at ha
    rcases hx with hS | rfl
    · obtain ⟨b, hb, hbl⟩ := hinv.relaxed x a w l hS ha he
      obtain ⟨b', hb', hle'⟩ := hdec w b hb
      exact ⟨b', hb', by omega⟩
    · rw [hd, Option.some.injEq] at ha
      exact ha ▸ hrel w l he
  · intro x w a b hx hw ha hb
    rw [hfix x hx] at ha
    have had := hle x a hx ha
    rcases hQ' w hw with hQ | ⟨l, hl, h⟩
    · rcases himp w with h | ⟨l, hl, h, _⟩
      · have := hmin w b hQ (by rw [← h, hb])
        omega
      · have := hnn _ _ _ hl
        rw [h, Option.some.injEq] at hb
        omega
    · have := hnn _ _ _ hl
      rw [h, Option.some.injEq] at hb
      omega
  · intro x a hx ha
    rw [hfix x hx] at ha
    rcases hx with hS | rfl
    · exact hinv.exact x a hS ha
    · rw [hd, Option.some.injEq] at ha
      exact ha ▸ hinv.isDist_of_min hnn hd hmin

/-! ## Relaxing the edges of one node -/

section relax

/-- The state while the edges of a node at distance `d` are relaxed: `D₀` and
`Q₀` are the distances and the queue before, `out` are the targets and lengths
of the edges relaxed so far. -/
structure RelaxInv (d : Int) (D₀ : V → Option Int) (Q₀ : V → Prop) (out : List (V × Int))
    (D : V → Option Int) (Q : V → Prop) : Prop where
  improved : ∀ w, D w = D₀ w ∨
    ∃ l, (w, l) ∈ out ∧ D w = some (d + l) ∧ ∀ b, D₀ w = some b → d + l < b
  relaxed : ∀ w l, (w, l) ∈ out → ∃ d', D w = some d' ∧ d' ≤ d + l
  queued : ∀ w, Q w → Q₀ w ∨ ∃ l, (w, l) ∈ out ∧ D w = some (d + l)
  stay : ∀ w, Q₀ w → Q w
  fresh : ∀ w, D w ≠ D₀ w → Q w

variable {d : Int} {D₀ : V → Option Int} {Q₀ : V → Prop} {out : List (V × Int)}

theorem relaxInv_nil (d : Int) (D : V → Option Int) (Q : V → Prop) :
    RelaxInv d D Q [] D Q where
  improved := fun _ => Or.inl rfl
  relaxed := by simp
  queued := fun _ h => Or.inl h
  stay := fun _ h => h
  fresh := fun _ h => absurd rfl h

/-- An edge that does not improve its target; a target at equal distance may
be put into the queue again. -/
theorem RelaxInv.skip (h : RelaxInv d D₀ Q₀ out D Q) {w : V} {l b : Int}
    (hb : D w = some b) (hle : b ≤ d + l) {Q' : V → Prop}
    (hQ' : ∀ x, Q' x ↔ Q x ∨ x = w ∧ Q' w) (heq : Q' w → Q w ∨ b = d + l) :
    RelaxInv d D₀ Q₀ (out ++ [(w, l)]) D Q' where
  improved := by
    intro x
    rcases h.improved x with h1 | ⟨m, hm, h1, h2⟩
    · exact Or.inl h1
    · exact Or.inr ⟨m, List.mem_append_left _ hm, h1, h2⟩
  relaxed := by
    intro x m hm
    rcases List.mem_append.mp hm with hm | hm
    · exact h.relaxed x m hm
    · obtain ⟨rfl, rfl⟩ : x = w ∧ m = l := by simpa using hm
      exact ⟨b, hb, hle⟩
  queued := by
    have hold : ∀ x, Q x → Q₀ x ∨ ∃ m, (x, m) ∈ out ++ [(w, l)] ∧ D x = some (d + m) := by
      intro x hx
      rcases h.queued x hx with h1 | ⟨m, hm, h1⟩
      · exact Or.inl h1
      · exact Or.inr ⟨m, List.mem_append_left _ hm, h1⟩
    intro x hx
    rcases (hQ' x).mp hx with hx | ⟨rfl, hx⟩
    · exact hold x hx
    · rcases heq hx with hx | hbl
      · exact hold x hx
      · exact Or.inr ⟨l, by simp, by rw [hb, hbl]⟩
  stay := fun x hx => (hQ' x).mpr (Or.inl (h.stay x hx))
  fresh := fun x hx => (hQ' x).mpr (Or.inl (h.fresh x hx))

/-- An edge that improves its target. -/
theorem RelaxInv.improve [DecidableEq V] (h : RelaxInv d D₀ Q₀ out D Q) {w : V} {l : Int}
    (hlt : ∀ b, D w = some b → d + l < b) :
    RelaxInv d D₀ Q₀ (out ++ [(w, l)]) (fun x => if x = w then some (d + l) else D x)
      (fun x => Q x ∨ x = w) where
  improved := by
    intro x
    by_cases hx : x = w
    · subst hx
      refine Or.inr ⟨l, by simp, if_pos rfl, ?_⟩
      intro b hb
      rcases h.improved x with h1 | ⟨m, _, h1, h2⟩
      · exact hlt b (by rw [h1, hb])
      · exact lt_trans (hlt _ h1) (h2 b hb)
    · simp only [if_neg hx]
      rcases h.improved x with h1 | ⟨m, hm, h1, h2⟩
      · exact Or.inl h1
      · exact Or.inr ⟨m, List.mem_append_left _ hm, h1, h2⟩
  relaxed := by
    intro x m hm
    by_cases hx : x = w
    · subst hx
      refine ⟨d + l, if_pos rfl, ?_⟩
      rcases List.mem_append.mp hm with hm | hm
      · obtain ⟨d', hd', hle⟩ := h.relaxed x m hm
        have := hlt d' hd'
        omega
      · obtain ⟨_, rfl⟩ : x = x ∧ m = l := by simpa using hm
        exact le_refl _
    · simp only [if_neg hx]
      rcases List.mem_append.mp hm with hm | hm
      · exact h.relaxed x m hm
      · exact absurd (by simpa using hm : x = w ∧ m = l).1 hx
  queued := by
    intro x hx
    by_cases hxw : x = w
    · subst hxw
      exact Or.inr ⟨l, by simp, if_pos rfl⟩
    · simp only [if_neg hxw]
      rcases hx with hx | hx
      · rcases h.queued x hx with h1 | ⟨m, hm, h1⟩
        · exact Or.inl h1
        · exact Or.inr ⟨m, List.mem_append_left _ hm, h1⟩
      · exact absurd hx hxw
  stay := fun x hx => Or.inl (h.stay x hx)
  fresh := by
    intro x hx
    by_cases hxw : x = w
    · exact Or.inr hxw
    · simp only [if_neg hxw] at hx
      exact Or.inl (h.fresh x hx)

/-- A step of the search, when its edges were relaxed one after the other. -/
theorem SearchInv.pop_relax (hinv : SearchInv E s D₀ S Q) (hnn : ∀ u v l, E u v l → 0 ≤ l)
    {v : V} (hQv : Q v) (hd : D₀ v = some d) (hmin : ∀ w b, Q w → D₀ w = some b → d ≤ b)
    (hout : ∀ w l, E v w l ↔ (w, l) ∈ out) {D' : V → Option Int} {Q' : V → Prop}
    (hQ₀ : ∀ w, Q₀ w ↔ Q w ∧ w ≠ v) (h : RelaxInv d D₀ Q₀ out D' Q') :
    SearchInv E s D' (fun x => S x ∨ x = v) Q' := by
  refine hinv.pop hnn hQv hd hmin ?_ ?_ ?_ ?_ h.fresh
  · intro w
    rcases h.improved w with h1 | ⟨l, hl, h1, h2⟩
    · exact Or.inl h1
    · exact Or.inr ⟨l, (hout w l).mpr hl, h1, h2⟩
  · intro w l hl
    exact h.relaxed w l ((hout w l).mp hl)
  · intro w hw
    rcases h.queued w hw with h1 | ⟨l, hl, h1⟩
    · exact Or.inl ((hQ₀ w).mp h1).1
    · exact Or.inr ⟨l, (hout w l).mpr hl, h1⟩
  · intro w hw hne
    exact h.stay w ((hQ₀ w).mpr ⟨hw, hne⟩)

end relax

/-- A weight that falls when one element of a set is replaced by any elements of
smaller ranks. -/
theorem sum_pow_lt {n : Nat} {r : Nat → Nat} {S S' : Finset Nat} (hS' : S' ⊆ Finset.range n)
    {u : Nat} (hu : u ∈ S) (h : ∀ v ∈ S', v ∈ S ∧ v ≠ u ∨ r v < r u) :
    ∑ v ∈ S', (n + 1) ^ r v < ∑ v ∈ S, (n + 1) ^ r v := by
  classical
  have hsub : S' ⊆ S.erase u ∪ S'.filter fun v => r v < r u := by
    intro v hv
    rw [Finset.mem_union, Finset.mem_erase, Finset.mem_filter]
    rcases h v hv with ⟨h1, h2⟩ | hlt
    · exact Or.inl ⟨h2, h1⟩
    · exact Or.inr ⟨hv, hlt⟩
  have hlow : ∑ v ∈ S'.filter (fun v => r v < r u), (n + 1) ^ r v < (n + 1) ^ r u := by
    cases hru : r u with
    | zero => simp
    | succ k =>
      have hcard : (S'.filter fun v => r v < k + 1).card ≤ n := by
        have h1 := Finset.card_le_card ((Finset.filter_subset (fun v => r v < k + 1) S').trans hS')
        rwa [Finset.card_range] at h1
      calc ∑ v ∈ S'.filter (fun v => r v < k + 1), (n + 1) ^ r v
          ≤ (S'.filter fun v => r v < k + 1).card * (n + 1) ^ k := by
            rw [← smul_eq_mul]
            apply Finset.sum_le_card_nsmul
            intro v hv
            have hlt := (Finset.mem_filter.mp hv).2
            exact Nat.pow_le_pow_right (by omega) (by omega)
        _ ≤ n * (n + 1) ^ k := Nat.mul_le_mul_right _ hcard
        _ < (n + 1) ^ (k + 1) := by
            rw [pow_succ, mul_comm ((n + 1) ^ k)]
            exact Nat.mul_lt_mul_of_pos_right (by omega) (pow_pos (by omega) k)
  calc ∑ v ∈ S', (n + 1) ^ r v
      ≤ ∑ v ∈ S.erase u ∪ S'.filter (fun v => r v < r u), (n + 1) ^ r v :=
        Finset.sum_le_sum_of_subset hsub
    _ ≤ ∑ v ∈ S.erase u, (n + 1) ^ r v + ∑ v ∈ S'.filter (fun v => r v < r u), (n + 1) ^ r v := by
        rw [← Finset.sum_union_inter]
        exact Nat.le_add_right _ _
    _ < ∑ v ∈ S.erase u, (n + 1) ^ r v + (n + 1) ^ r u := by omega
    _ = ∑ v ∈ S, (n + 1) ^ r v := Finset.sum_erase_add S _ hu

end WGraph
