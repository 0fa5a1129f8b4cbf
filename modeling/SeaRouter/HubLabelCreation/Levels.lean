import SeaRouter.HubLabelCreation.CalculateCH

/-!
# The levels of the hierarchy

A run of `calculateCH` is a chain of states, one for each level
(`Reached.unique`), and `Later` is what a later state keeps of an earlier one:
the lists of all edges only grow at their end, and a contracted node keeps its
level.  `calculateCH_levels` sums up the hierarchy at the end of the run.
-/

namespace SeaRouter

open Java WGraph

namespace LabelCreator

variable {I : InputGraph} {n : Nat} {calcOrder : List Int} {ok : Int → LabelCreator → Prop}
  {s s' : LabelCreator} {lvl lvl' : Int}

theorem Reached.nonneg (h : Reached ok I n calcOrder s lvl) : 0 ≤ lvl := by
  induction h with
  | start => exact le_refl 0
  | level _ _ _ _ ih => omega

/-- Where a state comes from. -/
theorem Reached.inv (h : Reached ok I n calcOrder s lvl) :
    (s = LabelCreator.start I.edges I.grid n calcOrder ∧ lvl = 0) ∨
      ∃ s₀ k, lvl = k + 1 ∧ Reached ok I n calcOrder s₀ k ∧ 0 < s₀.nonContractedNum ∧
        calcNextLvl k s₀ = .ok s := by
  cases h with
  | start => exact Or.inl ⟨rfl, rfl⟩
  | @level s₀ _ k hr _ hpos hrun => exact Or.inr ⟨s₀, k, rfl, hr, hpos, hrun⟩

/-- There is one state for each level. -/
theorem Reached.unique (h : Reached ok I n calcOrder s lvl) (h' : Reached ok I n calcOrder s' lvl) :
    s = s' := by
  induction h generalizing s' with
  | start =>
    rcases h'.inv with ⟨rfl, _⟩ | ⟨s₂, k', hk, hr', _⟩
    · rfl
    · have := hr'.nonneg
      omega
  | @level s₀ s₁ k hr _ _ hrun ih =>
    rcases h'.inv with ⟨_, hk⟩ | ⟨s₂, k', hk, hr', _, hrun'⟩
    · have := hr.nonneg
      omega
    · obtain rfl : k' = k := by omega
      obtain rfl := ih hr'
      rw [hrun, Except.ok.injEq] at hrun'
      exact hrun'

/-- No state comes after one with no node left. -/
theorem Reached.le_final (h : Reached ok I n calcOrder s lvl) (hdone : s.nonContractedNum ≤ 0)
    (h' : Reached ok I n calcOrder s' lvl') : lvl' ≤ lvl := by
  induction h' with
  | start => exact h.nonneg
  | @level s₀ s₁ k hr _ hpos _ ih =>
    rcases lt_or_eq_of_le ih with hlt | heq
    · omega
    · subst heq
      obtain rfl := hr.unique h
      omega

/-- The call of `calcNextLvl` for the level `k` contracts `u`. -/
def PickedAt (I : InputGraph) (n : Nat) (calcOrder : List Int) (u k : Int) : Prop :=
  ∃ s₀ s₁, Reached (fun _ _ => True) I n calcOrder s₀ k ∧ calcNextLvl k s₀ = .ok s₁ ∧
    u ∈ uncontracted s₀ ∧ u ∉ uncontracted s₁

/-- What a later state keeps of an earlier one. -/
structure Later (s s' : LabelCreator) : Prop where
  all : ∀ u, s.grid.all u <+: s'.grid.all u
  gone : ∀ u, u ∉ uncontracted s → u ∉ uncontracted s'
  level : ∀ u, u ∉ uncontracted s → levelOf s' u = levelOf s u

theorem Later.refl (s : LabelCreator) : Later s s :=
  ⟨fun _ => List.prefix_refl _, fun _ h => h, fun _ _ => rfl⟩

theorem Later.trans {s'' : LabelCreator} (h : Later s s') (h' : Later s' s'') : Later s s'' where
  all := fun u => (h.all u).trans (h'.all u)
  gone := fun u hu => h'.gone u (h.gone u hu)
  level := fun u hu => (h'.level u (h.gone u hu)).trans (h.level u hu)

theorem LevelStep.later {K : Int → Int → Prop} {cs : List Int} {new : List Shortcut}
    {N : Int → List Int} (hs : LevelStep n lvl s K s' cs new N) : Later s s' where
  all := fun u => ⟨N u, (hs.all u).symm⟩
  gone := fun u hu hmem => hu ((hs.rest u).mp hmem).1
  level := by
    intro u hu
    rw [hs.levelOf_eq, if_neg fun hmem => hu (hs.subset u hmem)]

section run

variable (hI : I.Undirected n) (hpos : I.Positive)
  (horder : ∀ u : Int, u ∈ calcOrder ↔ 0 ≤ u ∧ u < n)

include hI hpos horder

/-- A level of the run, with all that it does. -/
theorem Reached.step (h : Reached ok I n calcOrder s lvl) (hrun : calcNextLvl lvl s = .ok s') :
    ∃ K cs new N, Hierarchy I n s K lvl ∧ LevelStep n lvl s K s' cs new N := by
  obtain ⟨K, hh⟩ := h.hierarchy hI hpos horder
  obtain ⟨s'', cs, new, N, hrun', hs⟩ := calcNextLvl_spec hh.consistent lvl
  rw [hrun, Except.ok.injEq] at hrun'
  subst hrun'
  exact ⟨K, cs, new, N, hh, hs⟩

theorem Reached.later (h : Reached ok I n calcOrder s lvl) (h' : Reached ok I n calcOrder s' lvl')
    (hle : lvl ≤ lvl') : Later s s' := by
  induction h' with
  | start =>
    have hnn := h.nonneg
    obtain rfl : lvl = 0 := by omega
    obtain rfl := h.unique Reached.start
    exact Later.refl _
  | @level s₀ s₁ k hr hok hnum hrun ih =>
    by_cases hk : lvl = k + 1
    · subst hk
      obtain rfl := h.unique (hr.level hok hnum hrun)
      exact Later.refl _
    · obtain ⟨K, cs, new, N, _, hs⟩ := hr.step hI hpos horder hrun
      exact (ih (by omega)).trans hs.later

/-- Each level has a node. -/
theorem Reached.exists_level (h : Reached ok I n calcOrder s lvl) (k : Int) (h0 : 0 ≤ k)
    (hk : k < lvl) : ∃ u : Int, (0 ≤ u ∧ u < n) ∧ u ∉ uncontracted s ∧ levelOf s u = k := by
  induction h with
  | start => omega
  | @level s₀ s₁ l hr _ hnum hrun ih =>
    obtain ⟨K, cs, new, N, hh, hs⟩ := hr.step hI hpos horder hrun
    by_cases hkl : k = l
    · have hne : cs ≠ [] := by
        intro hnil
        have hleft := hh.consistent.left
        rw [hs.progress hnil, Finset.card_empty] at hleft
        omega
      obtain ⟨c, hc⟩ := List.exists_mem_of_ne_nil cs hne
      refine ⟨c, hh.consistent.isNode (hs.subset c hc), fun hmem => ((hs.rest c).mp hmem).2 hc, ?_⟩
      rw [hs.levelOf_eq, if_pos hc, hkl]
    · obtain ⟨u, hu, hgone, hlevel⟩ := ih (by omega)
      exact ⟨u, hu, hs.later.gone u hgone, (hs.later.level u hgone).trans hlevel⟩

/-- The level of a node is the one in which it was contracted. -/
theorem Reached.pickedAt (h : Reached (fun _ _ => True) I n calcOrder s lvl) {u : Int}
    (hu : 0 ≤ u ∧ u < n) (hgone : u ∉ uncontracted s) :
    PickedAt I n calcOrder u (levelOf s u) := by
  induction h with
  | start => exact absurd ((uncontracted_start _ _ _ _ u).mpr hu) hgone
  | @level s₀ s₁ l hr _ _ hrun ih =>
    obtain ⟨K, cs, new, N, hh, hs⟩ := hr.step hI hpos horder hrun
    by_cases hmem : u ∈ uncontracted s₀
    · have hcs : u ∈ cs := by
        by_contra hno
        exact hgone ((hs.rest u).mpr ⟨hmem, hno⟩)
      rw [hs.levelOf_eq, if_pos hcs]
      exact ⟨s₀, s₁, hr, hrun, hmem, hgone⟩
    · rw [hs.later.level u hmem]
      exact ih hmem

theorem PickedAt.levelOf_eq {u k : Int} (hp : PickedAt I n calcOrder u k)
    (h : Reached (fun _ _ => True) I n calcOrder s lvl) (hdone : s.nonContractedNum ≤ 0) :
    levelOf s u = k := by
  obtain ⟨s₀, s₁, hr, hrun, hmem, hgone⟩ := hp
  obtain ⟨K, cs, new, N, hh, hs⟩ := hr.step hI hpos horder hrun
  have hcs : u ∈ cs := by
    by_contra hno
    exact hgone ((hs.rest u).mpr ⟨hmem, hno⟩)
  have hnum : 0 < s₀.nonContractedNum := by
    rw [hh.consistent.left]
    exact_mod_cast Finset.card_pos.mpr ⟨u, hmem⟩
  have hr' := hr.level trivial hnum hrun
  rw [(hr'.later hI hpos horder h (h.le_final hdone hr')).level u hgone, hs.levelOf_eq, if_pos hcs]

/-- No edge is listed twice. -/
theorem Reached.nodup_all (hnd : ∀ u, (I.grid.current u).Nodup)
    (h : Reached ok I n calcOrder s lvl) (u : Int) : (s.grid.all u).Nodup := by
  induction h with
  | start => exact hnd u
  | @level s₀ s₁ l hr _ _ hrun ih =>
    obtain ⟨K, cs, new, N, hh, hs⟩ := hr.step hI hpos horder hrun
    rw [hs.all, List.nodup_append]
    refine ⟨ih, ?_, ?_⟩
    · apply (hs.once u).imp
      intro e e' hne heq
      exact hne (by rw [heq])
    · intro e he e' he' heq
      subst heq
      have hid := (hh.edge_all hI he).2.1
      have hnew := (hs.new_ u e he').1
      have := hid.2
      omega

/-- At the end of `calculateCH` each node has the one level in which it was
contracted, the levels are `0` to `lvl - 1` with none empty, no edge ever
recorded joins two nodes of one level, and each edge that was ever in the
current graph is still recorded once. -/
theorem calculateCH_levels (hnd : ∀ u, (I.grid.current u).Nodup) :
    ∃ s lvl, calculateCH I.edges I.grid n calcOrder = .ok s ∧
      Reached (fun _ _ => True) I n calcOrder s lvl ∧
      (∀ u : Int, 0 ≤ u → u < n → (∃ k, rd s.levels u = .ok k ∧ 0 ≤ k ∧ k < lvl ∧
        PickedAt I n calcOrder u k ∧ ∀ k', PickedAt I n calcOrder u k' → k' = k)) ∧
      (∀ k, 0 ≤ k → k < lvl → ∃ u : Int, (0 ≤ u ∧ u < n) ∧ rd s.levels u = .ok k) ∧
      (∀ u, ∀ e ∈ s.grid.all u, rd s.levels (s.edges.destOf e) ≠ rd s.levels u) ∧
      (∀ s₀ lvl₀, Reached (fun _ _ => True) I n calcOrder s₀ lvl₀ →
        (∀ u, ∀ e ∈ s₀.grid.all u, e ∈ s.grid.all u) ∧
        ∀ u, ∀ e ∈ s₀.grid.current u, (s.grid.all u).count e = 1) := by
  obtain ⟨s, lvl, hrun, hr, hempty⟩ := calculateCH_of_consistent (fun _ _ => True)
    (fun s lvl hr => by
      obtain ⟨K, hh⟩ := hr.hierarchy hI hpos horder
      exact ⟨K, hh.consistent⟩) (fun _ _ _ _ => trivial)
  obtain ⟨K, hh⟩ := hr.hierarchy hI hpos horder
  have hgone : ∀ u, u ∉ uncontracted s := by
    intro u
    rw [hempty]
    exact Finset.notMem_empty u
  have hdone : s.nonContractedNum ≤ 0 := by
    rw [hh.consistent.left, hempty, Finset.card_empty]
    exact le_refl 0
  have hread : ∀ u : Int, 0 ≤ u → u < n → rd s.levels u = .ok (levelOf s u) := by
    intro u h0 h1
    obtain ⟨x, hx⟩ := exists_rd (a := s.levels) h0 (by rw [hh.consistent.levelsLength]; exact h1)
    rw [levelOf, hx]
    rfl
  refine ⟨s, lvl, hrun, hr, ?_, ?_, ?_, ?_⟩
  · intro u h0 h1
    obtain ⟨hl0, hl1⟩ := hh.level u h0 h1 (hgone u)
    refine ⟨levelOf s u, hread u h0 h1, hl0, hl1,
      hr.pickedAt hI hpos horder ⟨h0, h1⟩ (hgone u), ?_⟩
    intro k' hk'
    exact (hk'.levelOf_eq hI hpos horder hr hdone).symm
  · intro k h0 hk
    obtain ⟨u, hu, _, rfl⟩ := hr.exists_level hI hpos horder k h0 hk
    exact ⟨u, hu, hread u hu.1 hu.2⟩
  · intro u e he
    obtain ⟨hu, _, _, hd0, hd1⟩ := hh.edge_all hI he
    rw [hread u hu.1 hu.2, hread _ hd0 hd1, ne_eq, Except.ok.injEq]
    rcases hh.separate u (hgone u) e he with hsep | hsep
    · have := hsep.2.resolve_left (hgone _)
      omega
    · have := hsep.2.resolve_left (hgone _)
      omega
  · intro s₀ lvl₀ hr₀
    have hlater := hr₀.later hI hpos horder hr (hr.le_final hdone hr₀)
    have hmem : ∀ u, ∀ e ∈ s₀.grid.all u, e ∈ s.grid.all u := fun u e he =>
      (hlater.all u).subset he
    refine ⟨hmem, ?_⟩
    intro u e he
    obtain ⟨_, hh₀⟩ := hr₀.hierarchy hI hpos horder
    exact List.count_eq_one_of_mem (hr.nodup_all hI hpos horder hnd u)
      (hmem u e (hh₀.current_all u e he))

end run

theorem calculateCH_levels_detour :
    ∃ s lvl, calculateCH detour.edges detour.grid 3 [1, 0, 2] = .ok s ∧
      Reached (fun _ _ => True) detour 3 [1, 0, 2] s lvl ∧
      (∀ u : Int, 0 ≤ u → u < (3 : Nat) → (∃ k, rd s.levels u = .ok k ∧ 0 ≤ k ∧ k < lvl ∧
        PickedAt detour 3 [1, 0, 2] u k ∧ ∀ k', PickedAt detour 3 [1, 0, 2] u k' → k' = k)) ∧
      (∀ k, 0 ≤ k → k < lvl → ∃ u : Int, (0 ≤ u ∧ u < (3 : Nat)) ∧ rd s.levels u = .ok k) ∧
      (∀ u, ∀ e ∈ s.grid.all u, rd s.levels (s.edges.destOf e) ≠ rd s.levels u) ∧
      (∀ s₀ lvl₀, Reached (fun _ _ => True) detour 3 [1, 0, 2] s₀ lvl₀ →
        (∀ u, ∀ e ∈ s₀.grid.all u, e ∈ s.grid.all u) ∧
        ∀ u, ∀ e ∈ s₀.grid.current u, (s.grid.all u).count e = 1) := by
  have hnd : ∀ u, (detour.grid.current u).Nodup := by
    intro u
    by_cases hu : 0 ≤ u ∧ u < (3 : Nat)
    · have hcheck : ∀ k ∈ List.range 3, (detour.grid.current (k : Nat)).Nodup := by decide +kernel
      obtain ⟨k, rfl⟩ : ∃ k : Nat, u = k := ⟨u.toNat, by omega⟩
      exact hcheck k (List.mem_range.mpr (by omega))
    · rw [show detour.grid.current u = [] from detour_checked.lists.listOf_outside hu]
      exact List.nodup_nil
  exact calculateCH_levels detour_checked.undirected detour_positive mem_detourOrder hnd

end LabelCreator

end SeaRouter
